/-
SyncSystem.Queue.Conservation — no message is lost or duplicated before
its acknowledgement.

A message is in a local queue or with the task that waits for its
acknowledgement. That together they are in custody (`Custody`) is kept by
every step; a task may let its message go because its event is only set
by an acknowledgement of that message (`Bookkeeping`).
-/
import SyncSystem.Delivery.Custody
import SyncSystem.Queue.System

namespace SyncSystem.Queue

open SyncSystem.Python
open SyncSystem.Delivery

abbrev QueueRun := Config QueueSystem QueueAction (List QueueEvent)

/-! ## What the callers were told -/

structure Ledger where
  /-- With the topic they were accepted for. -/
  accepted : List (String × Message)
  delivered : List String
  acked : List String

namespace Ledger

def empty : Ledger := ⟨[], [], []⟩

def record (L : Ledger) : QueueEvent → Ledger
  | .enqueued topic msg => { L with accepted := (topic, msg) :: L.accepted }
  | .delivered _ _ msg => { L with delivered := msg.msgId :: L.delivered }
  | .ackAnswered msgId _ true => { L with acked := msgId :: L.acked }
  | _ => L

def messages (L : Ledger) : List Message := L.accepted.map Prod.snd

theorem foldl_silent {out : List QueueEvent} (h : ∀ e ∈ out, e.silent = true) (L : Ledger) :
    out.foldl record L = L := by
  induction out generalizing L with
  | nil => rfl
  | cons e rest ih =>
    have he : L.record e = L := by
      have hs := h e (by simp)
      cases e with
      | ackAnswered msgId consumer success =>
        cases success with
        | true => simp [QueueEvent.silent] at hs
        | false => rfl
      | enqueued => simp [QueueEvent.silent] at hs
      | delivered => simp [QueueEvent.silent] at hs
      | nothing => rfl
      | raised => rfl
    rw [List.foldl_cons, he]
    exact ih (fun e' he' => h e' (by simp [he'])) L

end Ledger

/-- What the callers have been told so far. -/
def ledger (c : QueueRun) : Ledger := c.track Ledger.record .empty

/-- `enqueue` has returned success for `m`. -/
def Accepted (c : QueueRun) (m : Message) : Prop := m ∈ (ledger c).messages

/-- An `acknowledge` of this message has returned success. -/
def Acked (c : QueueRun) (msgId : String) : Prop := msgId ∈ (ledger c).acked

instance (c : QueueRun) (m : Message) : Decidable (Accepted c m) :=
  inferInstanceAs (Decidable (m ∈ (ledger c).messages))

instance (c : QueueRun) (msgId : String) : Decidable (Acked c msgId) :=
  inferInstanceAs (Decidable (msgId ∈ (ledger c).acked))

/-- The messages in the queues and with the waiting tasks, as they were
enqueued. -/
def QueueSystem.places (s : QueueSystem) : List Message :=
  (s.queue.contents ++ s.tasks.map WaitTask.message).map Message.asEnqueued

/-! ## Events belong to messages -/

structure Bookkeeping (E : QueueEnv) (s : QueueSystem) (L : Ledger) : Prop where
  issued : ∀ m ∈ L.messages, ∃ i < s.nextMessage, m.msgId = E.uuid i
  partition : ∀ t ∈ s.tasks, s.queue.localQueues.contains t.partition = true
  taskEvent : ∀ t ∈ s.tasks, t.event < s.nextEvent
  setEvent : ∀ e ∈ s.setEvents, e < s.nextEvent
  pendingEvent : ∀ msgId e, s.queue.pendingAck.get? msgId = some e → e < s.nextEvent
  /-- A pending event belongs to the tasks of its message. -/
  pending : ∀ msgId e, s.queue.pendingAck.get? msgId = some e →
    ∀ t ∈ s.tasks, t.event = e → t.message.msgId = msgId
  /-- A task whose event is set has an acknowledged message. -/
  settled : ∀ t ∈ s.tasks, t.event ∈ s.setEvents → t.message.msgId ∈ L.acked

namespace Bookkeeping

variable {E : QueueEnv} {s s' : QueueSystem} {L : Ledger}

theorem init (n : Nat) : Bookkeeping E (.init n) .empty where
  issued := by simp [Ledger.messages, Ledger.empty]
  partition := by simp [QueueSystem.init]
  taskEvent := by simp [QueueSystem.init]
  setEvent := by simp [QueueSystem.init]
  pendingEvent := by simp [QueueSystem.init, DistributedQueue.init, DistributedQueue.start]
  pending := by simp [QueueSystem.init, DistributedQueue.init, DistributedQueue.start]
  settled := by simp [QueueSystem.init]

/-- The next id is new. -/
theorem fresh (h : Bookkeeping E s L) {msgId : String} (hid : msgId = E.uuid s.nextMessage) :
    ∀ m ∈ L.messages, m.msgId ≠ msgId := by
  intro m hm heq
  obtain ⟨i, hi, hissued⟩ := h.issued m hm
  have hsame : i = s.nextMessage := E.uuid_injective (by rw [← hissued, heq, hid])
  omega

/-- Tasks have gone or fired, messages have moved; no event is new. -/
theorem keep (h : Bookkeeping E s L)
    (ht : ∀ t' ∈ s'.tasks, ∃ t ∈ s.tasks, t'.event = t.event ∧ t'.message = t.message ∧
      t'.partition = t.partition)
    (hq : ∀ p, s.queue.localQueues.contains p = true → s'.queue.localQueues.contains p = true)
    (hp : s'.queue.pendingAck = s.queue.pendingAck) (hs : s'.setEvents = s.setEvents)
    (he : s'.nextEvent = s.nextEvent) (hm : s'.nextMessage = s.nextMessage) :
    Bookkeeping E s' L := by
  refine ⟨?_, ?_, ?_, ?_, ?_, ?_, ?_⟩
  · rw [hm]; exact h.issued
  · intro t' ht'
    obtain ⟨t, hmem, _, _, hpart⟩ := ht t' ht'
    rw [hpart]
    exact hq _ (h.partition t hmem)
  · intro t' ht'
    obtain ⟨t, hmem, hevent, _, _⟩ := ht t' ht'
    rw [hevent, he]
    exact h.taskEvent t hmem
  · rw [hs, he]; exact h.setEvent
  · rw [hp, he]; exact h.pendingEvent
  · intro msgId e hget t' ht' hte
    obtain ⟨t, hmem, hevent, hmsg, _⟩ := ht t' ht'
    rw [hp] at hget
    rw [hmsg]
    exact h.pending msgId e hget t hmem (hevent ▸ hte)
  · intro t' ht' hset
    obtain ⟨t, hmem, hevent, hmsg, _⟩ := ht t' ht'
    rw [hmsg]
    exact h.settled t hmem (by rw [← hevent, ← hs]; exact hset)

theorem enqueued (h : Bookkeeping E s L) {topic name : String} {msg : Message}
    {ms : List Message} (hid : msg.msgId = E.uuid s.nextMessage) (ws : List Op) :
    Bookkeeping E (s.append ws name ms msg) (L.record (.enqueued topic msg)) := by
  refine ⟨?_, ?_, h.taskEvent, h.setEvent, h.pendingEvent, h.pending, h.settled⟩
  · intro m hm
    rcases List.mem_cons.mp hm with rfl | hm
    · exact ⟨s.nextMessage, Nat.lt_succ_self _, hid⟩
    · obtain ⟨i, hi, heq⟩ := h.issued m hm
      exact ⟨i, Nat.lt_succ_of_lt hi, heq⟩
  · intro t ht
    exact DistributedQueue.contains_set (h.partition t ht)

theorem delivered (h : Bookkeeping E s L) {topic consumer partition : String} {msg : Message}
    {ms rest : List Message} (hget : s.queue.localQueues.get? partition = some ms)
    (ws : List Op) :
    Bookkeeping E (s.handOut ws partition msg rest)
      (L.record (.delivered topic consumer msg)) := by
  refine ⟨h.issued, ?_, ?_, ?_, ?_, ?_, ?_⟩
  · intro t ht
    refine DistributedQueue.contains_set ?_
    rcases List.mem_append.mp ht with ht | ht
    · exact h.partition t ht
    · rw [List.mem_singleton.mp ht]
      exact DistributedQueue.contains_of_get? hget
  · intro t ht
    rcases List.mem_append.mp ht with ht | ht
    · exact Nat.lt_succ_of_lt (h.taskEvent t ht)
    · rw [List.mem_singleton.mp ht]
      exact Nat.lt_succ_self _
  · exact fun e he => Nat.lt_succ_of_lt (h.setEvent e he)
  · intro msgId e hpend
    simp only [QueueSystem.handOut_pendingAck, Dict.get?_set] at hpend
    split at hpend
    · cases hpend
      exact Nat.lt_succ_self _
    · exact Nat.lt_succ_of_lt (h.pendingEvent msgId e hpend)
  · intro msgId e hpend t ht hte
    simp only [QueueSystem.handOut_pendingAck, Dict.get?_set, beq_iff_eq] at hpend
    rcases List.mem_append.mp ht with ht | ht
    · have hlt := h.taskEvent t ht
      split at hpend
      · cases hpend
        omega
      · exact h.pending msgId e hpend t ht hte
    · rw [List.mem_singleton.mp ht] at hte ⊢
      split at hpend
      · next heq => exact heq
      · have hlt := h.pendingEvent msgId e hpend
        simp only at hte
        omega
  · intro t ht hset
    rcases List.mem_append.mp ht with ht | ht
    · exact h.settled t ht hset
    · rw [List.mem_singleton.mp ht] at hset
      exact absurd (h.setEvent _ hset) (Nat.lt_irrefl _)

theorem acknowledged (h : Bookkeeping E s L) (consumer : String) {msgId : String} {event : Nat}
    (hget : s.queue.pendingAck.get? msgId = some event) (ws : List Op) :
    Bookkeeping E (s.settle ws msgId event) (L.record (.ackAnswered msgId consumer true)) := by
  have hdel : ∀ msgId' e, (s.queue.pendingAck.del msgId).get? msgId' = some e →
      s.queue.pendingAck.get? msgId' = some e := by
    intro msgId' e he
    rw [Dict.get?_del] at he
    split at he
    · cases he
    · exact he
  refine ⟨h.issued, h.partition, h.taskEvent, ?_, ?_, ?_, ?_⟩
  · intro e he
    rcases List.mem_cons.mp he with rfl | he
    · exact h.pendingEvent msgId e hget
    · exact h.setEvent e he
  · exact fun msgId' e he => h.pendingEvent msgId' e (hdel msgId' e he)
  · exact fun msgId' e he => h.pending msgId' e (hdel msgId' e he)
  · intro t ht hset
    rcases List.mem_cons.mp hset with heq | hset
    · rw [h.pending msgId event hget t ht heq]
      exact List.mem_cons_self
    · exact List.mem_cons_of_mem _ (h.settled t ht hset)

end Bookkeeping

/-! ## Custody -/

theorem tasks_perm {tasks : List WaitTask} {k : Nat} {t : WaitTask} (h : tasks[k]? = some t) :
    tasks.Perm (t :: tasks.eraseIdx k) := by
  obtain ⟨hk, rfl⟩ := List.getElem?_eq_some_iff.mp h
  exact (List.getElem_cons_eraseIdx_perm hk).symm

/-- The message of a task, taken out of the places. -/
theorem places_perm_erase {s : QueueSystem} {k : Nat} {t : WaitTask}
    (hk : s.tasks[k]? = some t) :
    s.places.Perm (t.message.asEnqueued ::
      QueueSystem.places { s with tasks := s.tasks.eraseIdx k }) := by
  have htasks := (tasks_perm hk).map WaitTask.message
  have hperm := (htasks.append_left s.queue.contents).trans List.perm_middle
  exact hperm.map Message.asEnqueued

/-- A timer that fires leaves its task with its event and its message. -/
theorem mem_fire {tasks : List WaitTask} {k : Nat} {t t' : WaitTask} (hk : tasks[k]? = some t)
    (ht' : t' ∈ tasks.set k { t with fired := true }) :
    ∃ t₀ ∈ tasks, t'.event = t₀.event ∧ t'.message = t₀.message ∧
      t'.partition = t₀.partition := by
  rcases List.mem_or_eq_of_mem_set ht' with hmem | rfl
  · exact ⟨t', hmem, rfl, rfl, rfl⟩
  · exact ⟨t, List.mem_of_getElem? hk, rfl, rfl, rfl⟩

theorem map_message_fire {tasks : List WaitTask} {k : Nat} {t : WaitTask}
    (h : tasks[k]? = some t) :
    (tasks.set k { t with fired := true }).map WaitTask.message =
      tasks.map WaitTask.message := by
  have hk : (tasks.map WaitTask.message)[k]? = some t.message := by simp [h]
  rw [List.map_set]
  obtain ⟨hlt, heq⟩ := List.getElem?_eq_some_iff.mp hk
  rw [← heq, List.set_getElem_self]

structure Conserved (E : QueueEnv) (s : QueueSystem) (L : Ledger) : Prop where
  books : Bookkeeping E s L
  custody : Custody Message.msgId s.places L.messages L.acked

variable {E : QueueEnv} {s s' : QueueSystem} {L : Ledger}

theorem Conserved.ids_nodup (h : Conserved E s L) :
    (s.queue.contents.map Message.msgId ++
      s.tasks.map (fun t => t.message.msgId)).Nodup := by
  have hdistinct := h.custody.distinct
  simp only [QueueSystem.places, List.map_map, List.map_append] at hdistinct
  exact hdistinct

/-- A message with a task is in no queue. -/
theorem Conserved.not_queued (h : Conserved E s L) {t : WaitTask} (ht : t ∈ s.tasks) :
    t.message.msgId ∉ s.queue.contents.map Message.msgId := by
  intro hmem
  exact (List.nodup_append.mp h.ids_nodup).2.2 _ hmem _ (List.mem_map_of_mem ht) rfl

/-- A message has one task. -/
theorem Conserved.task_unique (h : Conserved E s L) {t t' : WaitTask} (ht : t ∈ s.tasks)
    (ht' : t' ∈ s.tasks) (heq : t.message.msgId = t'.message.msgId) : t = t' :=
  List.inj_on_of_nodup_map (List.nodup_append.mp h.ids_nodup).2.1 ht ht' heq

/-- The queues side of the places moved with the tasks side as it is. -/
theorem places_perm {ms ms' : List Message} (h : ms.Perm ms') (tasks : List Message) :
    ((ms ++ tasks).map Message.asEnqueued).Perm ((ms' ++ tasks).map Message.asEnqueued) :=
  (h.append_right tasks).map _

theorem conserved_enqueued (h : Conserved E s L) {topic name payload : String} {now : Rat}
    {ms : List Message} {msg : Message} (hmsg : msg = ⟨E.uuid s.nextMessage, payload, now, 0, false⟩)
    (hget : s.queue.localQueues.get? name = some ms) (ws : List Op) :
    Conserved E (s.append ws name ms msg) (L.record (.enqueued topic msg)) := by
  refine ⟨h.books.enqueued (by rw [hmsg]) ws, ?_⟩
  refine (h.custody.accept (h.books.fresh (by rw [hmsg]))).perm ?_
  have hsame : msg.asEnqueued = msg := by rw [hmsg]; rfl
  have hperm := places_perm (DistributedQueue.contents_append hget msg).symm
    (s.tasks.map WaitTask.message)
  rw [List.cons_append, List.map_cons, hsame] at hperm
  exact hperm

theorem conserved_delivered (h : Conserved E s L) (topic consumer : String)
    {partition : String} {msg : Message} {rest : List Message}
    (hget : s.queue.localQueues.get? partition = some (msg :: rest)) (ws : List Op) :
    Conserved E (s.handOut ws partition msg rest) (L.record (.delivered topic consumer msg)) := by
  refine ⟨h.books.delivered hget ws, h.custody.perm ?_⟩
  refine (places_perm (DistributedQueue.contents_pop hget) _).trans (List.Perm.map _ ?_)
  simp only [QueueSystem.handOut_tasks, List.map_append, List.map_cons, List.map_nil,
    List.cons_append]
  refine (List.perm_middle (a := msg)).symm.trans ?_
  exact List.Perm.append_left _ (List.perm_append_singleton msg _).symm

theorem conserved_reinserted (h : Conserved E s L) {k : Nat} {t : WaitTask}
    (hk : s.tasks[k]? = some t) :
    Conserved E
      { s with queue := s.queue.reinsert t.partition t.message, tasks := s.tasks.eraseIdx k } L := by
  have hpart := h.books.partition t (List.mem_of_getElem? hk)
  have hplaces := places_perm_erase hk
  refine ⟨?_, ?_⟩
  · refine h.books.keep ?_ (fun p hp => DistributedQueue.contains_reinsert _ hp) ?_ rfl rfl rfl
    · intro t' ht'
      exact ⟨t', List.mem_of_mem_eraseIdx ht', rfl, rfl, rfl⟩
    · exact DistributedQueue.reinsert_pendingAck _ _ _
  · -- the task's message is not in a queue already: it is in custody once
    have hnot : t.message ∉ s.queue.contents := by
      intro hmem
      refine (h.custody.perm hplaces).not_mem_of_cons t.message.asEnqueued ?_ rfl
      exact List.mem_map_of_mem (List.mem_append_left _ hmem)
    have hmoved := places_perm (DistributedQueue.contents_reinsert hpart hnot)
      ((s.tasks.eraseIdx k).map WaitTask.message)
    exact h.custody.perm (hplaces.trans hmoved.symm)

theorem conserved_finished (h : Conserved E s L) {k : Nat} {t : WaitTask}
    (hk : s.tasks[k]? = some t) (hset : t.event ∈ s.setEvents) :
    Conserved E { s with tasks := s.tasks.eraseIdx k } L := by
  have hack := h.books.settled t (List.mem_of_getElem? hk) hset
  refine ⟨?_, ?_⟩
  · refine h.books.keep ?_ (fun _ hp => hp) rfl rfl rfl rfl
    intro t' ht'
    exact ⟨t', List.mem_of_mem_eraseIdx ht', rfl, rfl, rfl⟩
  · exact (h.custody.perm (places_perm_erase hk)).drop hack

/-- Every effect keeps the messages in custody. -/
theorem Conserved.effect (h : Conserved E s L) {a : QueueAction} {out : List QueueEvent}
    (he : QueueSystem.Effect E s a s' out) : Conserved E s' (out.foldl Ledger.record L) := by
  cases he with
  | quiet _ ws p _ _ hout =>
    rw [Ledger.foldl_silent hout]
    refine ⟨h.books.keep ?_ (fun _ hp => hp) rfl rfl rfl rfl, h.custody⟩
    exact fun t ht => ⟨t, ht, rfl, rfl, rfl⟩
  | enqueued k now ws topic payload name ms msg hmsg _ hget =>
    exact conserved_enqueued h hmsg hget ws
  | delivered _ ws topic consumer partition msg rest _ hget =>
    exact conserved_delivered h topic consumer hget ws
  | acknowledged k now ws msgId consumer event _ hget =>
    exact ⟨h.books.acknowledged consumer hget ws, h.custody.ack msgId⟩
  | recovered k now ws =>
    refine ⟨h.books.keep ?_ ?_ rfl rfl rfl rfl, ?_⟩
    · exact fun t ht => ⟨t, ht, rfl, rfl, rfl⟩
    · intro p hp
      rw [DistributedQueue.contains_recover]
      exact hp
    · have hsame : (s.queue.recover now).contents.map Message.asEnqueued =
          s.queue.contents.map Message.asEnqueued := by
        rw [DistributedQueue.contents_recover, List.map_map]
        exact List.map_congr_left (fun m _ => m.asEnqueued_recover now)
      simp only [List.foldl_nil, QueueSystem.places, List.map_append, hsame]
      rw [← List.map_append]
      exact h.custody
  | fired k t hk _ =>
    refine ⟨h.books.keep ?_ (fun _ hp => hp) rfl rfl rfl rfl, ?_⟩
    · exact fun t' ht' => mem_fire hk ht'
    · simp only [List.foldl_nil, QueueSystem.places]
      rw [map_message_fire hk]
      exact h.custody
  | reinserted k t hk _ => exact conserved_reinserted h hk
  | finished k t hk _ hset => exact conserved_finished h hk hset

theorem conserved_of_leads {ok : QueueRun → QueueAction → Prop} {n : Nat} {c : QueueRun}
    (h : (QueueSystem.machine E).Leads ok ([], .init n) c) : Conserved E c.2 (ledger c) := by
  refine h.track_invariant (I := Conserved E) ?_ ?_
  · refine ⟨.init n, ?_⟩
    have hempty : (QueueSystem.init n).queue.contents = [] := DistributedQueue.contents_start n
    simp only [QueueSystem.places, hempty]
    exact .empty
  · intro c a s' out _ ih _ hs
    exact ih.effect (QueueSystem.step_effect hs)

/-! ## Conservation -/

/-- **No message is lost or duplicated before its ack.** A message that
has been accepted and not acknowledged is in exactly one place, and no
place holds a message that was not accepted. -/
theorem accepted_in_one_place {n : Nat} {c : QueueRun}
    (h : (QueueSystem.machine E).Leads Machine.always ([], .init n) c) :
    (∀ m, Accepted c m → ¬ Acked c m.msgId → c.2.places.count m = 1) ∧
      ∀ m ∈ c.2.places, Accepted c m := by
  have hcustody := (conserved_of_leads h).custody
  exact ⟨fun m hm hack => hcustody.count_eq_one hm hack, hcustody.known⟩

/-- Topics hashed by length, ids numbered. -/
def numbered : QueueEnv where
  hash := String.length
  uuid := Nat.repr
  uuid_injective := fun _ _ h => repr_injective h

/-- A message is delivered, times out while another one is acknowledged,
and is back in its queue. -/
def redeliveryRun : List QueueAction :=
  [.call (.enqueue "t" "one" "p"), .call (.enqueue "t" "two" "p"), .enter 0 0, .enter 0 1,
   .call (.dequeue "t" "c" (.int 1)), .enter 0 2, .call (.dequeue "t" "c" (.int 1)), .enter 0 3,
   .call (.acknowledge "1" "c"), .enter 0 4, .finish 1, .fire 0, .reinsert 0]

theorem accepted_in_one_place_redeliveryRun :
    ∃ c, (QueueSystem.machine numbered).Leads Machine.always ([], .init 16) c ∧
      c.2.tasks = [] ∧ c.2.places.count ⟨"0", "one", 0, 0, false⟩ = 1 ∧ Acked c "1" := by
  obtain ⟨c, hc, hp⟩ := Machine.exists_leads_of_exec (QueueSystem.machine numbered)
    Machine.always ([], .init 16) redeliveryRun
    (fun c => c.2.tasks.isEmpty && decide (Accepted c ⟨"0", "one", 0, 0, false⟩ ∧
      ¬ Acked c "0" ∧ Acked c "1")) (by decide +kernel)
  simp only [Bool.and_eq_true, List.isEmpty_iff, decide_eq_true_eq] at hp
  obtain ⟨htasks, haccepted, hnot, hacked⟩ := hp
  exact ⟨c, hc, htasks, (accepted_in_one_place hc).1 _ haccepted hnot, hacked⟩

end SyncSystem.Queue
