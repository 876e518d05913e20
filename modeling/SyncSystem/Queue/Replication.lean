/-
SyncSystem.Queue.Replication — what a queue sends to its peers.

Translated from `_replicate_message` and `_send_to_node` in
`src/nodes/queue_node.py`. `enqueue` starts a replication of its message,
a pass of `_message_recovery` one of every message it counts a retry of;
a replication starts a send to each of the first `replication_factor`
peers, and a send connects, or fails, and is over. The tasks run when
they will, between any steps of the queue.

A queue with its tasks is seen as a queue (`queueView`), so what holds of
every run of the queue holds here. How often a message is replicated is
its retry count and one (`Counted`), and no send is lost or made twice
(`sends_perm`); so a send of a message to each of those peers is tried at
least once and at most four times (`replication_bounded`). A send that
fails is logged and not tried again.

The ids of producers are strings, as `enqueue` declares them: any that
cannot be hashed raises there when the message is in its queue and no
replication has been started.
-/
import SyncSystem.Machine.Views
import SyncSystem.Queue.Topics
import SyncSystem.Raft.Node

namespace SyncSystem.Queue

open SyncSystem.Python

/-! ## Replications -/

/-- `_replicate_message(partition, message)`. -/
structure Replication where
  partition : String
  message : Message
  deriving DecidableEq

/-- The dict that is sent. -/
def Replication.data (r : Replication) : Obj :=
  [("type", .str "replicate"), ("partition", .str r.partition),
   ("message", .obj [("msg_id", .str r.message.msgId), ("payload", .str r.message.payload),
     ("timestamp", .float r.message.timestamp)])]

/-- `self.replication_factor`. -/
def replicationFactor : Nat := 3

/-- `_replicate_message`: a send to each of the first peers. -/
def Replication.sends (peers : List String) (r : Replication) : List (String × Replication) :=
  (peers.take replicationFactor).map (fun node => (node, r))

/-- `_message_recovery` counts a retry of the message. -/
def Message.retried (now : Rat) (m : Message) : Bool :=
  decide ((now - m.timestamp > 300 ∧ m.acknowledged = false) ∧ m.retryCount < maxRetry)

theorem Message.recover_retryCount (now : Rat) (m : Message) :
    (m.recover now).retryCount = m.retryCount + if m.retried now = true then 1 else 0 := by
  unfold recover retried
  split
  · next hold =>
    split
    · next hless => simp [hold, hless]
    · next hmany => simp [hmany]
  · next hyoung => simp [hyoung]

/-- The replications that a pass of `_message_recovery` starts. -/
def DistributedQueue.recoveries (q : DistributedQueue) (now : Rat) : List Replication :=
  q.localQueues.entries.flatMap fun e =>
    (e.2.filter (Message.retried now)).map fun m => ⟨e.1, m.recover now⟩

theorem Ledger.accepted_of_not_enqueued {out : List QueueEvent}
    (h : ∀ e ∈ out, ∀ topic msg, e ≠ .enqueued topic msg) (L : Ledger) :
    (out.foldl Ledger.record L).accepted = L.accepted := by
  induction out generalizing L with
  | nil => rfl
  | cons e rest ih =>
    refine (ih (fun e' he' => h e' (List.mem_cons_of_mem e he')) _).trans ?_
    have hne := h e List.mem_cons_self
    cases e with
    | enqueued topic msg => exact absurd rfl (hne topic msg)
    | ackAnswered msgId consumer success => cases success <;> rfl
    | _ => rfl

namespace QueueSystem

/-- The replications that a call with the mutex starts. -/
def startedBy (E : QueueEnv) (s : QueueSystem) (now : Rat) : Op → List Replication
  | .enqueue topic payload _ =>
      match s.queue.enqueue E.hash topic payload (E.uuid s.nextMessage) now with
      | .ok (_, msg, name) => [⟨name, msg⟩]
      | .error _ => []
  | .recovery => s.queue.recoveries now
  | _ => []

/-- The replications that a step starts. -/
def started (E : QueueEnv) (s : QueueSystem) : QueueAction → List Replication
  | .enter k now =>
      match s.polling, s.waiting[k]? with
      | none, some op => s.startedBy E now op
      | _, _ => []
  | _ => []

/-- The messages in the queues and with the waiting tasks. -/
def held (s : QueueSystem) : List Message := s.queue.contents ++ s.tasks.map WaitTask.message

/-! ## What a step starts -/

/-- A step appends a message and replicates it, is a pass of recovery, or
starts nothing and takes in no message. -/
inductive Starts (E : QueueEnv) (s : QueueSystem) :
    QueueSystem → List QueueEvent → List Replication → Prop where
  | enqueued (now : Rat) (ws : List Op) (topic payload name : String) (ms : List Message)
      (msg : Message) :
      msg = ⟨E.uuid s.nextMessage, payload, now, 0, false⟩ →
      s.queue.partitionOf E.hash topic = .ok name → s.queue.localQueues.get? name = some ms →
      Starts E s (s.append ws name ms msg) [.enqueued topic msg] [⟨name, msg⟩]
  | recovered (now : Rat) (ws : List Op) :
      Starts E s { s with waiting := ws, queue := s.queue.recover now } []
        (s.queue.recoveries now)
  | others (s' : QueueSystem) (out : List QueueEvent) :
      (∀ m ∈ s'.held, m ∈ s.held) →
      (∀ L : Ledger, (out.foldl Ledger.record L).accepted = L.accepted) →
      Starts E s s' out []

variable {E : QueueEnv} {s s' : QueueSystem}

theorem mem_held {s : QueueSystem} {m : Message} :
    m ∈ s.held ↔ m ∈ s.queue.contents ∨ ∃ t ∈ s.tasks, t.message = m := by
  simp [held]

/-- A message handed out was in its partition. -/
theorem mem_held_handOut {partition : String} {msg : Message} {rest : List Message}
    (hget : s.queue.localQueues.get? partition = some (msg :: rest)) (ws : List Op) :
    ∀ m ∈ (s.handOut ws partition msg rest).held, m ∈ s.held := by
  have hpop := DistributedQueue.contents_pop hget
  intro m hm
  rw [mem_held] at hm ⊢
  rcases hm with hm | ⟨t, ht, rfl⟩
  · exact Or.inl (hpop.mem_iff.mpr (List.mem_cons_of_mem _ hm))
  · rcases List.mem_append.mp ht with ht | ht
    · exact Or.inr ⟨t, ht, rfl⟩
    · rw [List.mem_singleton.mp ht]
      exact Or.inl (hpop.mem_iff.mpr List.mem_cons_self)

/-- Nothing is started where the queues and the tasks stay. -/
theorem Starts.same (ws : List Op) (p : Option Polling) (pending : Dict String Nat)
    (events : List Nat) {out : List QueueEvent}
    (hout : ∀ e ∈ out, ∀ topic msg, e ≠ .enqueued topic msg) :
    Starts E s
      { s with
        queue := { s.queue with pendingAck := pending }
        setEvents := events
        waiting := ws
        polling := p } out [] :=
  .others _ out (fun _ hm => hm) (Ledger.accepted_of_not_enqueued hout)

theorem starts_deliver {topic consumer partition : String} {w : List Op}
    {r : QueueSystem × List QueueEvent}
    (h : ({ s with waiting := w } : QueueSystem).deliver topic consumer partition = some r) :
    Starts E s r.1 r.2 [] := by
  obtain ⟨msg, rest, hget, rfl⟩ := deliver_eq h
  refine .others _ _ (mem_held_handOut (s := s) hget w) ?_
  exact Ledger.accepted_of_not_enqueued (by simp)

theorem starts_perform (ws : List Op) (now : Rat) (op : Op) :
    Starts E s (perform E { s with waiting := ws } now op).1
      (perform E { s with waiting := ws } now op).2 (s.startedBy E now op) := by
  cases op with
  | enqueue topic payload producer =>
    simp only [perform, startedBy]
    split
    · next heq =>
      rw [heq]
      refine .same _ _ _ _ ?_
      simp
    · next queue msg name heq =>
      rw [heq]
      obtain ⟨hmsg, hname, ms, hget, rfl⟩ := enqueue_eq heq
      exact .enqueued now ws topic payload name ms msg hmsg hname hget
  | dequeue topic consumer timeout =>
    simp only [perform, startedBy]
    split
    · refine .same _ _ _ _ ?_
      simp
    · split
      · split
        · next r hr => exact starts_deliver hr
        · refine .same _ _ _ _ ?_
          simp
      · refine .same _ _ _ _ ?_
        simp
  | acknowledge msgId consumer =>
    simp only [perform, startedBy, DistributedQueue.acknowledge]
    split
    · next queue event heq =>
      split at heq <;> cases heq
      refine .same _ _ _ _ ?_
      simp
    · refine .same _ _ _ _ ?_
      simp
  | recovery => exact .recovered now ws

theorem starts_resume (p : Polling) : Starts E s (s.resume p).1 (s.resume p).2 [] := by
  unfold resume
  split
  · refine .same _ _ _ _ ?_
    simp
  · split
    · next r hr => exact starts_deliver (w := s.waiting) hr
    · split
      · refine .same _ _ _ _ ?_
        simp
      · refine .same _ _ _ _ ?_
        simp

theorem starts_step {a : QueueAction} {out : List QueueEvent}
    (h : s.step E a = some (s', out)) : Starts E s s' out (s.started E a) := by
  cases a with
  | call op =>
    cases h
    refine .same _ _ _ _ ?_
    simp
  | enter k now =>
    simp only [step] at h
    split at h
    · next op hidle hop =>
      have hstarts := starts_perform (E := E) (s := s) (s.waiting.eraseIdx k) now op
      rw [Option.some.inj h] at hstarts
      simpa only [started, hidle, hop] using hstarts
    · cases h
  | wake =>
    obtain ⟨p, hp, heq⟩ := Option.map_eq_some_iff.mp h
    have hstarts := starts_resume (E := E) (s := s) p
    rw [heq] at hstarts
    exact hstarts
  | fire k =>
    simp only [step] at h
    split at h
    · next event partition message hk =>
      cases h
      refine .others _ _ (fun m hm => ?_) (fun _ => rfl)
      rw [held, map_message_fire hk] at hm
      exact hm
    · cases h
  | reinsert k =>
    obtain ⟨t, hk, rfl, rfl⟩ := step_reinsert h
    refine .others _ _ (fun m hm => ?_) (fun _ => rfl)
    rw [mem_held] at hm ⊢
    rcases hm with hm | ⟨t', ht', rfl⟩
    · rcases DistributedQueue.mem_contents_reinsert hm with rfl | hm
      · exact Or.inr ⟨t, List.mem_of_getElem? hk, rfl⟩
      · exact Or.inl hm
    · exact Or.inr ⟨t', List.mem_of_mem_eraseIdx ht', rfl⟩
  | finish k =>
    simp only [step] at h
    split at h
    · split at h
      · cases h
        refine .others _ _ (fun m hm => ?_) (fun _ => rfl)
        rw [mem_held] at hm ⊢
        rcases hm with hm | ⟨t, ht, heq⟩
        · exact Or.inl hm
        · exact Or.inr ⟨t, List.mem_of_mem_eraseIdx ht, heq⟩
      · cases h
    · cases h

end QueueSystem

/-! ## How often a message is replicated -/

/-- The replications of this message among these. -/
def timesReplicated (rs : List Replication) (msgId : String) : Nat :=
  rs.countP (fun r => decide (r.message.msgId = msgId))

@[simp] theorem timesReplicated_append (rs rs' : List Replication) (msgId : String) :
    timesReplicated (rs ++ rs') msgId = timesReplicated rs msgId + timesReplicated rs' msgId :=
  List.countP_append

theorem timesReplicated_eq_zero {rs : List Replication} {msgId : String}
    (h : ∀ r ∈ rs, r.message.msgId ≠ msgId) : timesReplicated rs msgId = 0 := by
  simpa [timesReplicated, List.countP_eq_zero] using h

/-- Where identities are different, only the item itself counts. -/
theorem countP_of_nodup {α β : Type} [DecidableEq β] {key : α → β} {p : α → Bool} {xs : List α}
    (h : (xs.map key).Nodup) {x : α} (hx : x ∈ xs) :
    (xs.filter p).countP (fun y => decide (key y = key x)) = if p x = true then 1 else 0 := by
  induction xs with
  | nil => cases hx
  | cons y ys ih =>
    obtain ⟨hnot, hrest⟩ := List.nodup_cons.mp h
    rcases List.mem_cons.mp hx with rfl | hx
    · have hothers : (ys.filter p).countP (fun y => decide (key y = key x)) = 0 := by
        rw [List.countP_eq_zero]
        intro y hy heq
        have hmem := List.mem_map_of_mem (f := key) (List.mem_filter.mp hy).1
        rw [of_decide_eq_true heq] at hmem
        exact hnot hmem
      by_cases hp : p x = true <;> simp [hp, hothers]
    · have hne : key y ≠ key x := fun heq => hnot (heq ▸ List.mem_map_of_mem hx)
      by_cases hp : p y = true <;> simp [hp, hne, ih hrest hx]

/-- A pass of recovery replicates the messages it counts a retry of. -/
theorem timesReplicated_recoveries (q : DistributedQueue) (now : Rat) (msgId : String) :
    timesReplicated (q.recoveries now) msgId =
      (q.contents.filter (Message.retried now)).countP (fun m => decide (m.msgId = msgId)) := by
  rw [DistributedQueue.recoveries, DistributedQueue.contents, Dict.values]
  induction q.localQueues.entries with
  | nil => rfl
  | cons e rest ih =>
    simp only [List.flatMap_cons, timesReplicated_append, ih, List.map_cons, List.flatten_cons,
      List.filter_append, List.countP_append]
    congr 1
    simp only [timesReplicated, List.countP_map]
    congr 1
    funext m
    simp

theorem mem_recoveries {q : DistributedQueue} {now : Rat} {r : Replication}
    (h : r ∈ q.recoveries now) : ∃ ms, q.localQueues.get? r.partition = some ms ∧
      ∃ m ∈ ms, r.message = m.recover now := by
  obtain ⟨e, he, hr⟩ := List.mem_flatMap.mp h
  obtain ⟨m, hm, rfl⟩ := List.mem_map.mp hr
  exact ⟨e.2, Dict.get?_of_mem he, m, (List.mem_filter.mp hm).1, rfl⟩

/-- A message has been replicated once, and once for each of its retries;
and what has been replicated was accepted for a topic of its partition. -/
structure Counted (E : QueueEnv) (n : Nat) (s : QueueSystem) (L : Ledger)
    (rs : List Replication) : Prop where
  held : ∀ m ∈ s.held, timesReplicated rs m.msgId = 1 + m.retryCount ∧ m.retryCount ≤ maxRetry
  accepted : ∀ m ∈ L.messages,
    1 ≤ timesReplicated rs m.msgId ∧ timesReplicated rs m.msgId ≤ 1 + maxRetry
  known : ∀ r ∈ rs, ∃ t, r.partition = partitionName (E.hash t % n) ∧
    (t, r.message.asEnqueued) ∈ L.accepted

namespace Counted

variable {E : QueueEnv} {n : Nat} {s s' : QueueSystem} {L : Ledger} {rs : List Replication}

theorem name_of_partitionOf {q : DistributedQueue} {t name : String} (hn : q.partitions = n)
    (h : q.partitionOf E.hash t = .ok name) : name = partitionName (E.hash t % n) := by
  unfold DistributedQueue.partitionOf at h
  split at h
  · cases h
  · cases h
    rw [hn]

/-- A message that is held was accepted. -/
theorem accepted_of_held (hcons : Conserved E s L) {m : Message} (hm : m ∈ s.held) :
    m.asEnqueued ∈ L.messages :=
  hcons.custody.known _ (List.mem_map_of_mem hm)

theorem init (n : Nat) : Counted E n (.init n) .empty [] where
  held := by
    intro m hm
    rw [QueueSystem.mem_held] at hm
    rcases hm with hm | ⟨t, ht, _⟩
    · have hempty : (QueueSystem.init n).queue.contents = [] := DistributedQueue.contents_start n
      rw [hempty] at hm
      cases hm
    · cases ht
  accepted := by simp [Ledger.empty, Ledger.messages]
  known := by simp

theorem enqueued (h : Counted E n s L rs) (hcons : Conserved E s L) (hplaced : Placed E n s L)
    {now : Rat} {ws : List Op} {topic payload name : String} {ms : List Message} {msg : Message}
    (hmsg : msg = ⟨E.uuid s.nextMessage, payload, now, 0, false⟩)
    (hname : s.queue.partitionOf E.hash topic = .ok name)
    (hget : s.queue.localQueues.get? name = some ms) :
    Counted E n (s.append ws name ms msg) (L.record (.enqueued topic msg))
      (rs ++ [⟨name, msg⟩]) := by
  have hfresh := hcons.books.fresh (show msg.msgId = E.uuid s.nextMessage by rw [hmsg])
  -- nobody has replicated it before
  have hnone : timesReplicated rs msg.msgId = 0 := by
    refine timesReplicated_eq_zero ?_
    intro r hr
    obtain ⟨t, _, hmem⟩ := h.known r hr
    exact hfresh r.message.asEnqueued (List.mem_map_of_mem hmem)
  have hother : ∀ m ∈ L.messages,
      timesReplicated (rs ++ [⟨name, msg⟩]) m.msgId = timesReplicated rs m.msgId := by
    intro m hm
    have hne := hfresh m hm
    simp [timesReplicated, Ne.symm hne]
  have hself : timesReplicated (rs ++ [⟨name, msg⟩]) msg.msgId = 1 := by
    rw [timesReplicated_append, hnone]
    simp [timesReplicated]
  refine ⟨?_, ?_, ?_⟩
  · intro m hm
    have hcontents := DistributedQueue.contents_append hget msg
    rw [QueueSystem.mem_held] at hm
    have hcases : m = msg ∨ m ∈ s.held := by
      rcases hm with hm | ht
      · rcases List.mem_cons.mp (hcontents.mem_iff.mp hm) with rfl | hm
        · exact Or.inl rfl
        · exact Or.inr (QueueSystem.mem_held.mpr (Or.inl hm))
      · exact Or.inr (QueueSystem.mem_held.mpr (Or.inr ht))
    rcases hcases with rfl | hm
    · rw [hself, hmsg]
      exact ⟨rfl, Nat.zero_le _⟩
    · have hsame := hother _ (accepted_of_held hcons hm)
      rw [Message.asEnqueued_msgId] at hsame
      rw [hsame]
      exact h.held m hm
  · intro m hm
    rcases List.mem_cons.mp hm with rfl | hm
    · rw [hself]
      exact ⟨Nat.le_refl 1, Nat.le_add_right 1 maxRetry⟩
    · rw [hother m hm]
      exact h.accepted m hm
  · intro r hr
    rcases List.mem_append.mp hr with hr | hr
    · obtain ⟨t, hpart, hmem⟩ := h.known r hr
      exact ⟨t, hpart, List.mem_cons_of_mem _ hmem⟩
    · obtain rfl := List.mem_singleton.mp hr
      refine ⟨topic, name_of_partitionOf hplaced.partitions hname, ?_⟩
      have hsame : msg.asEnqueued = msg := by rw [hmsg]; rfl
      rw [hsame]
      exact List.mem_cons_self

theorem recovered (h : Counted E n s L rs) (hcons : Conserved E s L) (hplaced : Placed E n s L)
    (now : Rat) (ws : List Op) :
    Counted E n { s with waiting := ws, queue := s.queue.recover now } L
      (rs ++ s.queue.recoveries now) := by
  have hnodup := (List.nodup_append.mp hcons.ids_nodup).1
  have hqueued : ∀ m ∈ s.queue.contents,
      timesReplicated (s.queue.recoveries now) m.msgId =
        if m.retried now = true then 1 else 0 := by
    intro m hm
    rw [timesReplicated_recoveries]
    exact countP_of_nodup hnodup hm
  have hnone : ∀ msgId, (∀ m ∈ s.queue.contents, m.msgId ≠ msgId) →
      timesReplicated (s.queue.recoveries now) msgId = 0 := by
    intro msgId hnot
    rw [timesReplicated_recoveries, List.countP_eq_zero]
    intro m hm
    simpa using hnot m (List.mem_filter.mp hm).1
  refine ⟨?_, ?_, ?_⟩
  · intro m hm
    rw [QueueSystem.mem_held] at hm
    rcases hm with hm | ⟨t, ht, rfl⟩
    · rw [DistributedQueue.contents_recover] at hm
      obtain ⟨x, hx, rfl⟩ := List.mem_map.mp hm
      obtain ⟨htimes, hless⟩ := h.held x (QueueSystem.mem_held.mpr (Or.inl hx))
      rw [timesReplicated_append, Message.recover_msgId, hqueued x hx, htimes,
        Message.recover_retryCount]
      refine ⟨by omega, ?_⟩
      by_cases hretried : x.retried now = true
      · have hsmall := (of_decide_eq_true hretried).2
        rw [if_pos hretried]
        omega
      · rw [if_neg hretried]
        exact hless
    · have hnot : ∀ m ∈ s.queue.contents, m.msgId ≠ t.message.msgId := by
        intro m hm heq
        exact hcons.not_queued ht (heq ▸ List.mem_map_of_mem hm)
      rw [timesReplicated_append, hnone _ hnot]
      exact h.held _ (QueueSystem.mem_held.mpr (Or.inr ⟨t, ht, rfl⟩))
  · intro m hm
    obtain ⟨hone, hmany⟩ := h.accepted m hm
    rw [timesReplicated_append]
    by_cases hin : ∃ x ∈ s.queue.contents, x.msgId = m.msgId
    · obtain ⟨x, hx, heq⟩ := hin
      have htimes := (h.held x (QueueSystem.mem_held.mpr (Or.inl hx))).1
      rw [← heq, hqueued x hx]
      rw [heq] at htimes
      split
      · next hretried =>
        have hsmall := (of_decide_eq_true hretried).2
        rw [heq]
        omega
      · rw [heq]
        omega
    · have hzero := hnone m.msgId (fun x hx heq => hin ⟨x, hx, heq⟩)
      omega
  · intro r hr
    rcases List.mem_append.mp hr with hr | hr
    · exact h.known r hr
    · obtain ⟨ms, hget, m, hm, heq⟩ := mem_recoveries hr
      obtain ⟨t, ht, hmem⟩ := hplaced.queued _ _ hget m hm
      refine ⟨t, name_of_partitionOf hplaced.partitions ht, ?_⟩
      rw [heq, Message.asEnqueued_recover]
      exact hmem

theorem step (h : Counted E n s L rs) (hcons : Conserved E s L) (hplaced : Placed E n s L)
    {out : List QueueEvent} {started : List Replication}
    (hs : QueueSystem.Starts E s s' out started) :
    Counted E n s' (out.foldl Ledger.record L) (rs ++ started) := by
  cases hs with
  | enqueued now ws topic payload name ms msg hmsg hname hget =>
    exact h.enqueued hcons hplaced hmsg hname hget
  | recovered now ws => exact h.recovered hcons hplaced now ws
  | others s' out hheld haccepted =>
    rw [List.append_nil]
    refine ⟨fun m hm => h.held m (hheld m hm), ?_, ?_⟩
    · rw [Ledger.messages, haccepted]
      exact h.accepted
    · rw [haccepted]
      exact h.known

end Counted

/-- The replications that a run has started. -/
def replicated (E : QueueEnv) (c : QueueRun) : List Replication :=
  c.1.flatMap (fun e => e.before.started E e.action)

theorem replicated_push (E : QueueEnv) (c : QueueRun) (a : QueueAction) (s' : QueueSystem)
    (out : List QueueEvent) :
    replicated E (c.push a s' out) = replicated E c ++ c.2.started E a := by
  simp [replicated]

theorem counted_of_leads {E : QueueEnv} {n : Nat} {c : QueueRun}
    (h : (QueueSystem.machine E).Leads Machine.always ([], .init n) c) :
    Counted E n c.2 (ledger c) (replicated E c) := by
  refine h.invariant (I := fun c => Counted E n c.2 (ledger c) (replicated E c)) (Counted.init n) ?_
  intro d a s' out hreach ih _ hs
  have hnext := ih.step (conserved_of_leads hreach) (placed_of_leads hreach)
    (QueueSystem.starts_step hs)
  rw [ledger, Config.track_push, replicated_push]
  exact hnext

/-! ## The sends -/

/-- A queue with its replications that have not run and the sends that
have not connected. -/
structure ReplicatedQueue where
  system : QueueSystem
  replications : List Replication
  sends : List (String × Replication)

inductive ReplicationAction where
  | queue (a : QueueAction)
  /-- The `k`-th replication runs. -/
  | replicate (k : Nat)
  /-- The `k`-th send is over; `connected` if its connection opened. -/
  | send (k : Nat) (connected : Bool)

inductive ReplicationEvent where
  | queue (e : QueueEvent)
  /-- A send to the node has written its dict. -/
  | sent (node : String) (r : Replication)
  /-- A send to the node has failed, and has written nothing. -/
  | failed (node : String) (r : Replication)

def ReplicationEvent.queueEvent? : ReplicationEvent → Option QueueEvent
  | .queue e => some e
  | _ => none

/-- What has been sent. -/
def ReplicationEvent.sent? : ReplicationEvent → Option (String × Replication)
  | .sent node r => some (node, r)
  | _ => none

def ReplicationEvent.failed? : ReplicationEvent → Option (String × Replication)
  | .failed node r => some (node, r)
  | _ => none

/-- What has been tried. -/
def ReplicationEvent.tried? (e : ReplicationEvent) : Option (String × Replication) :=
  e.sent?.or e.failed?

namespace ReplicatedQueue

def init (partitions : Nat) : ReplicatedQueue := ⟨.init partitions, [], []⟩

/-- A send needs the port of the node and its connection. -/
def step (E : QueueEnv) (peers : List String) (s : ReplicatedQueue) :
    ReplicationAction → Option (ReplicatedQueue × List ReplicationEvent)
  | .queue a =>
      match s.system.step E a with
      | none => none
      | some (s', out) =>
          some ({ s with
            system := s'
            replications := s.replications ++ s.system.started E a }, out.map .queue)
  | .replicate k =>
      match s.replications[k]? with
      | none => none
      | some r =>
          some ({ s with
            replications := s.replications.eraseIdx k
            sends := s.sends ++ r.sends peers }, [])
  | .send k connected =>
      match s.sends[k]? with
      | none => none
      | some (node, r) =>
          some ({ s with sends := s.sends.eraseIdx k },
            [if connected && (Raft.peerPort node).isSome then .sent node r else .failed node r])

def machine (E : QueueEnv) (peers : List String) :
    Machine ReplicatedQueue ReplicationAction (List ReplicationEvent) := ⟨step E peers⟩

/-- What a step does. -/
inductive Effect (E : QueueEnv) (peers : List String) (s : ReplicatedQueue) :
    ReplicationAction → ReplicatedQueue → List ReplicationEvent → Prop where
  | queued (a : QueueAction) (system : QueueSystem) (out : List QueueEvent) :
      s.system.step E a = some (system, out) →
      Effect E peers s (.queue a)
        { s with system := system, replications := s.replications ++ s.system.started E a }
        (out.map .queue)
  | replicated (k : Nat) (r : Replication) : s.replications[k]? = some r →
      Effect E peers s (.replicate k)
        { s with
          replications := s.replications.eraseIdx k
          sends := s.sends ++ r.sends peers } []
  /-- A send has written or failed. -/
  | tried (k : Nat) (connected : Bool) (p : String × Replication) (e : ReplicationEvent) :
      s.sends[k]? = some p → e.tried? = some p →
      Effect E peers s (.send k connected) { s with sends := s.sends.eraseIdx k } [e]

theorem step_effect {E : QueueEnv} {peers : List String} {s s' : ReplicatedQueue}
    {a : ReplicationAction} {out : List ReplicationEvent} (h : s.step E peers a = some (s', out)) :
    Effect E peers s a s' out := by
  cases a with
  | queue a =>
    simp only [step] at h
    split at h
    · cases h
    · next system out hq =>
      cases h
      exact .queued a system out hq
  | replicate k =>
    simp only [step] at h
    split at h
    · cases h
    · next r hk =>
      cases h
      exact .replicated k r hk
  | send k connected =>
    simp only [step] at h
    split at h
    · cases h
    · next node r hk =>
      cases h
      refine .tried k connected (node, r) _ hk ?_
      split <;> rfl

end ReplicatedQueue

abbrev ReplicatedRun := Config ReplicatedQueue ReplicationAction (List ReplicationEvent)

/-- The queue without its sends. -/
def queueView : View ReplicatedQueue ReplicationAction (List ReplicationEvent)
    QueueSystem QueueAction (List QueueEvent) where
  state s := s.system
  event _ a out :=
    match a with
    | .queue a => some (a, out.filterMap ReplicationEvent.queueEvent?)
    | _ => none

/-- The events of a run. -/
def replicationEvents (c : ReplicatedRun) : List ReplicationEvent := c.1.flatMap Event.output

/-- The sends that are over, and those of them that have written or not. -/
def tried (c : ReplicatedRun) : List (String × Replication) :=
  (replicationEvents c).filterMap ReplicationEvent.tried?

def sent (c : ReplicatedRun) : List (String × Replication) :=
  (replicationEvents c).filterMap ReplicationEvent.sent?

def failed (c : ReplicatedRun) : List (String × Replication) :=
  (replicationEvents c).filterMap ReplicationEvent.failed?

/-- The sends that are still to come: of replications that have not run,
and those that have not connected. -/
def ReplicatedQueue.owed (peers : List String) (s : ReplicatedQueue) :
    List (String × Replication) :=
  s.replications.flatMap (Replication.sends peers) ++ s.sends

theorem tried_push (c : ReplicatedRun) (a : ReplicationAction) (s' : ReplicatedQueue)
    (out : List ReplicationEvent) :
    tried (c.push a s' out) = tried c ++ out.filterMap ReplicationEvent.tried? := by
  simp [tried, replicationEvents]

section

variable {E : QueueEnv} {peers : List String} {n : Nat} {c : ReplicatedRun}

theorem filterMap_queueEvent (out : List QueueEvent) :
    (out.map ReplicationEvent.queue).filterMap ReplicationEvent.queueEvent? = out := by
  rw [List.filterMap_map]
  exact List.filterMap_some

theorem filterMap_tried_queue (out : List QueueEvent) :
    (out.map ReplicationEvent.queue).filterMap ReplicationEvent.tried? = [] := by
  rw [List.filterMap_map]
  exact List.filterMap_eq_nil_iff.mpr (fun _ _ => rfl)

/-- The queue of a run runs as a queue by itself. -/
theorem queue_leads (h : (ReplicatedQueue.machine E peers).Leads Machine.always ([], .init n) c) :
    (QueueSystem.machine E).Leads Machine.always ([], .init n) (queueView.run c) := by
  refine queueView.leads_of_follows h ?_
  intro d a s' b _ _ _ hs
  cases ReplicatedQueue.step_effect hs with
  | queued a system out hq =>
    simp only [View.Follows, queueView, filterMap_queueEvent]
    exact ⟨trivial, hq⟩
  | replicated | tried => rfl

/-- **No send is lost and none is made twice.** The sends that are over
and those to come are those of the replications started. -/
theorem sends_perm (h : (ReplicatedQueue.machine E peers).Leads Machine.always ([], .init n) c) :
    ((replicated E (queueView.run c)).flatMap (Replication.sends peers)).Perm
      (c.2.owed peers ++ tried c) := by
  refine h.invariant (I := fun c =>
    ((replicated E (queueView.run c)).flatMap (Replication.sends peers)).Perm
      (c.2.owed peers ++ tried c)) (List.Perm.refl _) ?_
  intro d a s' b _ ih _ hs
  simp only [ReplicatedQueue.owed, List.perm_iff_count, List.count_append] at ih ⊢
  intro x
  have hx := ih x
  have hsilent : ∀ {a : ReplicationAction}, (∀ out, queueView.event d.2 a out = none) →
      s'.system = d.2.system → queueView.run (d.push a s' b) = queueView.run d :=
    fun hnone hsame => View.run_push_none (hnone _) hsame
  cases ReplicatedQueue.step_effect hs with
  | queued a system out hq =>
    have hevent : queueView.event d.2 (.queue a) (out.map .queue) = some (a, out) := by
      simp only [queueView, filterMap_queueEvent]
    rw [View.run_push_some hevent, replicated_push, tried_push, filterMap_tried_queue]
    have hstate : (queueView.run d).2 = d.2.system := rfl
    simp only [hstate, Config.push_state, List.flatMap_append, List.count_append, List.append_nil]
    omega
  | replicated k r hk =>
    obtain ⟨hlt, rfl⟩ := List.getElem?_eq_some_iff.mp hk
    rw [hsilent (fun _ => rfl) rfl, tried_push]
    have hran := ((List.getElem_cons_eraseIdx_perm hlt).flatMap_right
      (Replication.sends peers)).count_eq x
    simp only [List.flatMap_cons, List.count_append, Config.push_state, List.filterMap_nil,
      List.append_nil] at hran ⊢
    omega
  | tried k connected p e hk he =>
    obtain ⟨hlt, rfl⟩ := List.getElem?_eq_some_iff.mp hk
    rw [hsilent (fun _ => rfl) rfl, tried_push]
    have hdone := (List.getElem_cons_eraseIdx_perm hlt).count_eq x
    simp only [Config.push_state, List.filterMap_cons, he, List.filterMap_nil, List.count_append,
      List.count_cons, List.count_nil] at hdone ⊢
    omega

/-- The sends of this message to this node among these. -/
def sendsTo (node msgId : String) (sends : List (String × Replication)) : Nat :=
  sends.countP (fun p => decide (p.1 = node ∧ p.2.message.msgId = msgId))

/-- Every replication is a send to each of the first peers. -/
theorem sendsTo_flatMap (peers : List String) (node msgId : String) (rs : List Replication) :
    sendsTo node msgId (rs.flatMap (Replication.sends peers)) =
      (peers.take replicationFactor).count node * timesReplicated rs msgId := by
  induction rs with
  | nil => simp [sendsTo, timesReplicated]
  | cons r rest ih =>
    have hone : sendsTo node msgId (r.sends peers) = (peers.take replicationFactor).count node *
        if r.message.msgId = msgId then 1 else 0 := by
      simp only [sendsTo, Replication.sends, List.countP_map, List.count_eq_countP]
      split
      · next heq =>
        rw [Nat.mul_one]
        congr 1
        funext p
        simp only [Function.comp_apply, heq, and_true]
        rfl
      · next hne => simp [hne]
    have happ : ∀ xs ys, sendsTo node msgId (xs ++ ys) =
        sendsTo node msgId xs + sendsTo node msgId ys := fun _ _ => List.countP_append
    rw [List.flatMap_cons, happ, hone, ih, ← Nat.mul_add]
    congr 1
    simp only [timesReplicated, List.countP_cons, decide_eq_true_eq]
    omega

/-- What has been tried has been sent or has failed. -/
theorem sendsTo_tried (node msgId : String) (c : ReplicatedRun) :
    sendsTo node msgId (tried c) = sendsTo node msgId (sent c) + sendsTo node msgId (failed c) := by
  simp only [tried, sent, failed]
  induction replicationEvents c with
  | nil => rfl
  | cons e rest ih =>
    cases e with
    | queue e => exact ih
    | sent node' r =>
      simp only [sendsTo, List.filterMap_cons, ReplicationEvent.tried?, ReplicationEvent.sent?,
        ReplicationEvent.failed?, Option.some_or, List.countP_cons] at ih ⊢
      omega
    | failed node' r =>
      simp only [sendsTo, List.filterMap_cons, ReplicationEvent.tried?, ReplicationEvent.sent?,
        ReplicationEvent.failed?, Option.none_or, List.countP_cons] at ih ⊢
      omega

/-- What has been sent has been tried. -/
theorem mem_tried_of_sent {c : ReplicatedRun} {p : String × Replication} (h : p ∈ sent c) :
    p ∈ tried c := by
  obtain ⟨e, he, hsent⟩ := List.mem_filterMap.mp h
  exact List.mem_filterMap.mpr ⟨e, he, by rw [ReplicationEvent.tried?, hsent]; rfl⟩

/-- **Replication is bounded and complete.** A send of a message to a peer
is tried at most four times for each place the peer has among the first
three, and at least once when nothing is left to try; then it has been
tried, for a message that is not acknowledged, once for the `enqueue` and
once for each counted retry. As many have been sent, unless one to this
peer has failed, and never more. What is sent is always the dict of an
accepted message with the partition of its topic. -/
theorem replication_bounded
    (h : (ReplicatedQueue.machine E peers).Leads Machine.always ([], .init n) c) :
    (∀ node m, Accepted (queueView.run c) m →
      sendsTo node m.msgId (tried c) ≤
        (peers.take replicationFactor).count node * (1 + maxRetry)) ∧
    (c.2.owed peers = [] → ∀ node ∈ peers.take replicationFactor, ∀ m,
      Accepted (queueView.run c) m → 1 ≤ sendsTo node m.msgId (tried c)) ∧
    (c.2.owed peers = [] → ∀ node, ∀ m ∈ c.2.system.held,
      sendsTo node m.msgId (tried c) =
        (peers.take replicationFactor).count node * (1 + m.retryCount)) ∧
    (∀ node msgId, sendsTo node msgId (sent c) ≤ sendsTo node msgId (tried c) ∧
      ((∀ r, (node, r) ∉ failed c) →
        sendsTo node msgId (sent c) = sendsTo node msgId (tried c))) ∧
    ∀ node r, (node, r) ∈ sent c → node ∈ peers.take replicationFactor ∧
      ∃ t m, (t, m) ∈ (ledger (queueView.run c)).accepted ∧
        r.data = (Replication.mk (partitionName (E.hash t % n)) m).data := by
  have hcounted := counted_of_leads (queue_leads h)
  have hperm := sends_perm h
  have htotal : ∀ node msgId, (peers.take replicationFactor).count node *
      timesReplicated (replicated E (queueView.run c)) msgId =
        sendsTo node msgId (c.2.owed peers) + sendsTo node msgId (tried c) := by
    intro node msgId
    rw [← sendsTo_flatMap, sendsTo, hperm.countP_eq, List.countP_append]
    rfl
  have hrest : c.2.owed peers = [] → ∀ node msgId, sendsTo node msgId (tried c) =
      (peers.take replicationFactor).count node *
        timesReplicated (replicated E (queueView.run c)) msgId := by
    intro hnil node msgId
    rw [htotal, hnil]
    simp [sendsTo]
  refine ⟨?_, ?_, ?_, ?_, ?_⟩
  · intro node m hm
    have hle := Nat.mul_le_mul_left ((peers.take replicationFactor).count node)
      (hcounted.accepted m hm).2
    have hsum := htotal node m.msgId
    omega
  · intro hnil node hnode m hm
    rw [hrest hnil]
    exact Nat.mul_pos (List.count_pos_iff.mpr hnode) (hcounted.accepted m hm).1
  · intro hnil node m hm
    rw [hrest hnil, (hcounted.held m hm).1]
  · intro node msgId
    have hsum := sendsTo_tried node msgId c
    refine ⟨by omega, fun hnone => ?_⟩
    have hzero : sendsTo node msgId (failed c) = 0 := by
      rw [sendsTo, List.countP_eq_zero]
      rintro ⟨node', r⟩ hmem heq
      exact hnone r ((of_decide_eq_true heq).1 ▸ hmem)
    omega
  · intro node r hmem
    have hin := hperm.mem_iff.mpr (List.mem_append_right (c.2.owed peers) (mem_tried_of_sent hmem))
    obtain ⟨r', hr', hsend⟩ := List.mem_flatMap.mp hin
    obtain ⟨node', hnode, heq⟩ := List.mem_map.mp hsend
    cases heq
    obtain ⟨t, hpart, hacc⟩ := hcounted.known r hr'
    exact ⟨hnode, t, r.message.asEnqueued, hacc, by rw [← hpart]; rfl⟩

end

/-- A message is enqueued, and a retry of it counted five minutes later;
both replications have run and connected, one to a second peer has not. -/
def resentRun : List ReplicationAction :=
  [.queue (.call (.enqueue "t" "one" "p")), .queue (.enter 0 0), .replicate 0, .send 1 false,
   .queue (.call .recovery), .queue (.enter 0 301), .send 0 true, .replicate 0, .send 0 true,
   .send 0 true]

theorem replication_bounded_resentRun :
    ∃ c, (ReplicatedQueue.machine numbered ["localhost:8002", "localhost:8003"]).Leads
        Machine.always ([], .init 16) c ∧
      Accepted (queueView.run c) ⟨"0", "one", 0, 0, false⟩ ∧
      (∀ m ∈ c.2.system.held,
        sendsTo "localhost:8002" m.msgId (sent c) = 1 * (1 + m.retryCount)) ∧
      sendsTo "localhost:8002" "0" (sent c) = 2 ∧ sendsTo "localhost:8003" "0" (sent c) = 1 := by
  obtain ⟨c, hc, hp⟩ := Machine.exists_leads_of_exec
    (ReplicatedQueue.machine numbered ["localhost:8002", "localhost:8003"]) Machine.always
    ([], .init 16) resentRun
    (fun c => decide (Accepted (queueView.run c) ⟨"0", "one", 0, 0, false⟩ ∧
      c.2.owed ["localhost:8002", "localhost:8003"] = [] ∧
      (failed c).all (fun p => p.1 ≠ "localhost:8002") = true ∧
      sendsTo "localhost:8002" "0" (sent c) = 2 ∧ sendsTo "localhost:8003" "0" (sent c) = 1))
    (by decide +kernel)
  obtain ⟨haccepted, howed, hfailed, htwo, hone⟩ := of_decide_eq_true hp
  obtain ⟨_, _, hheld, hsent, _⟩ := replication_bounded hc
  refine ⟨c, hc, haccepted, ?_, htwo, hone⟩
  intro m hm
  rw [(hsent _ m.msgId).2 ?_]
  · exact hheld howed "localhost:8002" m hm
  · intro r hmem
    exact absurd rfl (of_decide_eq_true (List.all_eq_true.mp hfailed _ hmem))

end SyncSystem.Queue
