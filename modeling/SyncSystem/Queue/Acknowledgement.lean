/-
SyncSystem.Queue.Acknowledgement — whether an acknowledgement is final
and truthful.

`acknowledge` succeeds when it finds a pending event. The timeout path of
`_wait_for_ack` puts the message back in its queue without removing that
event and without looking whether it has been set, so a late
acknowledgement succeeds for a message that will be delivered again
(`late_acknowledgement`). `AckedInTime` is that an acknowledgement and
the timer of one delivery never both happen; under it
`acknowledgements_hold`.
-/
import SyncSystem.Queue.Conservation

namespace SyncSystem.Queue

open SyncSystem.Python
open SyncSystem.Delivery

/-- An acknowledged message has been delivered and is not in a queue; a
delivered message has not been acknowledged. -/
abbrev Honest (before : QueueRun) : QueueEvent → Prop
  | .ackAnswered msgId _ true =>
      msgId ∈ (ledger before).delivered ∧ msgId ∉ before.2.queue.contents.map Message.msgId
  | .delivered _ _ msg => ¬ Acked before msg.msgId
  | _ => True

instance (before : QueueRun) (e : QueueEvent) : Decidable (Honest before e) :=
  match e with
  | .ackAnswered _ _ true => inferInstance
  | .ackAnswered _ _ false => inferInstance
  | .delivered .. => inferInstance
  | .enqueued .. => inferInstance
  | .nothing .. => inferInstance
  | .raised .. => inferInstance

/-- Every acknowledgement of the run is truthful when it is given, and
final from then on. -/
def AcknowledgementsHold (c : QueueRun) : Prop :=
  EveryStep (fun before _ out => ∀ e ∈ out, Honest before e) c.1

instance (c : QueueRun) : Decidable (AcknowledgementsHold c) :=
  inferInstanceAs (Decidable (EveryStep (fun before _ out => ∀ e ∈ out, Honest before e) c.1))

/-- The acknowledgement that `op` makes, if it finds a pending event,
comes before the timer of that delivery. -/
abbrev BeforeTimer (s : QueueSystem) : Op → Prop
  | .acknowledge msgId _ => ∀ event ∈ s.queue.pendingAck.get? msgId,
      ∃ t ∈ s.tasks, t.event = event ∧ t.fired = false
  | _ => True

instance (s : QueueSystem) (op : Op) : Decidable (BeforeTimer s op) :=
  match op with
  | .acknowledge .. => inferInstance
  | .enqueue .. => inferInstance
  | .dequeue .. => inferInstance
  | .recovery => inferInstance

/-- No delivery is both acknowledged and timed out: an acknowledgement
that finds a pending event comes before the timer of that delivery, and
no timer fires when its event is set. -/
abbrev AckedInTime (c : QueueRun) : QueueAction → Prop
  | .enter k _ => ∀ op ∈ c.2.waiting[k]?, BeforeTimer c.2 op
  | .fire k => ∀ t ∈ c.2.tasks[k]?, t.event ∉ c.2.setEvents
  | _ => True

instance (c : QueueRun) (a : QueueAction) : Decidable (AckedInTime c a) :=
  QueueAction.decidable a

/-! ## Where acknowledged messages are -/

structure Settled (s : QueueSystem) (L : Ledger) : Prop where
  queued : ∀ m ∈ s.queue.contents, m.msgId ∉ L.acked
  live : ∀ t ∈ s.tasks, t.message.msgId ∈ L.acked → t.fired = false ∧ t.event ∈ s.setEvents
  delivered : ∀ t ∈ s.tasks, t.message.msgId ∈ L.delivered
  known : ∀ msgId ∈ L.acked, ∃ m ∈ L.messages, m.msgId = msgId

variable {E : QueueEnv} {s s' : QueueSystem} {L : Ledger}

namespace Settled

theorem init (n : Nat) : Settled (.init n) .empty where
  queued := by simp [Ledger.empty]
  live := by simp [QueueSystem.init]
  delivered := by simp [QueueSystem.init]
  known := by simp [Ledger.empty]

theorem enqueued (h : Settled s L) (hc : Conserved E s L) (topic : String) {name payload : String}
    {now : Rat} {ms : List Message} {msg : Message}
    (hmsg : msg = ⟨E.uuid s.nextMessage, payload, now, 0, false⟩)
    (hget : s.queue.localQueues.get? name = some ms) (ws : List Op) :
    Settled (s.append ws name ms msg) (L.record (.enqueued topic msg)) := by
  refine ⟨?_, h.live, h.delivered, ?_⟩
  · intro m hm
    rcases List.mem_cons.mp ((DistributedQueue.contents_append hget msg).mem_iff.mp hm) with rfl | hm
    · intro hack
      obtain ⟨x, hx, heq⟩ := h.known _ hack
      exact hc.books.fresh (by rw [hmsg]) x hx heq
    · exact h.queued m hm
  · intro msgId hack
    obtain ⟨m, hm, heq⟩ := h.known msgId hack
    exact ⟨m, List.mem_cons_of_mem _ hm, heq⟩

theorem delivered_step (h : Settled s L) (topic consumer : String) {partition : String}
    {msg : Message} {rest : List Message}
    (hget : s.queue.localQueues.get? partition = some (msg :: rest)) (ws : List Op) :
    Settled (s.handOut ws partition msg rest) (L.record (.delivered topic consumer msg)) := by
  have hpop := DistributedQueue.contents_pop hget
  have hnot : msg.msgId ∉ L.acked := h.queued msg (hpop.mem_iff.mpr List.mem_cons_self)
  refine ⟨?_, ?_, ?_, h.known⟩
  · exact fun m hm => h.queued m (hpop.mem_iff.mpr (List.mem_cons_of_mem _ hm))
  · intro t ht hack
    rcases List.mem_append.mp ht with ht | ht
    · exact h.live t ht hack
    · rw [List.mem_singleton.mp ht] at hack
      exact absurd hack hnot
  · intro t ht
    rcases List.mem_append.mp ht with ht | ht
    · exact List.mem_cons_of_mem _ (h.delivered t ht)
    · rw [List.mem_singleton.mp ht]
      exact List.mem_cons_self

theorem acknowledged (h : Settled s L) (hc : Conserved E s L) (consumer : String)
    {msgId : String} {t : WaitTask} (ht : t ∈ s.tasks) (hid : t.message.msgId = msgId)
    (hfired : t.fired = false) (ws : List Op) :
    Settled (s.settle ws msgId t.event) (L.record (.ackAnswered msgId consumer true)) := by
  refine ⟨?_, ?_, h.delivered, ?_⟩
  · intro m hm hack
    rcases List.mem_cons.mp hack with heq | hack
    · refine hc.not_queued ht ?_
      rw [hid, ← heq]
      exact List.mem_map_of_mem hm
    · exact h.queued m hm hack
  · intro t' ht' hack
    rcases List.mem_cons.mp hack with heq | hack
    · rw [hc.task_unique ht' ht (heq.trans hid.symm)]
      exact ⟨hfired, List.mem_cons_self⟩
    · obtain ⟨hf, he⟩ := h.live t' ht' hack
      exact ⟨hf, List.mem_cons_of_mem _ he⟩
  · intro id hack
    rcases List.mem_cons.mp hack with rfl | hack
    · have hplace : t.message.asEnqueued ∈ s.places :=
        List.mem_map_of_mem (List.mem_append_right _ (List.mem_map_of_mem ht))
      exact ⟨t.message.asEnqueued, hc.custody.known _ hplace, hid⟩
    · exact h.known id hack

/-- Fewer tasks, no message back in a queue. -/
theorem keep (h : Settled s L) {queue : DistributedQueue} {tasks : List WaitTask}
    (hq : ∀ m ∈ queue.contents, m.msgId ∉ L.acked) (ht : tasks ⊆ s.tasks) :
    Settled { s with queue := queue, tasks := tasks } L :=
  ⟨hq, fun t hmem => h.live t (ht hmem), fun t hmem => h.delivered t (ht hmem), h.known⟩

/-- Every effect of a step that is in time keeps acknowledged messages
out of the queues. -/
theorem effect {c : QueueRun} {a : QueueAction} {out : List QueueEvent}
    (h : Settled c.2 L) (hc : Conserved E c.2 L) (hok : AckedInTime c a)
    (he : QueueSystem.Effect E c.2 a s' out) : Settled s' (out.foldl Ledger.record L) := by
  cases he with
  | quiet _ ws p _ _ hout =>
    rw [Ledger.foldl_silent hout]
    exact ⟨h.queued, h.live, h.delivered, h.known⟩
  | enqueued k now ws topic payload name ms msg hmsg _ hget =>
    exact h.enqueued hc topic hmsg hget ws
  | delivered _ ws topic consumer partition msg rest _ hget =>
    exact h.delivered_step topic consumer hget ws
  | acknowledged k now ws msgId consumer event hop hget =>
    obtain ⟨t, ht, rfl, hfired⟩ := hok _ hop event hget
    exact h.acknowledged hc consumer ht (hc.books.pending msgId _ hget t ht rfl) hfired ws
  | recovered k now ws =>
    refine ⟨?_, h.live, h.delivered, h.known⟩
    intro m hm
    rw [DistributedQueue.contents_recover] at hm
    obtain ⟨x, hx, rfl⟩ := List.mem_map.mp hm
    rw [Message.recover_msgId]
    exact h.queued x hx
  | fired k t hk _ =>
    refine ⟨h.queued, ?_, ?_, h.known⟩
    · intro t' ht' hack
      rcases List.mem_or_eq_of_mem_set ht' with hmem | rfl
      · exact h.live t' hmem hack
      · -- its event is set, and such a timer does not fire
        exact absurd (h.live t (List.mem_of_getElem? hk) hack).2 (hok t hk)
    · intro t' ht'
      obtain ⟨t₀, hmem, _, hmsg, _⟩ := mem_fire hk ht'
      rw [hmsg]
      exact h.delivered t₀ hmem
  | reinserted k t hk hfired =>
    refine h.keep ?_ (fun _ hmem => List.mem_of_mem_eraseIdx hmem)
    intro m hm
    rcases DistributedQueue.mem_contents_reinsert hm with rfl | hm
    · intro hack
      rw [(h.live t (List.mem_of_getElem? hk) hack).1] at hfired
      cases hfired
    · exact h.queued m hm
  | finished k t hk _ _ =>
    exact h.keep h.queued (fun _ hmem => List.mem_of_mem_eraseIdx hmem)

end Settled

/-! ## Runs -/

theorem settled_of_leads {n : Nat} {c : QueueRun}
    (h : (QueueSystem.machine E).Leads AckedInTime ([], .init n) c) :
    Settled c.2 (ledger c) := by
  refine h.track_invariant (I := Settled) (.init n) ?_
  intro c a s' out hreach ih hok hs
  exact ih.effect (conserved_of_leads hreach) hok (QueueSystem.step_effect hs)

/-- What a step answers holds where messages are as `Settled` says. -/
theorem honest_step {c : QueueRun} {a : QueueAction} {out : List QueueEvent}
    (h : Settled c.2 (ledger c)) (hc : Conserved E c.2 (ledger c)) (hok : AckedInTime c a)
    (he : QueueSystem.Effect E c.2 a s' out) : ∀ e ∈ out, Honest c e := by
  cases he with
  | quiet _ ws p _ _ hout =>
    intro e he
    have hsilent := hout e he
    cases e with
    | ackAnswered msgId consumer success =>
      cases success with
      | true => simp [QueueEvent.silent] at hsilent
      | false => trivial
    | delivered => simp [QueueEvent.silent] at hsilent
    | _ => trivial
  | enqueued => simp [Honest]
  | delivered _ ws topic consumer partition msg rest _ hget =>
    have hpop := DistributedQueue.contents_pop hget
    have hnot := h.queued msg (hpop.mem_iff.mpr List.mem_cons_self)
    simpa [Honest, Acked] using hnot
  | acknowledged k now ws msgId consumer event hop hget =>
    obtain ⟨t, ht, rfl, _⟩ := hok _ hop event hget
    have hid := hc.books.pending msgId _ hget t ht rfl
    simp only [List.mem_singleton, forall_eq, Honest]
    exact ⟨hid ▸ h.delivered t ht, hid ▸ hc.not_queued ht⟩
  | recovered => simp
  | fired => simp
  | reinserted => simp
  | finished => simp

/-- **An acknowledgement is final and truthful** in a run where no
delivery is both acknowledged and timed out. -/
theorem acknowledgements_hold {n : Nat} {c : QueueRun}
    (h : (QueueSystem.machine E).Leads AckedInTime ([], .init n) c) : AcknowledgementsHold c :=
  h.everyStep (fun _ _ _ _ hreach hok hs =>
    honest_step (settled_of_leads hreach) (conserved_of_leads hreach) hok
      (QueueSystem.step_effect hs))

/-- Delivered, acknowledged, and no longer there for the next consumer. -/
def promptRun : List QueueAction :=
  [.call (.enqueue "t" "one" "p"), .enter 0 0, .call (.dequeue "t" "c" (.int 1)), .enter 0 1,
   .call (.acknowledge "0" "c"), .enter 0 2, .finish 0]

theorem acknowledgements_hold_promptRun :
    ∃ c, (QueueSystem.machine numbered).Leads AckedInTime ([], .init 16) c ∧ Acked c "0" ∧
      AcknowledgementsHold c := by
  obtain ⟨c, hc, hp⟩ := Machine.exists_leads_of_exec (QueueSystem.machine numbered)
    AckedInTime ([], .init 16) promptRun (fun c => decide (Acked c "0")) (by decide +kernel)
  exact ⟨c, hc, of_decide_eq_true hp, acknowledgements_hold hc⟩

/-- The timer fires and the message goes back before the consumer
acknowledges it; the next `dequeue` returns it again. -/
def lateAckRun : List QueueAction :=
  [.call (.enqueue "t" "one" "p"), .enter 0 0, .call (.dequeue "t" "c" (.int 1)), .enter 0 1,
   .fire 0, .reinsert 0, .call (.acknowledge "0" "c"), .enter 0 32,
   .call (.dequeue "t" "d" (.int 1)), .enter 0 33]

theorem late_acknowledgement :
    ∃ c, (QueueSystem.machine numbered).Leads Machine.always ([], .init 16) c ∧
      ¬ AcknowledgementsHold c := by
  obtain ⟨c, hc, hp⟩ := Machine.exists_leads_of_exec (QueueSystem.machine numbered)
    Machine.always ([], .init 16) lateAckRun (fun c => decide (¬ AcknowledgementsHold c))
    (by decide +kernel)
  exact ⟨c, hc, of_decide_eq_true hp⟩

end SyncSystem.Queue
