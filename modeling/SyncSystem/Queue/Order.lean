/-
SyncSystem.Queue.Order — whether a redelivered message keeps its place.

A timed-out message goes back to the head of its partition, whatever is
there. So the queues stay in the order of enqueueing exactly as long as
nothing that was enqueued before a message is in the queue when the
message is put back (`queues_in_order`). The order in which the timers
fire does not give that: the second of two timed-out messages goes in
front of the first (`timeouts_reverse`).
-/
import SyncSystem.Queue.Conservation

namespace SyncSystem.Queue

open SyncSystem.Python
open SyncSystem.Delivery

/-- What has been accepted, in the order of enqueueing. -/
def Ledger.inOrder (L : Ledger) : List Message := L.messages.reverse

@[simp] theorem Ledger.inOrder_enqueued (L : Ledger) (topic : String) (msg : Message) :
    (L.record (.enqueued topic msg)).inOrder = L.inOrder ++ [msg] := by
  simp [inOrder, messages, record]

/-- Every local queue is in the order of enqueueing. -/
def QueuesOrdered (s : QueueSystem) (L : Ledger) : Prop :=
  ∀ ms ∈ s.queue.localQueues.values, (ms.map Message.asEnqueued).Sublist L.inOrder

def InOrder (c : QueueRun) : Prop := QueuesOrdered c.2 (ledger c)

instance (c : QueueRun) : Decidable (InOrder c) :=
  inferInstanceAs (Decidable (∀ ms ∈ c.2.queue.localQueues.values,
    (ms.map Message.asEnqueued).Sublist (ledger c).inOrder))

/-- `m` was enqueued, and `m'` after it. -/
abbrev EnqueuedBefore (L : Ledger) (m m' : Message) : Prop :=
  [m.asEnqueued, m'.asEnqueued].Sublist L.inOrder

/-- A timed-out message is put back before messages that were enqueued
after it. -/
abbrev PutBackFirst (c : QueueRun) : QueueAction → Prop
  | .reinsert k => ∀ t ∈ c.2.tasks[k]?, ∀ ms ∈ c.2.queue.localQueues.get? t.partition,
      ∀ m ∈ ms, EnqueuedBefore (ledger c) t.message m
  | _ => True

instance (c : QueueRun) (a : QueueAction) : Decidable (PutBackFirst c a) :=
  QueueAction.decidable a

/-- Timers fire in the order of delivery, and the messages go back in
the order of the timers. The tasks are in the order of delivery. -/
abbrev InDeliveryOrder (c : QueueRun) : QueueAction → Prop
  | .fire k => ∀ t ∈ c.2.tasks.take k, t.fired = true
  | .reinsert k => ∀ t ∈ c.2.tasks.take k, t.fired = false
  | _ => True

instance (c : QueueRun) (a : QueueAction) : Decidable (InDeliveryOrder c a) :=
  QueueAction.decidable a

/-! ## Orders as lists -/

section Lists

variable {α : Type} {a : α} {l order : List α}

theorem not_pair_self (h : order.Nodup) : ¬ [a, a].Sublist order := by
  intro hsub
  have hpair := h.sublist hsub
  simp at hpair

/-- What comes before every element of a list in order goes in front of
the list. -/
theorem cons_sublist_of_pairs (hd : order.Nodup) (ha : a ∈ order) (hl : l.Sublist order)
    (hpairs : ∀ x ∈ l, [a, x].Sublist order) : (a :: l).Sublist order := by
  induction order with
  | nil => cases ha
  | cons y rest ih =>
    obtain ⟨hy, hrest⟩ := List.nodup_cons.mp hd
    by_cases hay : a = y
    · subst hay
      rcases List.sublist_cons_iff.mp hl with hl | ⟨r, rfl, _⟩
      · exact hl.cons_cons a
      · exact absurd (hpairs a List.mem_cons_self) (not_pair_self hd)
    · have hpairs' : ∀ x ∈ l, [a, x].Sublist rest := by
        intro x hx
        rcases List.sublist_cons_iff.mp (hpairs x hx) with h | ⟨r, heq, _⟩
        · exact h
        · exact absurd (List.cons.inj heq).1 hay
      have hl' : l.Sublist rest := by
        rcases List.sublist_cons_iff.mp hl with h | ⟨r, rfl, _⟩
        · exact h
        · -- `y` would come after `a` in the rest
          have hmem : y ∈ rest := (hpairs' y List.mem_cons_self).subset (by simp)
          exact absurd hmem hy
      have ha' : a ∈ rest := (List.mem_cons.mp ha).resolve_left hay
      exact (ih hrest ha' hl' hpairs').cons y

end Lists

/-! ## Steps -/

structure Ordered (s : QueueSystem) (L : Ledger) : Prop where
  distinct : L.messages.Nodup
  queued : QueuesOrdered s L

variable {E : QueueEnv} {s s' : QueueSystem} {L : Ledger}

namespace Ordered

theorem init (n : Nat) : Ordered (.init n) .empty where
  distinct := List.nodup_nil
  queued := by
    intro ms hms
    have hnil : ms = [] :=
      List.flatten_eq_nil_iff.mp (DistributedQueue.contents_start n) ms hms
    simp [hnil]

/-- One queue replaced by one that is in order. -/
theorem set (h : Ordered s L) {p : String} {ms : List Message}
    (hms : (ms.map Message.asEnqueued).Sublist L.inOrder) :
    ∀ ms' ∈ (s.queue.localQueues.set p ms).values,
      (ms'.map Message.asEnqueued).Sublist L.inOrder := by
  intro ms' hmem
  rcases Dict.mem_values_set hmem with rfl | hmem
  · exact hms
  · exact h.queued ms' hmem

theorem enqueued (h : Ordered s L) (hc : Conserved E s L) (topic : String) {name payload : String}
    {now : Rat} {ms : List Message} {msg : Message}
    (hmsg : msg = ⟨E.uuid s.nextMessage, payload, now, 0, false⟩)
    (hget : s.queue.localQueues.get? name = some ms) (ws : List Op) :
    Ordered (s.append ws name ms msg) (L.record (.enqueued topic msg)) := by
  refine ⟨?_, ?_⟩
  · refine List.nodup_cons.mpr ⟨fun hmem => ?_, h.distinct⟩
    exact hc.books.fresh (by rw [hmsg]) msg hmem rfl
  · intro ms' hmem
    rw [Ledger.inOrder_enqueued]
    rcases Dict.mem_values_set hmem with rfl | hmem
    · have hold := h.queued ms (Dict.mem_values_of_get? hget)
      have hsame : msg.asEnqueued = msg := by rw [hmsg]; rfl
      rw [List.map_append, List.map_singleton, hsame]
      exact hold.append_right [msg]
    · exact (h.queued ms' hmem).trans (List.sublist_append_left _ _)

theorem reinserted (h : Ordered s L) (hc : Conserved E s L) {t : WaitTask} (ht : t ∈ s.tasks)
    (hbefore : ∀ ms ∈ s.queue.localQueues.get? t.partition, ∀ m ∈ ms,
      EnqueuedBefore L t.message m) :
    ∀ ms ∈ (s.queue.reinsert t.partition t.message).localQueues.values,
      (ms.map Message.asEnqueued).Sublist L.inOrder := by
  unfold DistributedQueue.reinsert
  split
  · next ms hget =>
    split
    · exact h.queued
    · refine h.set ?_
      have hplace : t.message.asEnqueued ∈ s.places :=
        List.mem_map_of_mem (List.mem_append_right _ (List.mem_map_of_mem ht))
      have hknown := List.mem_reverse.mpr (hc.custody.known _ hplace)
      refine cons_sublist_of_pairs (List.nodup_reverse.mpr h.distinct) hknown
        (h.queued ms (Dict.mem_values_of_get? hget)) ?_
      intro x hx
      obtain ⟨m, hm, rfl⟩ := List.mem_map.mp hx
      exact hbefore ms hget m hm
  · exact h.queued

/-- Every effect of a step that puts back what comes first. -/
theorem effect {c : QueueRun} {a : QueueAction} {out : List QueueEvent}
    (h : Ordered c.2 (ledger c)) (hc : Conserved E c.2 (ledger c)) (hok : PutBackFirst c a)
    (he : QueueSystem.Effect E c.2 a s' out) :
    Ordered s' (out.foldl Ledger.record (ledger c)) := by
  cases he with
  | quiet _ ws p _ _ hout =>
    rw [Ledger.foldl_silent hout]
    exact ⟨h.distinct, h.queued⟩
  | enqueued k now ws topic payload name ms msg hmsg _ hget =>
    exact h.enqueued hc topic hmsg hget ws
  | delivered _ ws topic consumer partition msg rest _ hget =>
    have hold := h.queued _ (Dict.mem_values_of_get? hget)
    exact ⟨h.distinct, h.set ((List.sublist_cons_self _ _).trans hold)⟩
  | acknowledged => exact ⟨h.distinct, h.queued⟩
  | recovered k now ws =>
    refine ⟨h.distinct, ?_⟩
    intro ms' hmem
    obtain ⟨ms, hms, rfl⟩ : ∃ ms ∈ c.2.queue.localQueues.values,
        ms.map (Message.recover now) = ms' := by
      simpa [DistributedQueue.recover] using hmem
    have hsame : (ms.map (Message.recover now)).map Message.asEnqueued =
        ms.map Message.asEnqueued := by
      rw [List.map_map]
      exact List.map_congr_left (fun m _ => m.asEnqueued_recover now)
    rw [hsame]
    exact h.queued ms hms
  | fired => exact ⟨h.distinct, h.queued⟩
  | reinserted k t hk _ =>
    exact ⟨h.distinct, h.reinserted hc (List.mem_of_getElem? hk) (hok t hk)⟩
  | finished => exact ⟨h.distinct, h.queued⟩

end Ordered

/-- A message put back in front of one that was not enqueued after it is
out of order. -/
theorem not_inOrder_of_reinsert {c : QueueRun} {a : QueueAction} {out : List QueueEvent}
    (hc : Conserved E c.2 (ledger c)) (hbad : ¬ PutBackFirst c a)
    (hs : c.2.step E a = some (s', out)) :
    ¬ QueuesOrdered s' (out.foldl Ledger.record (ledger c)) := by
  cases a with
  | reinsert k =>
    obtain ⟨t, hk, rfl, rfl⟩ := QueueSystem.step_reinsert hs
    intro hordered
    refine hbad ?_
    intro t' ht' ms hget m hm
    obtain rfl : t = t' := Option.some.inj (hk.symm.trans ht')
    have hnot : t.message ∉ ms := by
      intro hmem
      refine hc.not_queued (List.mem_of_getElem? hk) (List.mem_map_of_mem ?_)
      exact List.mem_flatten.mpr ⟨ms, Dict.mem_values_of_get? hget, hmem⟩
    rw [QueuesOrdered] at hordered
    simp only [DistributedQueue.reinsert_eq hget hnot] at hordered
    have hall := hordered _ (Dict.mem_values_set_self _ t.partition (t.message :: ms))
    refine List.Sublist.trans ?_ hall
    rw [List.map_cons]
    exact (List.singleton_sublist.mpr (List.mem_map_of_mem hm)).cons_cons _
  | _ => exact absurd trivial hbad

/-! ## Runs -/

theorem ordered_of_leads {n : Nat} {c : QueueRun}
    (h : (QueueSystem.machine E).Leads PutBackFirst ([], .init n) c) :
    Ordered c.2 (ledger c) := by
  refine h.track_invariant (I := Ordered) (.init n) ?_
  intro c a s' out hreach ih hok hs
  exact ih.effect (conserved_of_leads hreach) hok (QueueSystem.step_effect hs)

/-- **The queues are in the order of enqueueing** throughout a run if and
only if every timed-out message is put back before messages that were
enqueued after it. -/
theorem queues_in_order {n : Nat} {c : QueueRun}
    (h : (QueueSystem.machine E).Leads Machine.always ([], .init n) c) :
    Throughout InOrder c ↔ EveryStep (fun before a _ => PutBackFirst before a) c.1 := by
  refine h.throughout_iff (fun c hc => (ordered_of_leads hc).queued) ?_
  intro c a s' out hc hbad hs
  have hbroken := not_inOrder_of_reinsert (conserved_of_leads hc) hbad hs
  rwa [InOrder, ledger, Config.track_push]

/-- The second message is still there when the first one is put back. -/
theorem queues_in_order_redeliveryRun :
    ∃ c, (QueueSystem.machine numbered).Leads Machine.always ([], .init 16) c ∧
      Acked c "1" ∧ Throughout InOrder c := by
  obtain ⟨c, hc, hp⟩ := Machine.exists_leads_of_exec (QueueSystem.machine numbered)
    Machine.always ([], .init 16) redeliveryRun
    (fun c => decide (Acked c "1" ∧ EveryStep (fun before a _ => PutBackFirst before a) c.1))
    (by decide +kernel)
  obtain ⟨hacked, hfirst⟩ := of_decide_eq_true hp
  exact ⟨c, hc, hacked, (queues_in_order hc).mpr hfirst⟩

/-- Two messages out for delivery time out one after the other. -/
def twoTimeoutsRun : List QueueAction :=
  [.call (.enqueue "t" "one" "p"), .enter 0 0, .call (.enqueue "t" "two" "p"), .enter 0 1,
   .call (.dequeue "t" "c" (.int 1)), .enter 0 2, .call (.dequeue "t" "c" (.int 1)), .enter 0 3,
   .fire 0, .reinsert 0, .fire 0, .reinsert 0]

theorem timeouts_reverse :
    ∃ c, (QueueSystem.machine numbered).Leads InDeliveryOrder ([], .init 16) c ∧ ¬ InOrder c := by
  obtain ⟨c, hc, hp⟩ := Machine.exists_leads_of_exec (QueueSystem.machine numbered)
    InDeliveryOrder ([], .init 16) twoTimeoutsRun (fun c => decide (¬ InOrder c))
    (by decide +kernel)
  exact ⟨c, hc, of_decide_eq_true hp⟩

end SyncSystem.Queue
