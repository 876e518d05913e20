/-
SyncSystem.Queue.Topics — what a consumer of a topic can get.

A topic is a partition number as far as the queue is concerned: its hash
modulo the number of partitions. A message does not carry its topic, so
a consumer gets what was enqueued for any topic of its partition
(`delivered_from_partition`), and no more can be said
(`topics_share_partition`).
-/
import SyncSystem.Queue.Conservation

namespace SyncSystem.Queue

open SyncSystem.Python

/-- `m`, as far as `enqueue` made it, was accepted for a topic that
`fits`. -/
def AcceptedFor (fits : String → Prop) (L : Ledger) (m : Message) : Prop :=
  ∃ t, fits t ∧ (t, m.asEnqueued) ∈ L.accepted

theorem AcceptedFor.mono {fits : String → Prop} {L L' : Ledger} {m : Message}
    (h : AcceptedFor fits L m) (hsub : L.accepted ⊆ L'.accepted) : AcceptedFor fits L' m := by
  obtain ⟨t, ht, hmem⟩ := h
  exact ⟨t, ht, hsub hmem⟩

theorem Ledger.accepted_subset_record (L : Ledger) (e : QueueEvent) :
    L.accepted ⊆ (L.record e).accepted := by
  cases e with
  | enqueued topic msg => exact List.subset_cons_self _ _
  | ackAnswered msgId consumer success => cases success <;> exact List.Subset.refl _
  | _ => exact List.Subset.refl _

/-- The topics of a partition. -/
def TopicOf (E : QueueEnv) (q : DistributedQueue) (p : String) (t : String) : Prop :=
  q.partitionOf E.hash t = .ok p

/-- Every message is where its topic belongs: in its queue, with the task
that will put it back there, or about to be taken from there. -/
structure Placed (E : QueueEnv) (n : Nat) (s : QueueSystem) (L : Ledger) : Prop where
  partitions : s.queue.partitions = n
  queued : ∀ p ms, s.queue.localQueues.get? p = some ms →
    ∀ m ∈ ms, AcceptedFor (TopicOf E s.queue p) L m
  held : ∀ t ∈ s.tasks, AcceptedFor (TopicOf E s.queue t.partition) L t.message
  polling : ∀ p ∈ s.polling, TopicOf E s.queue p.partition p.topic

variable {E : QueueEnv} {n : Nat} {s s' : QueueSystem} {L : Ledger}

namespace Placed

theorem serves (h : Placed E n s L) {topic partition : String}
    (hs : QueueSystem.Serves E s topic partition) : TopicOf E s.queue partition topic := by
  rcases hs with hs | ⟨p, hp, rfl, rfl⟩
  · exact hs
  · exact h.polling p hp

/-- One queue replaced by messages that belong there. -/
theorem queued_set (h : Placed E n s L) {L' : Ledger} (hsub : L.accepted ⊆ L'.accepted)
    {p : String} {ms : List Message}
    (hms : ∀ m ∈ ms, AcceptedFor (TopicOf E s.queue p) L' m) :
    ∀ p' ms', (s.queue.localQueues.set p ms).get? p' = some ms' →
      ∀ m ∈ ms', AcceptedFor (TopicOf E s.queue p') L' m := by
  intro p' ms' hget m hm
  simp only [Dict.get?_set, beq_iff_eq] at hget
  split at hget
  · next heq =>
    cases hget
    exact heq ▸ hms m hm
  · exact (h.queued p' ms' hget m hm).mono hsub

theorem reinsert (h : Placed E n s L) {t : WaitTask} (ht : t ∈ s.tasks) :
    ∀ p ms, (s.queue.reinsert t.partition t.message).localQueues.get? p = some ms →
      ∀ m ∈ ms, AcceptedFor (TopicOf E s.queue p) L m := by
  unfold DistributedQueue.reinsert
  split
  · next queue hget =>
    split
    · exact h.queued
    · refine h.queued_set (List.Subset.refl _) ?_
      intro m hm
      rcases List.mem_cons.mp hm with rfl | hm
      · exact h.held t ht
      · exact h.queued _ _ hget m hm
  · exact h.queued

theorem effect (h : Placed E n s L) {a : QueueAction} {out : List QueueEvent}
    (he : QueueSystem.Effect E s a s' out) : Placed E n s' (out.foldl Ledger.record L) := by
  cases he with
  | quiet _ ws p _ hserves hout =>
    rw [Ledger.foldl_silent hout]
    exact ⟨h.partitions, h.queued, h.held, fun p' hp' => h.serves (hserves p' hp')⟩
  | enqueued k now ws topic payload name ms msg hmsg hname hget =>
    have hsub := L.accepted_subset_record (.enqueued topic msg)
    refine ⟨h.partitions, h.queued_set hsub ?_, fun t ht => (h.held t ht).mono hsub, h.polling⟩
    intro m hm
    rcases List.mem_append.mp hm with hm | hm
    · exact (h.queued _ _ hget m hm).mono hsub
    · rw [List.mem_singleton.mp hm]
      have hsame : msg.asEnqueued = msg := by rw [hmsg]; rfl
      exact ⟨topic, hname, by rw [hsame]; exact List.mem_cons_self⟩
  | delivered _ ws topic consumer partition msg rest _ hget =>
    refine ⟨h.partitions, h.queued_set (List.Subset.refl _) ?_, ?_, by simp⟩
    · exact fun m hm => h.queued _ _ hget m (List.mem_cons_of_mem _ hm)
    · intro t ht
      rcases List.mem_append.mp ht with ht | ht
      · exact h.held t ht
      · rw [List.mem_singleton.mp ht]
        exact h.queued _ _ hget msg List.mem_cons_self
  | acknowledged => exact ⟨h.partitions, h.queued, h.held, h.polling⟩
  | recovered k now ws =>
    refine ⟨h.partitions, ?_, h.held, h.polling⟩
    intro p ms hget m hm
    obtain ⟨ms', hms', rfl⟩ : ∃ ms', s.queue.localQueues.get? p = some ms' ∧
        ms'.map (Message.recover now) = ms := by
      simpa [DistributedQueue.recover] using hget
    obtain ⟨x, hx, rfl⟩ := List.mem_map.mp hm
    obtain ⟨t, ht, hmem⟩ := h.queued p ms' hms' x hx
    exact ⟨t, ht, by rw [Message.asEnqueued_recover]; exact hmem⟩
  | fired k t hk _ =>
    refine ⟨h.partitions, h.queued, ?_, h.polling⟩
    intro t' ht'
    obtain ⟨t₀, hmem, _, hmsg, hpart⟩ := mem_fire hk ht'
    rw [hmsg, hpart]
    exact h.held t₀ hmem
  | reinserted k t hk _ =>
    have ht := List.mem_of_getElem? hk
    have htopic : ∀ p, TopicOf E (s.queue.reinsert t.partition t.message) p =
        TopicOf E s.queue p := by
      intro p
      funext topic
      simp only [TopicOf, DistributedQueue.partitionOf, DistributedQueue.reinsert_partitions]
    refine ⟨?_, ?_, ?_, ?_⟩
    · rw [DistributedQueue.reinsert_partitions]
      exact h.partitions
    · simp only [List.foldl_nil, htopic]
      exact h.reinsert ht
    · simp only [List.foldl_nil, htopic]
      exact fun t' ht' => h.held t' (List.mem_of_mem_eraseIdx ht')
    · simp only [htopic]
      exact h.polling
  | finished k t _ _ _ =>
    exact ⟨h.partitions, h.queued, fun t' ht' => h.held t' (List.mem_of_mem_eraseIdx ht'),
      h.polling⟩

end Placed

/-! ## Runs -/

/-- A message that `dequeue` returns was accepted for a topic with the
same partition. -/
def FromPartition (hash : String → Nat) (n : Nat) (before : QueueRun) : QueueEvent → Prop
  | .delivered topic _ m =>
      AcceptedFor (fun t => hash t % n = hash topic % n) (ledger before) m
  | _ => True

/-- A message that `dequeue` returns was accepted for that very topic. -/
abbrev FromTopic (before : QueueRun) : QueueEvent → Prop
  | .delivered topic _ m => (topic, m.asEnqueued) ∈ (ledger before).accepted
  | _ => True

instance (before : QueueRun) (e : QueueEvent) : Decidable (FromTopic before e) :=
  match e with
  | .delivered .. => inferInstance
  | .enqueued .. => inferInstance
  | .nothing .. => inferInstance
  | .ackAnswered .. => inferInstance
  | .raised .. => inferInstance

theorem topicOf_mod {q : DistributedQueue} {p t t' : String} (h : TopicOf E q p t)
    (h' : TopicOf E q p t') : E.hash t % q.partitions = E.hash t' % q.partitions := by
  simp only [TopicOf, DistributedQueue.partitionOf] at h h'
  split at h
  · cases h
  · next hn =>
    rw [if_neg hn] at h'
    exact partitionName_injective ((Except.ok.inj h).trans (Except.ok.inj h').symm)

theorem fromPartition_step {c : QueueRun} {a : QueueAction} {out : List QueueEvent}
    (h : Placed E n c.2 (ledger c)) (he : QueueSystem.Effect E c.2 a s' out) :
    ∀ e ∈ out, FromPartition E.hash n c e := by
  cases he with
  | quiet _ ws p _ _ hout =>
    intro e he
    have hsilent := hout e he
    cases e with
    | delivered => simp [QueueEvent.silent] at hsilent
    | _ => trivial
  | delivered _ ws topic consumer partition msg rest hserves hget =>
    obtain ⟨t, ht, hmem⟩ := h.queued _ _ hget msg List.mem_cons_self
    have hmod := topicOf_mod ht (h.serves hserves)
    rw [h.partitions] at hmod
    simp only [List.mem_singleton, forall_eq, FromPartition]
    exact ⟨t, hmod, hmem⟩
  | enqueued => simp [FromPartition]
  | acknowledged => simp [FromPartition]
  | recovered => simp
  | fired => simp
  | reinserted => simp
  | finished => simp

theorem placed_init (n : Nat) : Placed E n (.init n) .empty where
  partitions := rfl
  queued := by
    intro p ms hget m hm
    have hmem : m ∈ (DistributedQueue.init n).start.contents :=
      List.mem_flatten.mpr ⟨ms, Dict.mem_values_of_get? hget, hm⟩
    rw [DistributedQueue.contents_start] at hmem
    cases hmem
  held := by simp [QueueSystem.init]
  polling := by simp [QueueSystem.init]

theorem placed_of_leads {c : QueueRun}
    (h : (QueueSystem.machine E).Leads Machine.always ([], .init n) c) :
    Placed E n c.2 (ledger c) := by
  refine h.track_invariant (I := Placed E n) (placed_init n) ?_
  intro c a s' out _ ih _ hs
  exact ih.effect (QueueSystem.step_effect hs)

/-- **Partition isolation.** `dequeue` only returns messages that were
enqueued for a topic of the same partition. -/
theorem delivered_from_partition {c : QueueRun}
    (h : (QueueSystem.machine E).Leads Machine.always ([], .init n) c) :
    EveryStep (fun before _ out => ∀ e ∈ out, FromPartition E.hash n before e) c.1 :=
  h.everyStep (fun _ _ _ _ hreach _ hs =>
    fromPartition_step (placed_of_leads hreach) (QueueSystem.step_effect hs))

/-- Enqueued for one topic, dequeued from another of the same length. -/
def crossTopicRun : List QueueAction :=
  [.call (.enqueue "orders" "one" "p"), .enter 0 0,
   .call (.dequeue "alerts" "c" (.int 1)), .enter 0 1]

theorem delivered_from_partition_crossTopicRun :
    ∃ c, (QueueSystem.machine numbered).Leads Machine.always ([], .init 16) c ∧
      (ledger c).delivered = ["0"] ∧
      EveryStep (fun before _ out => ∀ e ∈ out, FromPartition numbered.hash 16 before e) c.1 := by
  obtain ⟨c, hc, hp⟩ := Machine.exists_leads_of_exec (QueueSystem.machine numbered)
    Machine.always ([], .init 16) crossTopicRun
    (fun c => decide ((ledger c).delivered = ["0"])) (by decide +kernel)
  exact ⟨c, hc, of_decide_eq_true hp, delivered_from_partition hc⟩

theorem topics_share_partition :
    ∃ c, (QueueSystem.machine numbered).Leads Machine.always ([], .init 16) c ∧
      ¬ EveryStep (fun before _ out => ∀ e ∈ out, FromTopic before e) c.1 := by
  obtain ⟨c, hc, hp⟩ := Machine.exists_leads_of_exec (QueueSystem.machine numbered)
    Machine.always ([], .init 16) crossTopicRun
    (fun c => decide (¬ EveryStep (fun before _ out => ∀ e ∈ out, FromTopic before e) c.1))
    (by decide +kernel)
  exact ⟨c, hc, of_decide_eq_true hp⟩

end SyncSystem.Queue
