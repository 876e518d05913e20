/-
SyncSystem.Queue.Redelivery — a message without an acknowledgement comes
back.

Whatever has happened to an accepted message, as long as nobody has
acknowledged it or waits to: if the queue is left alone, the message is
in its local queue when the queue has come to rest, in whatever order
those who wait have had the mutex. Then consumers that ask for its topic
one at a time are handed what is before it, and it
(`unacked_can_be_delivered`).

An `acknowledge` that waits for the mutex gets it in its turn, so it is
asked that there is none.
-/
import SyncSystem.Queue.Progress
import SyncSystem.Queue.Topics

namespace SyncSystem.Queue

open SyncSystem.Python

variable {E : QueueEnv} {topic : String}

/-- A consumer asks for the topic when nobody waits; who waits first gets
the mutex first. -/
def OneAtATime (topic consumer : String) (c : QueueRun) : QueueAction → Prop
  | .call op => c.2.waiting = [] ∧ ∃ timeout, op = .dequeue topic consumer timeout
  | .enter k _ => k = 0
  | _ => False

/-! ## Left alone -/

namespace QueueSystem

variable {s s' : QueueSystem}

theorem waiting_deliver {topic consumer partition : String} {r : QueueSystem × List QueueEvent}
    (h : s.deliver topic consumer partition = some r) : r.1.waiting = s.waiting := by
  obtain ⟨msg, rest, _, rfl⟩ := deliver_eq h
  rfl

theorem waiting_perform (now : Rat) (op : Op) : (s.perform E now op).1.waiting = s.waiting := by
  cases op with
  | enqueue topic payload producer =>
    simp only [perform]
    split <;> rfl
  | dequeue topic consumer timeout =>
    simp only [perform]
    split
    · rfl
    · split
      · split
        · next r hr => exact waiting_deliver hr
        · rfl
      · rfl
  | acknowledge msgId consumer =>
    simp only [perform]
    split <;> rfl
  | recovery => rfl

theorem waiting_resume (p : Polling) : (s.resume p).1.waiting = s.waiting := by
  simp only [resume]
  split
  · rfl
  · split
    · next r hr => exact waiting_deliver hr
    · split <;> rfl

/-- Who waits has called, or has waited before. -/
theorem waiting_step {a : QueueAction} {out : List QueueEvent} {op : Op}
    (hs : s.step E a = some (s', out)) (hop : op ∈ s'.waiting) :
    op ∈ s.waiting ∨ a = .call op := by
  cases a with
  | call op' =>
    cases hs
    rcases List.mem_append.mp hop with hop | hop
    · exact Or.inl hop
    · rw [List.mem_singleton.mp hop]
      exact Or.inr rfl
  | enter k now =>
    left
    simp only [step] at hs
    split at hs
    · next op' _ _ =>
      have hwaiting := waiting_perform (E := E) (s := { s with waiting := s.waiting.eraseIdx k })
        now op'
      rw [Option.some.inj hs] at hwaiting
      rw [hwaiting] at hop
      exact List.mem_of_mem_eraseIdx hop
    · cases hs
  | wake =>
    left
    obtain ⟨p, _, heq⟩ := Option.map_eq_some_iff.mp hs
    have hwaiting := waiting_resume (s := s) p
    rw [heq] at hwaiting
    rwa [hwaiting] at hop
  | reinsert k =>
    left
    obtain ⟨_, _, _, rfl⟩ := step_reinsert hs
    exact hop
  | fire k =>
    left
    simp only [step] at hs
    split at hs
    · cases hs; exact hop
    · cases hs
  | finish k =>
    left
    simp only [step] at hs
    split at hs
    · split at hs
      · cases hs; exact hop
      · cases hs
    · cases hs

end QueueSystem

open QueueSystem

/-- The message has been accepted, and nobody has acknowledged it or waits
to. -/
structure Unsettled (topic : String) (m : Message) (c : QueueRun) : Prop where
  accepted : (topic, m) ∈ (ledger c).accepted
  notAcked : ¬ Acked c m.msgId
  nobodyAcks : ∀ consumer, .acknowledge m.msgId consumer ∉ c.2.waiting

theorem Ledger.accepted_subset_foldl (out : List QueueEvent) (L : Ledger) :
    ∀ p ∈ L.accepted, p ∈ (out.foldl record L).accepted := by
  induction out generalizing L with
  | nil => exact fun _ hp => hp
  | cons e rest ih => exact fun p hp => ih (L.record e) p (L.accepted_subset_record e hp)

theorem Unsettled.push {c : QueueRun} {m : Message} (h : Unsettled topic m c) {a : QueueAction}
    {s' : QueueSystem} {out : List QueueEvent} (hok : LeftAlone c a)
    (hs : c.2.step E a = some (s', out)) : Unsettled topic m (c.push a s' out) where
  accepted := by
    rw [ledger, Config.track_push]
    exact Ledger.accepted_subset_foldl out _ _ h.accepted
  notAcked := by
    rw [Acked, ledger, Config.track_push]
    have hnot := h.notAcked
    cases step_effect hs with
    | quiet _ ws p _ _ hout =>
      rw [Ledger.foldl_silent hout]
      exact hnot
    | acknowledged k now ws msgId consumer event hop _ =>
      intro hmem
      rcases List.mem_cons.mp hmem with heq | hmem
      · rw [← heq] at hop
        exact h.nobodyAcks consumer (List.mem_of_getElem? hop)
      · exact hnot hmem
    | _ => exact hnot
  nobodyAcks := by
    intro consumer hmem
    rcases waiting_step hs hmem with hold | rfl
    · exact h.nobodyAcks consumer hold
    · cases hok

theorem Unsettled.leads {c c' : QueueRun} {m : Message} (h : Unsettled topic m c)
    (hrun : (machine E).Leads LeftAlone c c') : Unsettled topic m c' :=
  hrun.invariant (I := Unsettled topic m) h (fun _ _ _ _ _ ih hok hs => ih.push hok hs)

/-- Where nobody has a message out, it is in a queue. -/
theorem Unsettled.queued {n : Nat} {c : QueueRun} {m : Message} (h : Unsettled topic m c)
    (hreach : (machine E).Leads Machine.always ([], .init n) c) (htasks : c.2.tasks = []) :
    ∃ msg ∈ c.2.queue.contents, msg.asEnqueued = m := by
  have hkept := (conserved_of_leads hreach).custody.kept m (List.mem_map_of_mem h.accepted)
    h.notAcked
  rw [places, htasks, List.map_nil, List.append_nil] at hkept
  exact List.mem_map.mp hkept

/-- A message is accepted once, so for one topic. -/
theorem accepted_distinct {ok : QueueRun → QueueAction → Prop} {n : Nat} {c : QueueRun}
    (h : (machine E).Leads ok ([], .init n) c) : ((ledger c).messages.map Message.msgId).Nodup := by
  refine h.track_invariant (I := fun _ (L : Ledger) => (L.messages.map Message.msgId).Nodup)
    List.nodup_nil ?_
  intro d a s' out hreach ih _ hs
  have hbooks := (conserved_of_leads hreach).books
  have hsame : ∀ L : Ledger, L.accepted = (ledger d).accepted →
      (L.messages.map Message.msgId).Nodup := by
    intro L heq
    rw [Ledger.messages, heq]
    exact ih
  cases step_effect hs with
  | quiet _ ws p _ _ hout =>
    rw [Ledger.foldl_silent hout]
    exact ih
  | enqueued k now ws topic payload name ms msg hmsg _ _ =>
    have hfresh := hbooks.fresh (show msg.msgId = _ by rw [hmsg])
    show ((msg :: (ledger d).messages).map Message.msgId).Nodup
    rw [List.map_cons, List.nodup_cons]
    refine ⟨?_, ih⟩
    intro hmem
    obtain ⟨m, hm, heq⟩ := List.mem_map.mp hmem
    exact hfresh m hm heq
  | _ => exact hsame _ rfl

theorem topic_unique {ok : QueueRun → QueueAction → Prop} {n : Nat} {c : QueueRun}
    (h : (machine E).Leads ok ([], .init n) c) {t t' : String} {m : Message}
    (ht : (t, m) ∈ (ledger c).accepted) (ht' : (t', m) ∈ (ledger c).accepted) : t = t' := by
  have hdistinct := accepted_distinct h
  rw [Ledger.messages, List.map_map] at hdistinct
  have hpair := List.inj_on_of_nodup_map hdistinct ht ht' rfl
  exact congrArg Prod.fst hpair

/-! ## Asking until it comes -/

/-- The passes of recovery that wait are made. -/
theorem exists_alone (topic consumer : String) {c : QueueRun}
    (hwaiting : ∀ op ∈ c.2.waiting, op = .recovery) (hpolling : c.2.polling = none)
    (htasks : c.2.tasks = []) :
    ∃ c', (machine E).Leads (fun d a => OneAtATime topic consumer d a ∧ LeftAlone d a) c c' ∧
      c'.2.waiting = [] ∧ c'.2.polling = none ∧ c'.2.tasks = [] := by
  generalize hws : c.2.waiting = ws at hwaiting
  induction ws generalizing c with
  | nil => exact ⟨c, .refl, hws, hpolling, htasks⟩
  | cons op rest ih =>
    obtain rfl := hwaiting op List.mem_cons_self
    have hs : (machine E).step c.2 (.enter 0 0) =
        some ({ c.2 with waiting := rest, queue := c.2.queue.recover 0 }, []) := by
      simp [machine_step, step, hpolling, hws, perform]
    obtain ⟨c', hrun, hrest⟩ := ih
      (c := c.push (.enter 0 0) { c.2 with waiting := rest, queue := c.2.queue.recover 0 } [])
      hpolling htasks rfl (fun op hop => hwaiting op (List.mem_cons_of_mem _ hop))
    exact ⟨c', .head ⟨.enter 0 0, _, _, ⟨rfl, trivial⟩, hs, rfl⟩ hrun, hrest⟩

/-- A call for a partition with messages gets the first. -/
theorem ask {c : QueueRun} {partition : String} {msg : Message} {rest : List Message}
    (hwaiting : c.2.waiting = []) (hidle : c.2.polling = none)
    (hpart : c.2.queue.partitionOf E.hash topic = .ok partition)
    (hget : c.2.queue.localQueues.get? partition = some (msg :: rest)) (consumer : String) :
    ∃ d a, (machine E).Leads (OneAtATime topic consumer) c d ∧ OneAtATime topic consumer d a ∧
      (machine E).step d.2 a = some (c.2.handOut [] partition msg rest,
        [.delivered topic consumer msg]) := by
  have hcalled : OneAtATime topic consumer c (.call (.dequeue topic consumer (.int 1))) :=
    ⟨hwaiting, _, rfl⟩
  refine ⟨c.push (.call (.dequeue topic consumer (.int 1)))
      { c.2 with waiting := c.2.waiting ++ [.dequeue topic consumer (.int 1)] } [],
    .enter 0 0, .single ⟨_, _, _, hcalled, rfl, rfl⟩, rfl, ?_⟩
  have hin : c.2.queue.localQueues.contains partition = true := Dict.contains_eq_true.mpr ⟨_, hget⟩
  simp [machine_step, step, hwaiting, hidle, perform, hpart, hin, deliver, DistributedQueue.pop,
    hget, handOut]

/-- Whatever is in the partition comes, after what is before it. -/
theorem ask_until {c : QueueRun} {partition : String} {before after : List Message}
    {msg : Message} (hwaiting : c.2.waiting = []) (hidle : c.2.polling = none)
    (hpart : c.2.queue.partitionOf E.hash topic = .ok partition)
    (hget : c.2.queue.localQueues.get? partition = some (before ++ msg :: after))
    (consumer : String) :
    ∃ d a s', (machine E).Leads (OneAtATime topic consumer) c d ∧ OneAtATime topic consumer d a ∧
      (machine E).step d.2 a = some (s', [.delivered topic consumer msg]) := by
  induction before generalizing c with
  | nil =>
    obtain ⟨d, a, hrun, hok, hs⟩ := ask hwaiting hidle hpart hget consumer
    exact ⟨d, a, _, hrun, hok, hs⟩
  | cons first before ih =>
    obtain ⟨d, a, hrun, hok, hs⟩ := ask hwaiting hidle hpart hget consumer
    obtain ⟨d', a', s', hrun', hok', hs'⟩ := ih
      (c := d.push a (c.2.handOut [] partition first (before ++ msg :: after)) _)
      rfl rfl hpart (by simp [handOut, Dict.get?_set])
    exact ⟨d', a', s', (hrun.tail ⟨_, _, _, hok, hs, rfl⟩).trans hrun', hok', hs'⟩

/-- From where the queue is at rest, asking brings the message. -/
theorem Unsettled.delivered {n : Nat} {c : QueueRun} {m : Message} (h : Unsettled topic m c)
    (hreach : (machine E).Leads Machine.always ([], .init n) c)
    (hrest : (machine E).AtRest LeftAlone works c) (consumer : String) :
    ∃ d a s' msg, (machine E).Leads (OneAtATime topic consumer) c d ∧
      OneAtATime topic consumer d a ∧
      (machine E).step d.2 a = some (s', [.delivered topic consumer msg]) ∧
      msg.asEnqueued = m := by
  obtain ⟨hwaiting, hpolling, htasks⟩ := rest_iff.mp hrest
  obtain ⟨c₁, hrun₁, hwaiting₁, hpolling₁, htasks₁⟩ :=
    exists_alone (E := E) topic consumer hwaiting hpolling htasks
  have h₁ := h.leads (hrun₁.mono fun _ _ hok => hok.2)
  have hreach₁ : (machine E).Leads Machine.always ([], .init n) c₁ := hreach.trans hrun₁.always
  obtain ⟨msg, hqueued, hmsg⟩ := h₁.queued hreach₁ htasks₁
  -- it is in the partition of its topic
  obtain ⟨ms, hms, hmem⟩ := List.mem_flatten.mp hqueued
  obtain ⟨e, he, rfl⟩ := List.mem_map.mp hms
  have hget : c₁.2.queue.localQueues.get? e.1 = some e.2 := Dict.get?_of_mem he
  obtain ⟨t, htopic, hfor⟩ := (placed_of_leads hreach₁).queued _ _ hget msg hmem
  rw [hmsg] at hfor
  obtain rfl := topic_unique hreach₁ hfor h₁.accepted
  obtain ⟨before, after, hsplit⟩ := List.append_of_mem hmem
  rw [hsplit] at hget
  obtain ⟨d, a, s', hrun₂, hok, hs⟩ := ask_until hwaiting₁ hpolling₁ htopic hget consumer
  exact ⟨d, a, s', msg, (hrun₁.mono fun _ _ hok => hok.1).trans hrun₂, hok, hs, hmsg⟩

/-- **A message without an acknowledgement comes back.** From a reachable
state in which a message has been accepted, and nobody has acknowledged
it or waits to: left alone, the queue can come to rest; and wherever it
has, whoever has had the mutex first, the message is not acknowledged,
and a consumer that asks for its topic, one call at a time, is handed it. -/
theorem unacked_can_be_delivered {n : Nat} {c : QueueRun}
    (h : (machine E).Leads Machine.always ([], .init n) c) {m : Message}
    (haccepted : (topic, m) ∈ (ledger c).accepted) (hnot : ¬ Acked c m.msgId)
    (hnobody : ∀ consumer, .acknowledge m.msgId consumer ∉ c.2.waiting) (consumer : String) :
    (∃ c', (machine E).Leads LeftAlone c c' ∧ (machine E).AtRest LeftAlone works c') ∧
    ∀ c', (machine E).Leads LeftAlone c c' → (machine E).AtRest LeftAlone works c' →
      ¬ Acked c' m.msgId ∧ ∃ d a s' msg, (machine E).Leads (OneAtATime topic consumer) c' d ∧
        OneAtATime topic consumer d a ∧
        (machine E).step d.2 a = some (s', [.delivered topic consumer msg]) ∧
        msg.asEnqueued = m := by
  refine ⟨?_, ?_⟩
  · obtain ⟨c', hrun, hrest⟩ := Machine.exists_rest work_lowers c
    exact ⟨c', hrun.mono (fun _ _ hok => hok.1), hrest⟩
  · intro c' hrun hrest
    have hunsettled := (Unsettled.mk haccepted hnot hnobody).leads hrun
    exact ⟨hunsettled.notAcked, hunsettled.delivered (h.trans hrun.always) hrest consumer⟩

/-- Two messages, the first out with a task, while a consumer of an empty
partition sleeps with the mutex and another one waits for it. -/
def heldRun : List QueueAction :=
  [.call (.enqueue "t" "one" "p"), .call (.enqueue "t" "two" "p"), .enter 0 0, .enter 0 1,
   .call (.dequeue "t" "c" (.int 1)), .enter 0 2, .call (.dequeue "other" "d" (.int 3)), .enter 0 3,
   .call (.dequeue "t" "f" (.int 1)), .call .recovery]

/-- The call is no `acknowledge`. -/
def Op.acknowledgesNothing : Op → Bool
  | .acknowledge _ _ => false
  | _ => true

theorem unacked_can_be_delivered_heldRun :
    ∃ c, (machine numbered).Leads Machine.always ([], .init 16) c ∧ c.2.polling.isSome = true ∧
      ∃ c', (machine numbered).Leads LeftAlone c c' ∧ ¬ Acked c' "0" ∧
        ∃ d a s' msg, (machine numbered).Leads (OneAtATime "t" "e") c' d ∧
          OneAtATime "t" "e" d a ∧
          (machine numbered).step d.2 a = some (s', [.delivered "t" "e" msg]) ∧
          msg.asEnqueued = ⟨"0", "one", 0, 0, false⟩ := by
  obtain ⟨c, hc, hp⟩ := Machine.exists_leads_of_exec (machine numbered) Machine.always
    ([], .init 16) heldRun
    (fun c => decide (c.2.polling.isSome = true ∧
      ("t", ⟨"0", "one", 0, 0, false⟩) ∈ (ledger c).accepted ∧ ¬ Acked c "0") &&
      c.2.waiting.all Op.acknowledgesNothing)
    (by decide +kernel)
  obtain ⟨hstate, hwaiting⟩ := Bool.and_eq_true_iff.mp hp
  obtain ⟨hsleeping, haccepted, hnot⟩ := of_decide_eq_true hstate
  have hnobody : ∀ consumer, .acknowledge "0" consumer ∉ c.2.waiting := by
    intro consumer hmem
    cases List.all_eq_true.mp hwaiting _ hmem
  obtain ⟨⟨c', hrun, hrest⟩, hback⟩ := unacked_can_be_delivered hc haccepted hnot hnobody "e"
  obtain ⟨hnot', hdelivered⟩ := hback c' hrun hrest
  exact ⟨c, hc, hsleeping, c', hrun, hnot', hdelivered⟩

end SyncSystem.Queue
