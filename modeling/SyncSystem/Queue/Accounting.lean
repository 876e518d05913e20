/-
SyncSystem.Queue.Accounting — what the figures of `get_queue_stats` add up
to over a run.

The totals of a queue are counts of what its callers have seen and of what
is under way. Every message that has come in is counted once: it is in a
queue, with a task that waits for its acknowledgement, lost, or its task
is over. The other figures are lengths of lists without repetitions that
the answers alone determine (`queue_stats_add_up`).
-/
import SyncSystem.Queue.Clients
import SyncSystem.Queue.Statistics

namespace SyncSystem.Queue

open SyncSystem.Python

/-! ## Figures read off the answers -/

/-- The ids of messages handed out and not acknowledged since. -/
def awaits (ids : List String) : QueueEvent → List String
  | .delivered _ _ msg => addOnce ids msg.msgId
  | .ackAnswered msgId _ true => ids.filter (fun i => !(i == msgId))
  | _ => ids

structure Accounts where
  entered : Nat
  lost : Nat
  awaited : List String
  producers : List Key
  consumers : List Key

namespace Accounts

def empty : Accounts := ⟨0, 0, [], [], []⟩

def record (A : Accounts) : ClientEvent → Accounts
  | .enqueued producer _ _ =>
      { A with entered := A.entered + 1, producers := addOnce A.producers producer }
  | .unreported _ _ => { A with entered := A.entered + 1 }
  | .delivered consumer topic msg =>
      { A with
        awaited := awaits A.awaited (.delivered topic "" msg)
        consumers := addOnce A.consumers consumer }
  | .lost _ _ => { A with lost := A.lost + 1 }
  | .answered e => { A with awaited := awaits A.awaited e }

theorem record_answered (A : Accounts) (out : List QueueEvent) :
    (out.map ClientEvent.answered).foldl record A =
      { A with awaited := out.foldl awaits A.awaited } := by
  induction out generalizing A with
  | nil => rfl
  | cons e rest ih => simp [record, ih]

end Accounts

/-- A `_wait_for_ack` task ends with its event set. -/
def QueueAction.finishes : QueueAction → Bool
  | .finish _ => true
  | _ => false

/-- A message comes in. -/
def QueueEvent.arrives : QueueEvent → Bool
  | .enqueued _ _ => true
  | _ => false

/-! ## What a step does to the figures -/

namespace QueueSystem

variable {E : QueueEnv} {s s' : QueueSystem} {a : QueueAction} {out : List QueueEvent}

/-- No step makes or removes a partition. -/
theorem Effect.partitions (h : s.Effect E a s' out) :
    s'.queue.localQueues.keys = s.queue.localQueues.keys := by
  have hset : ∀ {name : String} {ms : List Message} (ms' : List Message),
      s.queue.localQueues.get? name = some ms →
      (s.queue.localQueues.set name ms').keys = s.queue.localQueues.keys := fun ms' hget =>
    Dict.keys_set_present (DistributedQueue.contains_of_get? hget) ms'
  cases h with
  | enqueued k now ws topic payload name ms msg _ _ hget => exact hset _ hget
  | delivered _ ws topic consumer partition msg rest _ hget => exact hset _ hget
  | recovered k now ws => simp [DistributedQueue.recover, Dict.keys, Dict.mapValues]
  | reinserted k t _ _ =>
    simp only [DistributedQueue.reinsert]
    split
    · next hget =>
      split
      · rfl
      · exact hset _ hget
    · rfl
  | _ => rfl

theorem awaits_silent {out : List QueueEvent} (h : ∀ e ∈ out, e.silent = true)
    (ids : List String) : out.foldl awaits ids = ids := by
  induction out generalizing ids with
  | nil => rfl
  | cons e rest ih =>
    have he := h e List.mem_cons_self
    have hsame : awaits ids e = ids := by
      cases e with
      | ackAnswered msgId consumer success =>
        cases success with
        | true => simp [QueueEvent.silent] at he
        | false => rfl
      | nothing | raised => rfl
      | enqueued | delivered => simp [QueueEvent.silent] at he
    rw [List.foldl_cons, hsame]
    exact ih (fun e' he' => h e' (List.mem_cons_of_mem e he')) ids

theorem Effect.awaited (h : s.Effect E a s' out) :
    s'.queue.pendingAck.keys = out.foldl awaits s.queue.pendingAck.keys := by
  cases h with
  | quiet _ ws p _ _ hsilent => exact (awaits_silent hsilent _).symm
  | delivered _ ws topic consumer partition msg rest _ _ => exact Dict.keys_set ..
  | acknowledged k now ws msgId consumer event _ _ => exact Dict.keys_del ..
  | reinserted k t _ _ => simp
  | _ => rfl

/-- The messages in the queues and with the tasks. -/
def inHand (s : QueueSystem) : Nat := s.queue.contents.length + s.tasks.length

theorem inHand_eraseIdx {k : Nat} {t : WaitTask} (hk : s.tasks[k]? = some t) :
    inHand { s with tasks := s.tasks.eraseIdx k } + 1 = s.inHand := by
  have hperm := (tasks_perm hk).length_eq
  simp only [List.length_cons] at hperm
  simp only [inHand]
  omega

/-- One more message is in hand when one comes in. -/
theorem Effect.inHand {L : Ledger} (hc : Conserved E s L) (h : s.Effect E a s' out)
    (hgoing : a.finishes = false) :
    s'.inHand = s.inHand + out.countP QueueEvent.arrives := by
  cases h with
  | quiet _ ws p _ _ hsilent =>
    have hnone : out.countP QueueEvent.arrives = 0 := by
      rw [List.countP_eq_zero]
      intro e he
      have hs := hsilent e he
      cases e <;> simp [QueueEvent.silent, QueueEvent.arrives] at hs ⊢
    simp [QueueSystem.inHand, hnone]
  | enqueued k now ws topic payload name ms msg _ _ hget =>
    have hperm := (DistributedQueue.contents_append hget msg).length_eq
    simp only [QueueSystem.inHand, append, DistributedQueue.contents, QueueEvent.arrives,
      List.countP_singleton, List.length_cons, if_true] at hperm ⊢
    omega
  | delivered _ ws topic consumer partition msg rest _ hget =>
    have hperm := (DistributedQueue.contents_pop hget).length_eq
    simp only [QueueSystem.inHand, handOut, DistributedQueue.contents, QueueEvent.arrives,
      List.countP_singleton, List.length_append, List.length_cons, List.length_nil,
      Bool.false_eq_true, if_false] at hperm ⊢
    omega
  | acknowledged k now ws msgId consumer event _ _ =>
    simp [QueueSystem.inHand, settle, DistributedQueue.contents, QueueEvent.arrives]
  | recovered k now ws =>
    simp [QueueSystem.inHand, DistributedQueue.contents_recover]
  | fired k t hk _ => simp [QueueSystem.inHand]
  | reinserted k t hk _ =>
    have hmem := List.mem_of_getElem? hk
    have hnot : t.message ∉ s.queue.contents := fun hm =>
      hc.not_queued hmem (List.mem_map_of_mem hm)
    have hback := (DistributedQueue.contents_reinsert (hc.books.partition t hmem) hnot).length_eq
    have hgone := inHand_eraseIdx hk
    simp only [QueueSystem.inHand, List.length_cons, List.countP_nil] at hback hgone ⊢
    omega
  | finished => simp [QueueAction.finishes] at hgoing

/-- Messages in a queue or with a task: one more when one comes in, and
one less when a task ends. -/
theorem step_inHand {L : Ledger} (hc : Conserved E s L) (h : s.step E a = some (s', out)) :
    s'.inHand + (if a.finishes then 1 else 0) = s.inHand + out.countP QueueEvent.arrives := by
  cases hfin : a.finishes with
  | false => simpa using (step_effect h).inHand hc hfin
  | true =>
    cases a with
    | finish k =>
      simp only [step] at h
      split at h
      · next hk =>
        split at h
        · cases h
          simpa using inHand_eraseIdx hk
        · cases h
      · cases h
    | _ => cases hfin

end QueueSystem

theorem keys_start (n : Nat) :
    (DistributedQueue.init n).start.localQueues.keys = (List.range n).map partitionName := by
  have hkeys : ∀ (names : List String) (d : Dict String (List Message)),
      (names.foldl (fun d p => d.set p []) d).keys = names.foldl addOnce d.keys := by
    intro names
    induction names with
    | nil => simp
    | cons p rest ih => simp [ih, Dict.keys_set]
  have hnodup : ([] ++ (List.range n).map partitionName).Nodup :=
    List.nodup_range.map partitionName_injective
  have hstart := hkeys ((List.range n).map partitionName) .empty
  rw [List.foldl_map] at hstart
  exact hstart.trans (foldl_addOnce hnodup)

namespace ClientQueue

variable {E : QueueEnv} {client : String → Json}

/-- What `get_queue_stats` reads. -/
def tables (s : ClientQueue) (nodeId : String) : QueueTables Message where
  nodeId := nodeId
  localQueues := s.system.queue.localQueues
  pendingAck := s.system.queue.pendingAck
  producers := s.producers
  consumers := s.consumers

def accounts (c : ClientRun) : Accounts := c.track Accounts.record .empty

/-- The tasks that have ended with their event set. -/
def finished (c : ClientRun) : Nat := c.1.countP (fun e => QueueAction.finishes e.action)

structure Balanced (n : Nat) (s : ClientQueue) (A : Accounts) (done : Nat) : Prop where
  partitions : s.system.queue.localQueues.keys = (List.range n).map partitionName
  awaited : s.system.queue.pendingAck.keys = A.awaited
  producers : s.producers.keys = A.producers
  consumers : s.consumers.keys = A.consumers
  total : s.system.inHand + A.lost + done = A.entered

theorem Balanced.effect {n : Nat} {s s' : ClientQueue} {A : Accounts} {done : Nat} {L : Ledger}
    {a : QueueAction} {out : List ClientEvent} (h : Balanced n s A done)
    (hc : Conserved E s.system L) (he : Effect E client s a s' out) :
    Balanced n s' (out.foldl Accounts.record A) (done + if a.finishes then 1 else 0) := by
  have htotal := h.total
  cases he with
  | enqueued q producer topic msg hq =>
    have heff := QueueSystem.step_effect hq
    have hcount := QueueSystem.step_inHand hc hq
    refine ⟨heff.partitions.trans h.partitions, heff.awaited.trans h.awaited, ?_, h.consumers, ?_⟩
    · simp [Dict.keys_set, h.producers, Accounts.record]
    · simp [Accounts.record, QueueEvent.arrives] at hcount ⊢
      omega
  | unreported q topic msg hq =>
    have heff := QueueSystem.step_effect hq
    have hcount := QueueSystem.step_inHand hc hq
    refine ⟨heff.partitions.trans h.partitions, heff.awaited.trans h.awaited, h.producers,
      h.consumers, ?_⟩
    simp [Accounts.record, QueueEvent.arrives] at hcount ⊢
    omega
  | delivered q consumer topic name msg hq =>
    have heff := QueueSystem.step_effect hq
    have hcount := QueueSystem.step_inHand hc hq
    refine ⟨heff.partitions.trans h.partitions, ?_, h.producers, ?_, ?_⟩
    · simp [heff.awaited, h.awaited, Accounts.record, awaits]
    · simp [Dict.keys_set, h.consumers, Accounts.record]
    · simp [Accounts.record, QueueEvent.arrives] at hcount ⊢
      omega
  | lost q ws partition topic name msg rest hq hget =>
    have hgoing : a.finishes = false := by
      cases a with
      | finish k =>
        simp only [QueueSystem.step] at hq
        split at hq
        · split at hq <;> cases hq
        · cases hq
      | _ => rfl
    have hperm := (DistributedQueue.contents_pop hget).length_eq
    refine ⟨?_, h.awaited, h.producers, h.consumers, ?_⟩
    · exact (Dict.keys_set_present (DistributedQueue.contains_of_get? hget) rest).trans h.partitions
    · simp only [QueueSystem.inHand, QueueSystem.withdraw, DistributedQueue.contents, hgoing,
        List.length_cons, List.foldl_cons, List.foldl_nil, Accounts.record, Bool.false_eq_true,
        if_false] at htotal hperm ⊢
      omega
  | answered q events hq hcarries =>
    have heff := QueueSystem.step_effect hq
    have hcount := QueueSystem.step_inHand hc hq
    have hnone : events.countP QueueEvent.arrives = 0 := by
      rw [List.countP_eq_zero]
      intro e he
      have hcarry := hcarries e he
      cases e <;> simp [QueueEvent.carries, QueueEvent.arrives] at hcarry ⊢
    rw [Accounts.record_answered]
    refine ⟨heff.partitions.trans h.partitions, ?_, h.producers, h.consumers, ?_⟩
    · simp [heff.awaited, h.awaited]
    · simp [hnone] at hcount ⊢
      omega

theorem balanced_of_leads {n : Nat} {c : ClientRun}
    (h : (machine E client).Leads Machine.always ([], .init n) c) :
    Balanced n c.2 (accounts c) (finished c) := by
  refine h.invariant (I := fun c => Balanced n c.2 (accounts c) (finished c)) ?_ ?_
  · refine ⟨keys_start n, rfl, rfl, rfl, ?_⟩
    have hempty := DistributedQueue.contents_start n
    simp [QueueSystem.inHand, init, QueueSystem.init, hempty, accounts, Config.track, finished,
      Accounts.empty]
  · intro c a s' out hreach ih _ hs
    have hconserved := (kept_of_leads hreach).conserved
    have hstep := ih.effect hconserved (step_effect hs)
    have haccounts : accounts (c.push a s' out) = out.foldl Accounts.record (accounts c) :=
      Config.track_push ..
    rw [haccounts]
    simpa [finished, List.countP_append, List.countP_singleton] using hstep

/-- **The statistics add up.** In every state of a queue the figures of
`get_queue_stats` are these: the partitions in their order with the
lengths of their queues, which sum up to the total; the total, the
messages with a task, the lost ones and the finished ones are the messages
that came in; and the callers and the pending acknowledgements are counted
each once. -/
theorem queue_stats_add_up {n : Nat} {c : ClientRun} (nodeId : String)
    (h : (machine E client).Leads Machine.always ([], .init n) c) :
    ∃ sizes : List Nat, sizes.length = n ∧
      (c.2.tables nodeId).getQueueStats =
        [("node_id", .str nodeId), ("total_messages", .int sizes.sum),
         ("partitions", .obj (((List.range n).map partitionName).zip
           (sizes.map fun k : Nat => Json.int k))),
         ("producers", .int (accounts c).producers.length),
         ("consumers", .int (accounts c).consumers.length),
         ("pending_acks", .int (accounts c).awaited.length)] ∧
      sizes.sum + c.2.system.tasks.length + (accounts c).lost + finished c =
        (accounts c).entered := by
  have hb := balanced_of_leads h
  have hlength : c.2.system.queue.localQueues.values.length = n := by
    have hkeys := congrArg List.length hb.partitions
    simpa [Dict.keys, Dict.values] using hkeys
  refine ⟨c.2.system.queue.localQueues.values.map List.length, by simpa using hlength, ?_, ?_⟩
  · have hpartitions : c.2.system.queue.localQueues.entries.map
          (fun e => (e.1, Json.int e.2.length)) = ((List.range n).map partitionName).zip
            ((c.2.system.queue.localQueues.values.map List.length).map fun k : Nat =>
              Json.int k) := by
      rw [← hb.partitions, Dict.keys, Dict.values, List.map_map, List.map_map, List.zip_map']
      rfl
    simp only [QueueTables.getQueueStats, tables, hpartitions, ← Dict.length_keys, hb.producers,
      hb.consumers, hb.awaited]
  · have htotal := hb.total
    simp only [QueueSystem.inHand, DistributedQueue.contents, List.length_flatten] at htotal
    omega

/-- After the example of `wastedRun`, `c` takes `two` out and its
acknowledgement ends the task. -/
def settledRun : List QueueAction :=
  wastedRun ++ [.call (.dequeue "t" "c" (.int 1)), .enter 0 3,
    .call (.acknowledge "1" "c"), .enter 0 4, .finish 0]

theorem queue_stats_add_up_settledRun :
    ∃ c, (machine numbered namedBy).Leads Machine.always ([], .init 2) c ∧
      (accounts c).entered = 2 ∧ (accounts c).lost = 1 ∧ finished c = 1 ∧
      ∃ sizes : List Nat, sizes.sum = 0 ∧
        (c.2.tables "n").getQueueStats =
          [("node_id", .str "n"), ("total_messages", .int sizes.sum),
           ("partitions", .obj (((List.range 2).map partitionName).zip
             (sizes.map fun k : Nat => Json.int k))),
           ("producers", .int 1), ("consumers", .int 1), ("pending_acks", .int 0)] := by
  obtain ⟨c, hc, hp⟩ := Machine.exists_leads_of_exec (machine numbered namedBy) Machine.always
    ([], .init 2) settledRun
    (fun c => decide ((accounts c).entered = 2 ∧ (accounts c).lost = 1 ∧ finished c = 1 ∧
      (accounts c).producers.length = 1 ∧ (accounts c).consumers.length = 1 ∧
      (accounts c).awaited.length = 0)) (by decide +kernel)
  obtain ⟨hentered, hlost, hdone, hproducers, hconsumers, hawaited⟩ := of_decide_eq_true hp
  obtain ⟨sizes, _, hstats, htotal⟩ := queue_stats_add_up "n" hc
  rw [hproducers, hconsumers, hawaited] at hstats
  refine ⟨c, hc, hentered, hlost, hdone, sizes, ?_, hstats⟩
  omega

end ClientQueue

end SyncSystem.Queue
