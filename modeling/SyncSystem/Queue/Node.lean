/-
SyncSystem.Queue.Node — `DistributedQueue`: its tables and what its
methods do to them under the mutex.

Translated from `src/nodes/queue_node.py`. Two things are outside: the
hash of a topic (MD5, read as a number) and the message ids of `uuid4`,
of which only their being different is used (`QueueEnv`).

A `Message` is shared between the queue and the task that waits for its
acknowledgement; it is in one of the two places at a time, so it is a
value here. Topics, payloads and ids are strings, as the methods declare
them. `producers` and `consumers`, which only the statistics read, are in
`Queue.Clients`, with ids that are any JSON value; the replication
messages, which touch nothing local, are in `Queue.Replication`. The
lookup in the ring (`Queue.Ring`), which raises nothing and whose result
`enqueue` does not use, is left out.
-/
import SyncSystem.Python.Json
import SyncSystem.Python.Dict

namespace SyncSystem.Queue

open SyncSystem.Python

structure Message where
  msgId : String
  payload : String
  timestamp : Rat
  retryCount : Nat
  acknowledged : Bool
  deriving DecidableEq, Repr

structure QueueEnv where
  /-- `int(hashlib.md5(topic.encode()).hexdigest(), 16)`. -/
  hash : String → Nat
  /-- The successive values of `str(uuid.uuid4())`. -/
  uuid : Nat → String
  uuid_injective : Function.Injective uuid

structure DistributedQueue where
  partitions : Nat
  localQueues : Dict String (List Message)
  /-- The `asyncio.Event`s, by number. -/
  pendingAck : Dict String Nat

/-- `f"partition_{n}"`. -/
def partitionName (n : Nat) : String := "partition_" ++ n.repr

theorem repr_injective : Function.Injective Nat.repr := by
  intro m n hrepr
  have hdigits : Nat.toDigits 10 m = Nat.toDigits 10 n := by
    rw [← Nat.toList_repr, ← Nat.toList_repr, hrepr]
  rw [← Nat.ofDigitChars_toDigits (n := m) (b := 10) (by decide) (by decide), hdigits,
    Nat.ofDigitChars_toDigits (by decide) (by decide)]

theorem partitionName_injective : Function.Injective partitionName := by
  intro m n h
  exact repr_injective ((String.append_right_inj _).mp h)

/-- `self.max_retry`. -/
def maxRetry : Nat := 3

/-- The message as `enqueue` made it. -/
def Message.asEnqueued (m : Message) : Message := { m with retryCount := 0 }

/-- What `_message_recovery` does to one message. -/
def Message.recover (now : Rat) (m : Message) : Message :=
  if now - m.timestamp > 300 ∧ m.acknowledged = false then
    if m.retryCount < maxRetry then { m with retryCount := m.retryCount + 1 } else m
  else m

@[simp] theorem Message.asEnqueued_msgId (m : Message) : m.asEnqueued.msgId = m.msgId := rfl

@[simp] theorem Message.asEnqueued_recover (now : Rat) (m : Message) :
    (m.recover now).asEnqueued = m.asEnqueued := by
  unfold recover
  split
  · split <;> rfl
  · rfl

@[simp] theorem Message.recover_msgId (now : Rat) (m : Message) :
    (m.recover now).msgId = m.msgId := by
  have h := congrArg Message.msgId (m.asEnqueued_recover now)
  exact h

namespace DistributedQueue

/-- `DistributedQueue.__init__`. -/
def init (partitions : Nat) : DistributedQueue := ⟨partitions, .empty, .empty⟩

/-- `start`: an empty list for every partition. -/
def start (q : DistributedQueue) : DistributedQueue :=
  { q with localQueues :=
      (List.range q.partitions).foldl (fun d i => d.set (partitionName i) []) q.localQueues }

/-- The name of the partition a topic falls into. -/
def partitionOf (q : DistributedQueue) (hash : String → Nat) (topic : String) :
    Except PyError String :=
  if q.partitions = 0 then .error .zeroDivisionError
  else .ok (partitionName (hash topic % q.partitions))

/-- The body of `enqueue`. -/
def enqueue (q : DistributedQueue) (hash : String → Nat) (topic payload msgId : String)
    (now : Rat) : Except PyError (DistributedQueue × Message × String) := do
  let name ← q.partitionOf hash topic
  let msg : Message := ⟨msgId, payload, now, 0, false⟩
  match q.localQueues.get? name with
  | none => .error .keyError
  | some queue => .ok ({ q with localQueues := q.localQueues.set name (queue ++ [msg]) }, msg, name)

/-- The end of `dequeue`: the head of the partition is taken and `event`
becomes its pending acknowledgement. -/
def pop (q : DistributedQueue) (partition : String) (event : Nat) :
    Option (Message × DistributedQueue) :=
  match q.localQueues.get? partition with
  | some (m :: rest) =>
      some (m, { q with
        localQueues := q.localQueues.set partition rest
        pendingAck := q.pendingAck.set m.msgId event })
  | _ => none

/-- The body of `acknowledge`, and the event it sets. -/
def acknowledge (q : DistributedQueue) (msgId : String) : DistributedQueue × Option Nat :=
  match q.pendingAck.get? msgId with
  | some event => ({ q with pendingAck := q.pendingAck.del msgId }, some event)
  | none => (q, none)

/-- The timeout path of `_wait_for_ack`. -/
def reinsert (q : DistributedQueue) (partition : String) (message : Message) :
    DistributedQueue :=
  match q.localQueues.get? partition with
  | some queue =>
      if message ∈ queue then q
      else { q with localQueues := q.localQueues.set partition (message :: queue) }
  | none => q

/-- One pass of `_message_recovery`. -/
def recover (q : DistributedQueue) (now : Rat) : DistributedQueue :=
  { q with localQueues := q.localQueues.mapValues (fun queue => queue.map (Message.recover now)) }

/-- Every message in a local queue. -/
def contents (q : DistributedQueue) : List Message := q.localQueues.values.flatten

/-! ### Facts about the tables -/

/-- One list replaced: the contents change by what changes in it. -/
theorem contents_set {d : Dict String (List Message)} {p : String} {ms : List Message}
    (h : d.get? p = some ms) (ms' : List Message) :
    ∃ others : List Message, d.values.flatten.Perm (ms ++ others) ∧
      (d.set p ms').values.flatten.Perm (ms' ++ others) := by
  refine ⟨(d.del p).values.flatten, ?_, ?_⟩
  · exact (Dict.values_perm_of_get? h).flatten
  · exact (d.values_set_perm p ms').flatten

/-- Assigning empty lists puts no message anywhere. -/
theorem flatten_foldl_set (names : List String) {d : Dict String (List Message)}
    (h : d.values.flatten = []) :
    (names.foldl (fun d p => d.set p []) d).values.flatten = [] := by
  induction names generalizing d with
  | nil => exact h
  | cons p rest ih =>
    refine ih ?_
    rw [List.flatten_eq_nil_iff] at h ⊢
    intro ms hms
    have hsub : (d.del p).values.Sublist d.values := List.filter_sublist.map _
    rcases List.mem_cons.mp ((d.values_set_perm p []).mem_iff.mp hms) with rfl | hms
    · rfl
    · exact h ms (hsub.subset hms)

theorem contents_start (n : Nat) : (DistributedQueue.init n).start.contents = [] := by
  have hempty : (Dict.empty : Dict String (List Message)).values.flatten = [] := rfl
  have hstart := flatten_foldl_set ((List.range n).map partitionName) hempty
  rw [List.foldl_map] at hstart
  exact hstart

theorem contents_append {q : DistributedQueue} {p : String} {ms : List Message}
    (h : q.localQueues.get? p = some ms) (m : Message) :
    (q.localQueues.set p (ms ++ [m])).values.flatten.Perm (m :: q.contents) := by
  obtain ⟨others, hold, hnew⟩ := contents_set h (ms ++ [m])
  refine hnew.trans ?_
  rw [List.append_assoc]
  exact List.perm_middle.trans (hold.symm.cons m)

theorem contents_pop {q : DistributedQueue} {p : String} {m : Message} {rest : List Message}
    (h : q.localQueues.get? p = some (m :: rest)) :
    q.contents.Perm (m :: (q.localQueues.set p rest).values.flatten) := by
  obtain ⟨others, hold, hnew⟩ := contents_set h rest
  exact hold.trans (hnew.symm.cons m)

/-- A message that is not in its partition is put back at its head. -/
theorem reinsert_eq {q : DistributedQueue} {p : String} {ms : List Message} {m : Message}
    (h : q.localQueues.get? p = some ms) (hm : m ∉ ms) :
    q.reinsert p m = { q with localQueues := q.localQueues.set p (m :: ms) } := by
  simp [reinsert, h, hm]

@[simp] theorem reinsert_partitions (q : DistributedQueue) (p : String) (m : Message) :
    (q.reinsert p m).partitions = q.partitions := by
  unfold reinsert
  split
  · split <;> rfl
  · rfl

@[simp] theorem reinsert_pendingAck (q : DistributedQueue) (p : String) (m : Message) :
    (q.reinsert p m).pendingAck = q.pendingAck := by
  unfold reinsert
  split
  · split <;> rfl
  · rfl

theorem contents_reinsert {q : DistributedQueue} {p : String} {m : Message}
    (hp : q.localQueues.contains p = true) (hm : m ∉ q.contents) :
    (q.reinsert p m).contents.Perm (m :: q.contents) := by
  obtain ⟨ms, hms⟩ := Dict.contains_eq_true.mp hp
  have hnot : m ∉ ms := fun hmem =>
    hm (List.mem_flatten.mpr ⟨ms, Dict.mem_values_of_get? hms, hmem⟩)
  obtain ⟨others, hold, hnew⟩ := contents_set hms (m :: ms)
  rw [reinsert_eq hms hnot]
  exact hnew.trans (hold.symm.cons m)

theorem mem_contents_reinsert {q : DistributedQueue} {p : String} {m x : Message}
    (h : x ∈ (q.reinsert p m).contents) : x = m ∨ x ∈ q.contents := by
  unfold reinsert at h
  split at h
  · next ms hms =>
    split at h
    · exact Or.inr h
    · obtain ⟨others, hold, hnew⟩ := contents_set hms (m :: ms)
      rcases List.mem_cons.mp (hnew.mem_iff.mp h) with rfl | hx
      · exact Or.inl rfl
      · exact Or.inr (hold.mem_iff.mpr hx)
  · exact Or.inr h

theorem contents_recover (q : DistributedQueue) (now : Rat) :
    (q.recover now).contents = q.contents.map (Message.recover now) := by
  simp [contents, recover, List.map_flatten]

theorem contains_set {d : Dict String (List Message)} {p p' : String} {ms : List Message}
    (h : d.contains p' = true) : (d.set p ms).contains p' = true := by
  obtain ⟨ms', hms⟩ := Dict.contains_eq_true.mp h
  rw [Dict.contains_eq_true]
  simp only [Dict.get?_set]
  split
  · exact ⟨ms, rfl⟩
  · exact ⟨ms', hms⟩

theorem contains_recover {q : DistributedQueue} {p : String} (now : Rat) :
    (q.recover now).localQueues.contains p = q.localQueues.contains p := by
  simp [Dict.contains, recover]

theorem contains_reinsert {q : DistributedQueue} {p p' : String} (m : Message)
    (h : q.localQueues.contains p' = true) :
    (q.reinsert p m).localQueues.contains p' = true := by
  unfold reinsert
  split
  · split
    · exact h
    · exact contains_set h
  · exact h

theorem contains_of_get? {q : DistributedQueue} {p : String} {ms : List Message}
    (h : q.localQueues.get? p = some ms) : q.localQueues.contains p = true :=
  Dict.contains_eq_true.mpr ⟨ms, h⟩

end DistributedQueue

/-- `range(timeout * 10)`: only an integer has one. -/
def pollCount : Json → Except PyError Nat
  | .int n => .ok (n * 10).toNat
  | .bool b => .ok (if b then 10 else 0)
  | _ => .error .typeError

end SyncSystem.Queue
