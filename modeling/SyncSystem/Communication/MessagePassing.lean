/-
SyncSystem.Communication.MessagePassing — sending with retries.

Translated from `send_message` and `broadcast` in
`src/communication/message_passing.py`. A failed attempt is counted on
the `Message` of the call, and the retry is a new call of `send_message`,
which makes a new `Message` with its counter at 0. So the counter never
gets near `max_retries`: a call goes on until an attempt gets through,
and if none does it never returns (`sendMessage_cases`).

What the world does is in `SendEnv`: how each connection attempt goes, in
the order in which they are made. `depth` is the number of nested calls
there is room for; a call that needs more has not returned when they are
used up.
-/
import SyncSystem.Python.Dict
import SyncSystem.Raft.Node

namespace SyncSystem.Communication

open SyncSystem.Python

/-- The default of `max_retries`. -/
def defaultMaxRetries : Nat := 3

structure Message where
  msgId : String
  sender : String
  receiver : String
  msgType : String
  payload : Obj
  retryCount : Nat := 0
  maxRetries : Nat := defaultMaxRetries

structure MessagePassing where
  nodeId : String
  peers : List String

/-- How a connection attempt goes. -/
inductive Outcome where
  /-- `open_connection` raises. -/
  | refused
  /-- It does not return in time. -/
  | connectTimedOut
  /-- `drain` or `read` raises, or `read` does not return in time. -/
  | replyTimedOut
  /-- The reply does not decode. -/
  | malformed
  /-- The connection is closed without a reply. -/
  | empty
  | reply (v : Json)

/-- What `send_message` returns after the attempt; `none` where the
attempt raises. A reply `null` decodes to `None`. -/
def Outcome.result : Outcome → Option (Option Json)
  | .empty => some none
  | .reply .null => some none
  | .reply v => some (some v)
  | _ => none

/-- The message is on the wire before the attempt fails. -/
def Outcome.written : Outcome → Bool
  | .refused => false
  | .connectTimedOut => false
  | _ => true

structure SendEnv where
  uuid : Nat → String
  /-- `int(receiver.split(":")[1]) if ":" in receiver else 8000`; `none`
  where `int` raises. -/
  port : String → Option Int
  /-- The `n`-th connection attempt. -/
  outcome : Nat → Outcome

/-- What has happened so far. -/
structure SendLog where
  messages : Nat
  attempts : Nat
  wire : List (Int × Obj)

namespace MessagePassing

variable (E : SendEnv) (n : MessagePassing)

/-- The dict that is written. -/
def wireMsg (msg : Message) : Obj :=
  [("msg_id", .str msg.msgId), ("sender", .str msg.sender), ("receiver", .str msg.receiver),
   ("type", .str msg.msgType), ("payload", .obj msg.payload)]

/-- The `try` block. -/
def attempt (log : SendLog) (msg : Message) : Option (Option Json) × SendLog :=
  match E.port msg.receiver with
  | none => (none, log)
  | some port =>
      let outcome := E.outcome log.attempts
      (outcome.result,
        { log with
          attempts := log.attempts + 1
          wire := if outcome.written then log.wire ++ [(port, wireMsg msg)] else log.wire })

/-- `send_message`: what it returns, `none` where it has not returned. -/
def sendMessage (receiver msgType : String) (payload : Option Obj) :
    Nat → SendLog → Option (Option Json) × SendLog
  | 0, log => (none, log)
  | depth + 1, log =>
      let msg : Message :=
        { msgId := E.uuid log.messages
          sender := n.nodeId
          receiver := receiver
          msgType := msgType
          payload := payload.getD [] }
      match attempt E { log with messages := log.messages + 1 } msg with
      | (some reply, log') => (some reply, log')
      | (none, log') =>
          let msg := { msg with retryCount := msg.retryCount + 1 }
          if msg.retryCount < msg.maxRetries then
            sendMessage receiver msgType payload depth log'
          else (some none, log')

/-- The loop of `broadcast`: the results by peer. -/
def broadcastLoop (msgType : String) (payload : Option Obj) (depth : Nat) :
    List String → Dict String (Option Json) → SendLog →
      Option (Dict String (Option Json)) × SendLog
  | [], results, log => (some results, log)
  | peer :: rest, results, log =>
      match sendMessage E n peer msgType payload depth log with
      | (none, log') => (none, log')
      | (some result, log') =>
          broadcastLoop msgType payload depth rest (results.set peer result) log'

/-- `broadcast`. -/
def broadcast (msgType : String) (payload : Option Obj) (depth : Nat) (log : SendLog) :
    Option Obj × SendLog :=
  match broadcastLoop E n msgType payload depth n.peers .empty log with
  | (none, log') => (none, log')
  | (some results, log') =>
      (some [("total", .int n.peers.length),
        ("success", .int (results.values.filter Option.isSome).length),
        ("results", .obj (results.entries.map fun e => (e.1, e.2.getD .null)))], log')

/-! ## When a call returns -/

variable {E n} {receiver msgType : String} {payload : Option Obj} {depth : Nat} {log : SendLog}

/-- The log after the attempt of a call. -/
def afterAttempt (E : SendEnv) (n : MessagePassing) (receiver msgType : String)
    (payload : Option Obj) (log : SendLog) : SendLog :=
  (attempt E { log with messages := log.messages + 1 }
    { msgId := E.uuid log.messages
      sender := n.nodeId
      receiver := receiver
      msgType := msgType
      payload := payload.getD [] }).2

theorem afterAttempt_attempts (n : MessagePassing) (msgType : String) (payload : Option Obj)
    (log : SendLog) {port : Int} (hport : E.port receiver = some port) :
    (afterAttempt E n receiver msgType payload log).attempts = log.attempts + 1 := by
  simp [afterAttempt, attempt, hport]

/-- A call whose attempt raises goes on as a new call. -/
theorem sendMessage_retry {port : Int} (hport : E.port receiver = some port)
    (hraises : (E.outcome log.attempts).result = none) :
    n.sendMessage E receiver msgType payload (depth + 1) log =
      n.sendMessage E receiver msgType payload depth
        (afterAttempt E n receiver msgType payload log) := by
  simp [sendMessage, afterAttempt, attempt, hport, hraises, defaultMaxRetries]

/-- A call whose attempt gets through returns. -/
theorem sendMessage_return {port : Int} (hport : E.port receiver = some port) {reply : Option Json}
    (hreply : (E.outcome log.attempts).result = some reply) :
    n.sendMessage E receiver msgType payload (depth + 1) log =
      (some reply, afterAttempt E n receiver msgType payload log) := by
  simp [sendMessage, afterAttempt, attempt, hport, hreply]

/-- A receiver that names no port raises before every attempt. -/
theorem sendMessage_no_port (hport : E.port receiver = none) :
    (n.sendMessage E receiver msgType payload depth log).1 = none := by
  induction depth generalizing log with
  | zero => rfl
  | succ depth ih => simp [sendMessage, attempt, hport, defaultMaxRetries, ih]

/-- A call makes attempts up to the first that gets through and returns,
or it makes as many as there is room for and has not returned. -/
theorem sendMessage_cases (n : MessagePassing) (msgType : String) (payload : Option Obj)
    (depth : Nat) (log : SendLog) {port : Int} (hport : E.port receiver = some port) :
    (∃ k < depth, (E.outcome (log.attempts + k)).result.isSome = true ∧
      (∀ i < k, (E.outcome (log.attempts + i)).result = none) ∧
      (n.sendMessage E receiver msgType payload depth log).1 =
        (E.outcome (log.attempts + k)).result ∧
      (n.sendMessage E receiver msgType payload depth log).2.attempts = log.attempts + k + 1) ∨
    ((∀ i < depth, (E.outcome (log.attempts + i)).result = none) ∧
      (n.sendMessage E receiver msgType payload depth log).1 = none ∧
      (n.sendMessage E receiver msgType payload depth log).2.attempts = log.attempts + depth) := by
  induction depth generalizing log with
  | zero =>
    right
    exact ⟨by omega, rfl, rfl⟩
  | succ depth ih =>
    have hattempts := afterAttempt_attempts n msgType payload log hport
    cases hresult : (E.outcome log.attempts).result with
    | some reply =>
      left
      rw [sendMessage_return hport hresult]
      exact ⟨0, by omega, by simp [hresult], by omega, by simp [hresult], by simpa using hattempts⟩
    | none =>
      rw [sendMessage_retry hport hresult]
      -- the attempts of the call that goes on are shifted by one
      have hshift : ∀ i, (afterAttempt E n receiver msgType payload log).attempts + i =
          log.attempts + (i + 1) := by
        intro i
        omega
      have hbefore : ∀ {k : Nat}, (∀ i < k, (E.outcome (log.attempts + (i + 1))).result = none) →
          ∀ i < k + 1, (E.outcome (log.attempts + i)).result = none := by
        intro k h i hi
        cases i with
        | zero => exact hresult
        | succ i => exact h i (by omega)
      have hrest := ih (afterAttempt E n receiver msgType payload log)
      simp only [hshift] at hrest
      cases hrest with
      | inl h =>
        obtain ⟨k, hk, hsome, hnone, hreply, hcount⟩ := h
        left
        exact ⟨k + 1, by omega, hsome, hbefore hnone, hreply, by omega⟩
      | inr h =>
        obtain ⟨hnone, hreply, hcount⟩ := h
        right
        exact ⟨hbefore hnone, hreply, by omega⟩

/-- No attempt is made after one that gets through. -/
theorem sendMessage_attempts_le {port : Int} (hport : E.port receiver = some port) {i : Nat}
    (hi : (E.outcome (log.attempts + i)).result.isSome = true) :
    (n.sendMessage E receiver msgType payload depth log).2.attempts ≤ log.attempts + (i + 1) := by
  cases sendMessage_cases n msgType payload depth log hport with
  | inl h =>
    obtain ⟨k, _, _, hnone, _, hcount⟩ := h
    have hk : k ≤ i := by
      by_contra hlt
      simp [hnone i (by omega)] at hi
    omega
  | inr h =>
    obtain ⟨hnone, _, hcount⟩ := h
    have hdepth : depth ≤ i := by
      by_contra hlt
      simp [hnone i (by omega)] at hi
    omega

/-- With room for that attempt the call returns. -/
theorem sendMessage_isSome {port : Int} (hport : E.port receiver = some port) {i : Nat}
    (hi : (E.outcome (log.attempts + i)).result.isSome = true) :
    (n.sendMessage E receiver msgType payload (i + 1) log).1.isSome = true := by
  cases sendMessage_cases n msgType payload (i + 1) log hport with
  | inl h =>
    obtain ⟨k, _, hk, _, hreply, _⟩ := h
    rw [hreply]
    exact hk
  | inr h => simp [h.1 i (by omega)] at hi

/-- A call makes at most `max_retries` attempts, and returns. -/
def BoundedRetries (E : SendEnv) (n : MessagePassing) (receiver msgType : String)
    (payload : Option Obj) (log : SendLog) : Prop :=
  (∀ depth, (n.sendMessage E receiver msgType payload depth log).2.attempts ≤
    log.attempts + defaultMaxRetries) ∧
  ∃ depth, (n.sendMessage E receiver msgType payload depth log).1.isSome = true

/-- **The retries of a call are bounded** exactly if the receiver names a
port and one of the first `max_retries` attempts gets through. -/
theorem boundedRetries_iff :
    BoundedRetries E n receiver msgType payload log ↔
      (E.port receiver).isSome = true ∧
        ∃ i < defaultMaxRetries, (E.outcome (log.attempts + i)).result.isSome = true := by
  constructor
  · intro h
    obtain ⟨hbound, depth, hreturns⟩ := h
    cases hport : E.port receiver with
    | none =>
      rw [sendMessage_no_port hport] at hreturns
      cases hreturns
    | some port =>
      refine ⟨rfl, ?_⟩
      cases sendMessage_cases n msgType payload depth log hport with
      | inl h =>
        obtain ⟨k, _, hsome, _, _, hcount⟩ := h
        have hle := hbound depth
        exact ⟨k, by omega, hsome⟩
      | inr h =>
        rw [h.2.1] at hreturns
        cases hreturns
  · intro h
    obtain ⟨hport, i, hi, hsome⟩ := h
    obtain ⟨port, hport⟩ := Option.isSome_iff_exists.mp hport
    refine ⟨?_, i + 1, sendMessage_isSome hport hsome⟩
    intro depth
    exact (sendMessage_attempts_le hport hsome).trans (by omega)

/-- A peer that refuses every connection. -/
def silentPeer : SendEnv where
  uuid i := toString i
  port receiver := (Raft.peerPort receiver).map Int.ofNat
  outcome _ := .refused

theorem silentPeer_port : silentPeer.port "localhost:8002" = some 8002 := by decide

/-- With no attempt getting through there are as many attempts as there is
room for nested calls, and a message of its own for each. -/
theorem sendMessage_silent (m : Nat) :
    n.sendMessage silentPeer "localhost:8002" msgType payload depth ⟨m, m, []⟩ =
      (none, ⟨m + depth, m + depth, []⟩) := by
  induction depth generalizing m with
  | zero => rfl
  | succ depth ih =>
    have hnext : afterAttempt silentPeer n "localhost:8002" msgType payload ⟨m, m, []⟩ =
        ⟨m + 1, m + 1, []⟩ := by
      simp only [afterAttempt, attempt, silentPeer_port]
      rfl
    rw [sendMessage_retry silentPeer_port rfl, hnext, ih]
    congr 2 <;> omega

/-- The call is never given up: at ten nested calls it has made ten
attempts, and at no number of them does it return. What ends it in Python
is the limit on nested calls: it raises `RecursionError` there. -/
theorem silent_peer_retried_for_ever :
    let n : MessagePassing := { nodeId := "node_1", peers := ["localhost:8002"] }
    (n.sendMessage silentPeer "localhost:8002" "ping" none 10 ⟨0, 0, []⟩).2.attempts = 10 ∧
    (∀ depth, (n.sendMessage silentPeer "localhost:8002" "ping" none depth ⟨0, 0, []⟩).1 = none) ∧
    ¬ BoundedRetries silentPeer n "localhost:8002" "ping" none ⟨0, 0, []⟩ := by
  intro n
  refine ⟨by rw [sendMessage_silent], fun depth => by rw [sendMessage_silent], ?_⟩
  intro h
  have hten := h.1 10
  rw [sendMessage_silent] at hten
  exact absurd hten (by decide)

/-- `broadcast` does not come back from the first of its peers if no
attempt gets through. -/
theorem broadcast_silent (hpeers : n.peers ≠ [])
    (hsilent : ∀ i, (E.outcome i).result = none) :
    (n.broadcast E msgType payload depth log).1 = none := by
  have hsend : ∀ peer, (n.sendMessage E peer msgType payload depth log).1 = none := by
    intro peer
    cases hport : E.port peer with
    | none => exact sendMessage_no_port hport
    | some port =>
      cases sendMessage_cases n msgType payload depth log hport with
      | inl h =>
        obtain ⟨k, _, hsome, _⟩ := h
        simp [hsilent] at hsome
      | inr h => exact h.2.1
  cases hp : n.peers with
  | nil => exact absurd hp hpeers
  | cons peer rest =>
    have hloop : (broadcastLoop E n msgType payload depth (peer :: rest) .empty log).1 = none := by
      specialize hsend peer
      simp only [broadcastLoop]
      split
      · rfl
      · simp_all
    simp only [broadcast, hp]
    split
    · rfl
    · simp_all

end MessagePassing

end SyncSystem.Communication
