/-
SyncSystem.Raft.Node — one `RaftNode`: its state, its message handlers
and the messages it builds.

Translated from `src/consensus/raft.py`. Everything under the node's
mutex runs without suspending, so a handler is a function of the state
and the message. What a handler starts with `asyncio.create_task` it
returns as a list of `SendTask`s: such a task opens a connection first
and reads the node only afterwards, so it is not part of the handler.

`last_heartbeat` and `election_timeout` decide only when the election
loop calls `startElection`; the clock is not modelled and an election may
start at any time. Terms are rationals because a message's term is any
JSON number. `startElection` adds 1 exactly, as Python does to an `int`;
from 2 ** 53 on Python rounds the sum of a float term and 1, so where the
sum matters terms are asked to be whole `int`s. Prints are left out, which
may raise on what a message brings: see `Raft.RejectedMessages`.
-/
import SyncSystem.Python.IntText
import SyncSystem.Python.Json

namespace SyncSystem.Raft

open SyncSystem.Python

inductive RaftState where
  | follower
  | candidate
  | leader
  deriving DecidableEq, Repr

/-- The value of the enum member. -/
def RaftState.value : RaftState → String
  | .follower => "follower"
  | .candidate => "candidate"
  | .leader => "leader"

structure LogEntry where
  term : Rat
  index : Nat
  command : String
  data : Obj

structure RaftNode where
  nodeId : String
  peers : List String
  port : Nat
  state : RaftState
  currentTerm : Rat
  /-- `None` is `null`; a candidate id is whatever the request carries. -/
  votedFor : Json
  log : List LogEntry
  commitIndex : Nat
  votesReceived : List Json
  matchIndex : List (String × Nat)
  nextIndex : List (String × Nat)
  leaderId : Json

/-- A coroutine that has been started but has not built its message. -/
inductive SendTask where
  | requestVote (peer : String) (lastIdx : Nat) (lastTerm : Rat)
  | heartbeats
  | heartbeat (peer : String)
  | voteResponse (receiver : Json) (granted : Bool)

/-- What a call of `handle_message` leaves behind: the node, the started
tasks and the exception, if one was raised. The node keeps what was
assigned before the exception. -/
structure Handled where
  node : RaftNode
  spawned : List SendTask
  raised : Option PyError

namespace RaftNode

/-- `RaftNode.__init__`. -/
def init (nodeId : String) (peers : List String) (port : Nat) : RaftNode where
  nodeId := nodeId
  peers := peers
  port := port
  state := .follower
  currentTerm := 0
  votedFor := .null
  log := []
  commitIndex := 0
  votesReceived := []
  matchIndex := []
  nextIndex := []
  leaderId := .null

/-- `self.log[-1].index if self.log else 0`. -/
def lastIdx (n : RaftNode) : Nat := (n.log.getLast?.map LogEntry.index).getD 0

/-- `self.log[-1].term if self.log else 0`. -/
def lastTerm (n : RaftNode) : Rat := (n.log.getLast?.map LogEntry.term).getD 0

/-! ## Elections -/

/-- `_start_election`. -/
def startElection (n : RaftNode) : RaftNode × List SendTask :=
  let n' := { n with
    state := .candidate
    currentTerm := n.currentTerm + 1
    votedFor := .str n.nodeId
    votesReceived := [.str n.nodeId] }
  (n', n'.peers.map (fun peer => .requestVote peer n'.lastIdx n'.lastTerm))

/-- `(len(self.peers) + 1) // 2 + 1`. -/
def majority (n : RaftNode) : Nat := (n.peers.length + 1) / 2 + 1

/-- `_check_election_winner`. -/
def checkElectionWinner (n : RaftNode) : RaftNode × List SendTask :=
  if n.state ≠ .candidate then (n, [])
  else if n.votesReceived.length ≥ n.majority then
    ({ n with
        state := .leader
        leaderId := .str n.nodeId
        nextIndex := n.peers.map (fun peer => (peer, n.log.length + 1))
        matchIndex := n.peers.map (fun peer => (peer, 0)) },
      [.heartbeats])
  else (n, [])

/-- The up-to-dateness test of `_handle_vote_request`. -/
def logOk (n : RaftNode) (candLastTerm candLastIdx : Json) : Except PyError Bool := do
  let t ← candLastTerm.num
  if t > n.lastTerm then
    return true
  else if t = n.lastTerm then
    let i ← candLastIdx.num
    return decide (i ≥ (n.lastIdx : Rat))
  else
    return false

/-- The term test of `_handle_vote_request`. -/
def termOk (n : RaftNode) (candidateTerm : Rat) (candidateId : Json) : Bool :=
  decide (candidateTerm > n.currentTerm) ||
    (candidateTerm == n.currentTerm &&
      (n.votedFor matches .null || n.votedFor.pyEq candidateId))

/-- `_handle_vote_request`. -/
def handleVoteRequest (n : RaftNode) (msg : Obj) : Except PyError (RaftNode × List SendTask) := do
  let candidateId ← (Obj.get msg "data" (.obj [])).get "candidate_id" (.str "")
  let senderAddr := Obj.get msg "sender" (.str "")
  let candidateTerm ← (Obj.get msg "term" (.int 0)).num
  let candLastIdx ← (Obj.get msg "data" (.obj [])).get "last_log_index" (.int 0)
  let candLastTerm ← (Obj.get msg "data" (.obj [])).get "last_log_term" (.int 0)
  let logOk ← n.logOk candLastTerm candLastIdx
  if n.termOk candidateTerm candidateId && logOk then
    return ({ n with votedFor := candidateId, currentTerm := candidateTerm },
      [.voteResponse senderAddr true])
  else
    return (n, [.voteResponse senderAddr false])

/-- Whether `_handle_vote_response` appends the sender to `votes_received`. -/
def newVote (n : RaftNode) (msg : Obj) : Bool :=
  (Obj.get msg "granted" (.bool false)).truthy &&
    !(Obj.get msg "sender_id" (.str "")).isIn n.votesReceived

/-- `_handle_vote_response`. -/
def handleVoteResponse (n : RaftNode) (msg : Obj) : RaftNode × List SendTask :=
  let n' := if n.newVote msg then
      { n with votesReceived := n.votesReceived ++ [Obj.get msg "sender_id" (.str "")] }
    else n
  n'.checkElectionWinner

/-- `_handle_heartbeat`. -/
def handleHeartbeat (n : RaftNode) (msg : Obj) : RaftNode :=
  { n with
    state := .follower
    leaderId := Obj.get msg "sender_id" (Obj.get msg "sender" (.str "")) }

/-- The first lines of `handle_message`: a higher term is adopted, with
the vote of the old one dropped. -/
def adoptTerm (n : RaftNode) (term : Rat) : RaftNode :=
  if term > n.currentTerm then
    { n with currentTerm := term, state := .follower, votedFor := .null }
  else n

/-- The dispatch of `handle_message` on the message type. -/
def dispatch (n : RaftNode) (msg : Obj) : Except PyError (RaftNode × List SendTask) :=
  let msgType := Obj.get msg "type" (.str "")
  if msgType.pyEq (.str "request_vote") then n.handleVoteRequest msg
  else if msgType.pyEq (.str "vote_response") then .ok (n.handleVoteResponse msg)
  else if msgType.pyEq (.str "heartbeat") || msgType.pyEq (.str "append_entries") then
    .ok (n.handleHeartbeat msg, [])
  else .ok (n, [])

/-- `handle_message`. The term has been adopted before the fields of the
message type are looked at, and stays adopted when these raise. -/
def handleMessage (n : RaftNode) (msg : Obj) : Handled :=
  match (Obj.get msg "term" (.int 0)).num with
  | .error e => ⟨n, [], some e⟩
  | .ok term =>
      match (n.adoptTerm term).dispatch msg with
      | .ok (n', tasks) => ⟨n', tasks, none⟩
      | .error e => ⟨n.adoptTerm term, [], some e⟩

/-- `submit_command`. -/
def submitCommand (n : RaftNode) (command : String) (data : Obj) : RaftNode × Bool :=
  if n.state ≠ .leader then (n, false)
  else
    ({ n with log := n.log ++
        [{ term := n.currentTerm, index := n.log.length + 1, command := command, data := data }] },
      true)

/-- `get_state`. -/
def getState (n : RaftNode) : Obj :=
  [("node_id", .str n.nodeId),
   ("state", .str n.state.value),
   ("term", .ofRat n.currentTerm),
   ("is_leader", .bool (n.state = .leader)),
   ("log_length", .int n.log.length),
   ("votes_received", .int n.votesReceived.length),
   ("total_peers", .int (n.peers.length + 1))]

/-- `get_leader_id`. -/
def getLeaderId (n : RaftNode) : Json :=
  if n.state = .leader then .str n.nodeId else n.leaderId

end RaftNode

/-! ## Messages -/

/-- The segment of `s.split(':')` at index 1. -/
def splitColon1 (s : String) : List Char :=
  ((s.toList.dropWhile (· ≠ ':')).tail).takeWhile (· ≠ ':')

/-- `int(peer.split(':')[1]) if ':' in peer else 8000`; no connection
opens to a negative port. -/
def peerPort (peer : String) : Option Nat :=
  if ':' ∈ peer.toList then (intOf? (splitColon1 peer)).bind Int.toNat? else some 8000

/-- The port `_send_vote_response` connects to. An empty receiver returns
at once; a non-empty list or dict without the key `':'` takes the default. -/
def receiverPort : Json → Option Nat
  | .str s => if s = "" then none else peerPort s
  | .arr xs => if xs.isEmpty || (Json.str ":").isIn xs then none else some 8000
  | .obj d => if d.isEmpty || Obj.has d ":" then none else some 8000
  | _ => none

/-- A message on its way to `127.0.0.1:port`. -/
structure Packet where
  port : Nat
  msg : Obj

/-- `f'127.0.0.1:{port}'`. -/
def address (port : Nat) : String := "127.0.0.1:" ++ port.repr

namespace RaftNode

/-- The dict built by `_request_vote`. -/
def requestVoteMsg (n : RaftNode) (lastIdx : Nat) (lastTerm : Rat) : Obj :=
  [("type", .str "request_vote"),
   ("sender", .str (address n.port)),
   ("sender_id", .str n.nodeId),
   ("term", .ofRat n.currentTerm),
   ("data", .obj
     [("candidate_id", .str n.nodeId),
      ("last_log_index", .int lastIdx),
      ("last_log_term", .ofRat lastTerm)])]

/-- The dict built by `_send_heartbeat`. -/
def heartbeatMsg (n : RaftNode) : Obj :=
  [("type", .str "heartbeat"),
   ("sender", .str (address n.port)),
   ("sender_id", .str n.nodeId),
   ("term", .ofRat n.currentTerm),
   ("data", .obj [("leader_commit", .int n.commitIndex)])]

/-- The dict built by `_send_vote_response`. -/
def voteResponseMsg (n : RaftNode) (granted : Bool) : Obj :=
  [("type", .str "vote_response"),
   ("sender", .str (address n.port)),
   ("sender_id", .str n.nodeId),
   ("term", .ofRat n.currentTerm),
   ("granted", .bool granted)]

end RaftNode

/-- A started task that is resumed with its connection open: it builds
its message from the node as it is now, or starts further tasks. -/
def SendTask.resume (n : RaftNode) : SendTask → List Packet × List SendTask
  | .requestVote peer lastIdx lastTerm =>
      (((peerPort peer).map (⟨·, n.requestVoteMsg lastIdx lastTerm⟩)).toList, [])
  | .heartbeats => ([], n.peers.map .heartbeat)
  | .heartbeat peer => (((peerPort peer).map (⟨·, n.heartbeatMsg⟩)).toList, [])
  | .voteResponse receiver granted =>
      (((receiverPort receiver).map (⟨·, n.voteResponseMsg granted⟩)).toList, [])

end SyncSystem.Raft
