/-
SyncSystem.Server.Request — what a `NodeServer` does with one request.

Translated from `_handle_request` and `process_request` in
`src/nodes/__main__.py`, for a request that `json.loads` has decoded to a
dict. The Raft node and the failure detector are part of the server
here; the lock manager, the queue and the cache are components that it
calls (`ServerCall`), with whatever the request carried as arguments. A
call that raises ends the request without a reply, as every exception
does. Printing and the audit log are left out.
-/
import SyncSystem.Communication.FailureDetector
import SyncSystem.Locks.Manager
import SyncSystem.Machine.Program
import SyncSystem.Raft.Node

namespace SyncSystem.Server

open SyncSystem.Python
open SyncSystem.Communication
open SyncSystem.Locks (LockType)
open SyncSystem.Raft (RaftNode SendTask)

/-! ## The components -/

/-- The methods of the components that a request can reach. -/
inductive ServerCall where
  | acquireLock (resource : Json) (lockType : LockType) (clientId timeout : Json)
  | releaseLock (resource clientId : Json)
  | getLockStatus (resource : Json)
  | getAllLocks
  | enqueue (topic payload producerId : Json)
  | dequeue (topic consumerId timeout : Json)
  | acknowledge (msgId consumerId : Json)
  | getQueueStats
  | cacheRead (address requestorId : Json)
  | cacheWrite (address : Json) (data : ByteArray) (writerId : Json)
  | getCacheStats
  | locksHeld

/-- What a method returns when it does not raise. -/
def ServerCall.Result : ServerCall → Type
  | .getAllLocks => List Json
  | .dequeue _ _ _ => Option Obj
  | .cacheRead _ _ => Option ByteArray
  | .cacheWrite _ _ _ => Bool
  | .locksHeld => Nat
  | _ => Obj

/-- The components as the server sees them. -/
abbrev components : Interface where
  Call := ServerCall
  Answer c := Except PyError c.Result

/-- A part of a request, up to its response or an exception. -/
abbrev Action := Program components (Except PyError Obj)

/-- Call a method and go on with what it returns; what it raises goes
through. -/
def invoke (c : ServerCall) (k : c.Result → Action) : Action :=
  .call (I := components) c fun
    | .error e => .done (.error e)
    | .ok r => k r

theorem run_invoke {χ : Type} (H : Handler components χ) (c : ServerCall) (k : c.Result → Action)
    (state : χ) : (invoke c k).run H state =
      match (H c state).1 with
      | .error e => (.error e, (H c state).2)
      | .ok r => (k r).run H (H c state).2 := by
  simp only [invoke, Program.run_call]
  split <;> rfl

def respond (response : Obj) : Action := .done (.ok response)

def raise (e : PyError) : Action := .done (.error e)

/-! ## The server -/

structure NodeServer where
  nodeId : String
  nodeType : String
  raft : RaftNode
  failureDetector : FailureDetector

/-- The keys in the environment. -/
structure Keys where
  admin : String
  producer : String
  consumer : String

/-- `msg_type in ["request_vote", …, "append_entries"]`. -/
def isRaftType (msgType : Json) : Bool :=
  msgType.isIn [.str "request_vote", .str "vote_response", .str "heartbeat", .str "append_entries"]

/-- `is_internal_msg`. -/
def isInternalType (msgType : Json) : Bool :=
  msgType.isIn [.str "request_vote", .str "vote_response", .str "heartbeat", .str "append_entries",
    .str "fd_heartbeat"]

/-- `s.startswith(prefix)`. -/
def startsWith (s pre : String) : Bool := pre.toList.isPrefixOf s.toList

/-- The RBAC check: whether the request may go on. Only a string has
`startswith`, and the admin key is looked at before. -/
def authorize (keys : Keys) (msgType action token : Json) : Except PyError Bool :=
  if isInternalType msgType || !action.truthy then .ok true
  else if token.pyEq (.str keys.admin) then .ok true
  else
    match action with
    | .str a => .ok (
        startsWith a "queue_enqueue" && token.pyEq (.str keys.producer) ||
        startsWith a "queue_dequeue" && token.pyEq (.str keys.consumer) ||
        startsWith a "cache_read" && token.isIn [.str keys.producer, .str keys.consumer])
    | _ => .error .attributeError

/-! ## The actions -/

/-- `str.upper` on the letters that become ASCII capitals. -/
def upperChar (c : Char) : Char :=
  if c = 'ſ' then 'S' else if c = 'ı' then 'I' else c.toUpper

/-- `LockType[lock_type_str.upper()]`, with EXCLUSIVE on any exception. -/
def parseLockType : Json → LockType
  | .str s => if s.toList.map upperChar = "SHARED".toList then .shared else .exclusive
  | _ => .exclusive

def lockAcquire (request : Obj) : Action :=
  let resource := Obj.get request "resource" (.str "")
  invoke (.acquireLock resource (parseLockType (Obj.get request "lock_type" (.str "EXCLUSIVE")))
    (Obj.get request "client_id" (.str "")) (Obj.get request "timeout" (.int 30))) fun result =>
  respond [("success", Obj.get result "success" (.bool false)), ("resource", resource),
    ("request_id", Obj.get result "request_id" (.str ""))]

def lockRelease (request : Obj) : Action :=
  let resource := Obj.get request "resource" (.str "")
  invoke (.releaseLock resource (Obj.get request "client_id" (.str ""))) fun result =>
  respond [("success", Obj.get result "success" (.bool false)), ("resource", resource)]

def lockStatus (request : Obj) : Action :=
  invoke (.getLockStatus (Obj.get request "resource" (.str ""))) respond

def allLocks : Action :=
  invoke .getAllLocks fun locks => respond [("locks", .arr locks)]

def queueEnqueue (request : Obj) : Action :=
  invoke (.enqueue (Obj.get request "topic" (.str "")) (Obj.get request "payload" (.str ""))
    (Obj.get request "producer_id" (.str ""))) respond

/-- `result or {"empty": True, "msg_id": None, "payload": None}`. -/
def dequeueResponse (result : Option Obj) : Obj :=
  match result with
  | some (e :: rest) => e :: rest
  | _ => [("empty", .bool true), ("msg_id", .null), ("payload", .null)]

def queueDequeue (request : Obj) : Action :=
  invoke (.dequeue (Obj.get request "topic" (.str "")) (Obj.get request "consumer_id" (.str ""))
    (Obj.get request "timeout" (.int 30))) fun result =>
  respond (dequeueResponse result)

def queueAck (request : Obj) : Action :=
  invoke (.acknowledge (Obj.get request "msg_id" (.str ""))
    (Obj.get request "consumer_id" (.str ""))) respond

def queueStats : Action := invoke .getQueueStats respond

/-- `data.decode() if data else None`. -/
def decodeData (data : Option ByteArray) : Except PyError Json :=
  match data with
  | none => .ok .null
  | some bytes =>
      if bytes.isEmpty then .ok .null
      else
        match String.fromUTF8? bytes with
        | some s => .ok (.str s)
        | none => .error .valueError

def cacheRead (request : Obj) : Action :=
  let address := Obj.get request "address" (.int 0)
  invoke (.cacheRead address (Obj.get request "requestor_id" (.str ""))) fun data =>
  match decodeData data with
  | .ok value => respond [("address", address), ("data", value)]
  | .error e => raise e

/-- Only a string has `encode`. -/
def cacheWrite (request : Obj) : Action :=
  let address := Obj.get request "address" (.int 0)
  match Obj.get request "data" (.str "") with
  | .str s =>
      invoke (.cacheWrite address s.toUTF8 (Obj.get request "writer_id" (.str ""))) fun result =>
      respond [("success", .bool result), ("address", address)]
  | _ => raise .attributeError

def cacheStats : Action := invoke .getCacheStats respond

def getStatus (s : NodeServer) : Action :=
  invoke .locksHeld fun (locksHeld : Nat) =>
  invoke .getQueueStats fun queueStats =>
  invoke .getCacheStats fun cacheStats =>
  respond [("node_id", .str s.nodeId), ("node_type", .str s.nodeType),
    ("raft_state", .obj s.raft.getState), ("locks_held", .int locksHeld),
    ("queue_stats", .obj queueStats), ("cache_stats", .obj cacheStats),
    ("failure_stats", .obj s.failureDetector.getStats)]

/-- The chain of `process_request` on the action. -/
def performAction (s : NodeServer) (request : Obj) : Action :=
  let action := Obj.get request "action" .null
  if action.pyEq (.str "lock_acquire") then lockAcquire request
  else if action.pyEq (.str "lock_release") then lockRelease request
  else if action.pyEq (.str "lock_status") then lockStatus request
  else if action.pyEq (.str "get_all_locks") then allLocks
  else if action.pyEq (.str "queue_enqueue") then queueEnqueue request
  else if action.pyEq (.str "queue_dequeue") then queueDequeue request
  else if action.pyEq (.str "queue_ack") then queueAck request
  else if action.pyEq (.str "queue_stats") then queueStats
  else if action.pyEq (.str "cache_read") then cacheRead request
  else if action.pyEq (.str "cache_write") then cacheWrite request
  else if action.pyEq (.str "cache_stats") then cacheStats
  else if action.pyEq (.str "get_status") then getStatus s
  else if action.pyEq (.str "heartbeat") then
    respond [("status", .str "alive"), ("node_id", .str s.nodeId)]
  else respond [("error", .str "unknown_action"), ("received_action", action)]

/-! ## A request -/

/-- What a request leaves: the server, the tasks its Raft node started
and the reply, if one was written. -/
structure Served where
  server : NodeServer
  spawned : List SendTask
  reply : Option Obj

/-- `raft.handle_message(request)`, and the reply if it does not raise. -/
def serveRaft (s : NodeServer) (request : Obj) (reply : RaftNode → Obj) : Served :=
  let r := s.raft.handleMessage request
  { server := { s with raft := r.node }
    spawned := r.spawned
    reply := if r.raised.isNone then some (reply r.node) else none }

/-- `process_request`, with an exception as no reply. -/
def processRequest (s : NodeServer) (request : Obj) : Program components Served :=
  if Obj.has request "type" && isRaftType (Obj.get request "type" .null) then
    .done (serveRaft s request fun n => [("raft_response", .bool true), ("state", .obj n.getState)])
  else (performAction s request).map fun response => ⟨s, [], response.toOption⟩

/-- `_handle_request`, from the decoded request on. -/
def handleRequest (keys : Keys) (s : NodeServer) (now : Rat) (request : Obj) :
    Program components Served :=
  let msgType := Obj.get request "type" (.str "")
  let action := Obj.get request "action" (.str "")
  let token := Obj.get request "token" (.str "")
  match authorize keys msgType action token with
  | .error _ => .done ⟨s, [], none⟩
  | .ok false =>
      .done ⟨s, [], some [("error", .str "Unauthorized"), ("message", .str "Invalid RBAC token")]⟩
  | .ok true =>
      if isRaftType msgType then .done (serveRaft s request fun _ => [("raft_ok", .bool true)])
      else if msgType.pyEq (.str "fd_heartbeat") then
        match s.failureDetector.handleHeartbeat (Obj.get request "sender" (.str "")) now with
        | .error _ => .done ⟨s, [], none⟩
        | .ok d => .done ⟨{ s with failureDetector := d }, [], some [("fd_ok", .bool true)]⟩
      else processRequest s request

end SyncSystem.Server
