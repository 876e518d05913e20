/-
SyncSystem.Server.CacheCluster — servers that are each other's peers, with
the messages of their caches.

A step is one cache request at a server, the delivery of a message in
flight to the server that listens on its port, through the same
`_handle_request`, or a pass of a server's cache cleanup. A message is in
flight from the moment its task is created until it is delivered.
Messages of the Raft nodes carry no cache operation and are left out.
-/
import SyncSystem.Machine.Runs
import SyncSystem.Raft.Cluster
import SyncSystem.Server.Components

namespace SyncSystem.Server

open SyncSystem.Python
open SyncSystem.Cache
open SyncSystem.Raft (ClusterConfig Packet peerPort)

variable {N : Nat} {ω : Type}

/-- What does not change in a cluster: the addresses, the keys, the cache
parameters and the components other than the caches. -/
structure ClusterSetup (N : Nat) (ω : Type) extends ClusterConfig N where
  keys : Keys
  nodeType : String
  maxSize : Nat
  ttl : Rat
  other : Handler components ω
  rest : ω

structure CacheCluster (N : Nat) (ω : Type) where
  servers : Fin N → NodeServer
  comps : Fin N → Components ω
  net : List Packet

inductive CacheAction (N : Nat) where
  /-- A client sends node `i` a cache request. -/
  | request (i : Fin N) (now : Rat) (request : Obj)
  /-- The `k`-th message in flight reaches node `i`. -/
  | deliver (i : Fin N) (k : Nat) (now : Rat)
  | cleanup (i : Fin N) (now : Rat)

/-- `action` is `cache_read` or `cache_write`. -/
def isCacheRequest (request : Obj) : Bool :=
  (Obj.get request "action" (.str "")).isIn [.str "cache_read", .str "cache_write"]

/-- The address of a request. -/
def requestKey (request : Obj) : Except PyError Key := (Obj.get request "address" (.int 0)).key

/-- The client is told that its write has been done. -/
def writeDone (request : Obj) (served : Served) : Bool :=
  (Obj.get request "action" (.str "")).pyEq (.str "cache_write") &&
    served.reply.any (fun reply => (Obj.get reply "success" (.bool false)).truthy)

namespace CacheCluster

def init (C : ClusterSetup N ω) (now : Rat) : CacheCluster N ω where
  servers i :=
    { nodeId := C.nodeId i
      nodeType := C.nodeType
      raft := .init (C.nodeId i) (C.peers i) (C.port i)
      failureDetector := .init (C.nodeId i) (C.peers i) 30 now }
  comps i := ⟨.init (C.nodeId i) (C.peers i) C.maxSize C.ttl, C.rest⟩
  net := []

/-- The packets of the tasks a cache has created. -/
def packets (outbox : List (String × CacheMessage Key)) : List Packet :=
  outbox.filterMap (fun e => (peerPort e.1).map (⟨·, e.2.body⟩))

/-- Node `i` takes over the outcome of a request; its messages are in
flight. -/
def update (s : CacheCluster N ω) (i : Fin N) (server : NodeServer) (comp : Components ω) :
    CacheCluster N ω where
  servers := Function.update s.servers i server
  comps := Function.update s.comps i { comp with cache := { comp.cache with outbox := [] } }
  net := s.net ++ packets comp.cache.outbox

/-- Node `i` runs `_handle_request`. -/
def handle (C : ClusterSetup N ω) (s : CacheCluster N ω) (i : Fin N) (now : Rat)
    (request : Obj) : Served × Components ω :=
  (handleRequest C.keys (s.servers i) now request).run (cacheHandler C.other now) (s.comps i)

/-- The steps; the output is the writes that have been done. -/
def step (C : ClusterSetup N ω) (s : CacheCluster N ω) :
    CacheAction N → Option (CacheCluster N ω × List (Fin N × Key))
  | .request i now request =>
      if isCacheRequest request then
        let (served, comp) := s.handle C i now request
        let done := if writeDone request served then (requestKey request).toOption.toList else []
        some (s.update i served.server comp, done.map (fun a => (i, a)))
      else none
  | .deliver i k now =>
      match s.net[k]? with
      | none => none
      | some pkt =>
          if pkt.port = C.port i then
            let (served, comp) := s.handle C i now pkt.msg
            some ({ s with net := s.net.eraseIdx k }.update i served.server comp, [])
          else none
  | .cleanup i now =>
      some (s.update i (s.servers i)
        { s.comps i with cache := (s.comps i).cache.cleanup now }, [])

def machine (C : ClusterSetup N ω) :
    Machine (CacheCluster N ω) (CacheAction N) (List (Fin N × Key)) := ⟨step C⟩

/-- The cache table of node `i`. -/
def table (s : CacheCluster N ω) (i : Fin N) : Dict Key (CacheLine Key ByteArray) :=
  (s.comps i).cache.cache

end CacheCluster

end SyncSystem.Server
