/-
SyncSystem.Server.Components — the cache behind a server, and what it
puts on the wire.

The addresses of the cache are whatever JSON value a request carries,
used as dictionary keys. The lock manager and the queue stay abstract: a
state of any type with a handler of its own.
-/
import SyncSystem.Cache.Node
import SyncSystem.Python.Key
import SyncSystem.Server.Request

namespace SyncSystem.Cache

open SyncSystem.Python

/-- The value of the enum member. -/
def CacheState.value : CacheState → String
  | .modified => "M"
  | .owned => "O"
  | .exclusive => "E"
  | .shared => "S"
  | .invalid => "I"

/-- The dict that is sent. -/
def CacheMessage.body : CacheMessage Key → Obj
  | .cacheReadRequest address requestor =>
      [("type", .str "cache_read_request"), ("address", address.value),
       ("requestor", .str requestor)]
  | .snoop address operation source =>
      [("type", .str "snoop"), ("address", address.value), ("operation", .str operation),
       ("source", .str source)]
  | .invalidate address source =>
      [("type", .str "invalidate"), ("address", address.value), ("source", .str source)]
  | .upgradeRequest address source =>
      [("type", .str "upgrade_request"), ("address", address.value), ("source", .str source)]

/-- `hex(addr)`: only an integer has one. -/
def hex : Json → Except PyError String
  | .int n => .ok ((if n < 0 then "-0x" else "0x") ++ String.ofList (Nat.toDigits 16 n.natAbs))
  | .bool b => .ok (if b then "0x1" else "0x0")
  | _ => .error .typeError

/-- `{hex(addr): line.state.value for …}`. -/
def statesOf {δ : Type} : List (Key × CacheLine Key δ) → Except PyError Obj
  | [] => .ok []
  | (address, line) :: rest => do
      let name ← hex address.value
      let others ← statesOf rest
      return (name, .str line.state.value) :: others

/-- `get_cache_stats`. -/
def CacheNode.getCacheStats {δ : Type} (n : CacheNode Key δ) : Except PyError Obj := do
  let states ← statesOf n.cache.entries
  return [("node_id", .str n.nodeId), ("cache_size", .int n.cache.size),
    ("max_size", .int n.maxSize), ("hits", .int n.hitCount), ("misses", .int n.missCount),
    ("hit_rate",
      if n.hitCount + n.missCount > 0 then .float (n.hitCount / (n.hitCount + n.missCount))
      else .int 0),
    ("invalidations", .int n.invalidationCount), ("states", .obj states)]

end SyncSystem.Cache

namespace SyncSystem.Server

open SyncSystem.Python
open SyncSystem.Cache

/-- The component states of one server; `rest` is the lock manager and
the queue. -/
structure Components (ω : Type) where
  cache : CacheNode Key ByteArray
  rest : ω

/-- The cache answers its own calls. An unhashable address raises at the
first look into the table. -/
def cacheHandler {ω : Type} (other : Handler components ω) (now : Rat) :
    Handler components (Components ω)
  | .cacheRead address _, s =>
      match address.key with
      | .error e => (.error e, s)
      | .ok a => (.ok (s.cache.read a).2, { s with cache := (s.cache.read a).1 })
  | .cacheWrite address data _, s =>
      match address.key with
      | .error e => (.error e, s)
      | .ok a => ((s.cache.write a data now).2, { s with cache := (s.cache.write a data now).1 })
  | .getCacheStats, s => (s.cache.getCacheStats, s)
  | c, s => ((other c s.rest).1, { s with rest := (other c s.rest).2 })

end SyncSystem.Server
