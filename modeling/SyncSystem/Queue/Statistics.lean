/-
SyncSystem.Queue.Statistics — what `get_queue_stats` reads and returns.

It counts entries and looks into none of them, so the messages are of any
type here. A set of JSON values has hashable elements.
-/
import SyncSystem.Python.Dict
import SyncSystem.Python.Key

namespace SyncSystem.Queue

open SyncSystem.Python

structure QueueTables (μ : Type) where
  nodeId : String
  localQueues : Dict String (List μ)
  /-- The `asyncio.Event`s, by number. -/
  pendingAck : Dict String Nat
  producers : Dict Key Unit
  consumers : Dict Key Unit

/-- `get_queue_stats`. -/
def QueueTables.getQueueStats {μ : Type} (q : QueueTables μ) : Obj :=
  [("node_id", .str q.nodeId),
   ("total_messages", .int (q.localQueues.values.map List.length).sum),
   ("partitions", .obj (q.localQueues.entries.map fun e => (e.1, .int e.2.length))),
   ("producers", .int q.producers.size),
   ("consumers", .int q.consumers.size),
   ("pending_acks", .int q.pendingAck.size)]

end SyncSystem.Queue
