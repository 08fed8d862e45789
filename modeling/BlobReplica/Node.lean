import BlobReplica.Cache
import BlobReplica.Recovery.Queue

/-! The state of a node: its cache, the blobs that wait for recovery, and counts of the datagrams
that came in. -/

namespace BlobReplica

structure Counters where
  datagrams : Nat := 0
  malformed : Nat := 0
  rejected : Nat := 0
  completed : Nat := 0
  invalid : Nat := 0
deriving DecidableEq, Repr

structure Node where
  cache : Cache := .empty
  queue : Recovery.Queue
  counters : Counters := {}

namespace Node

def empty (grace : Millis) : Node :=
  { queue := { grace } }

/-- Puts a changed blob where its former state is held, in the cache and in the queue. -/
def update (n : Node) (b : Blob) : Node :=
  { n with cache := n.cache.update b, queue := n.queue.update b }

def withCache (n : Node) (cache : Cache) : Node :=
  { n with cache }

def dequeue (n : Node) (version : VersionId) : Node :=
  { n with queue := (n.queue.remove version).1 }

def enqueue (n : Node) (b : Blob) : Node :=
  { n with queue := (n.queue.enqueue b).1 }

end Node
end BlobReplica
