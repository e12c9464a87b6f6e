import Bittorrent.Dht.Placement

/-!
The two ways to find a node by its handle. `find_node_mut` goes to the bucket by its index.
`find_node` takes the item of the bucket iterator at that index, which for the nodes of the last
bucket is an empty marker as long as not all buckets are there.
-/
namespace DhtFinders
open Rust DhtNode DhtTable DhtPlacement

inductive BucketContents where
  | empty
  | sorted (bucket : Bucket)
  | assorted (bucket : Bucket)

def BucketContents.isAssorted : BucketContents → Bool
  | .assorted _ => true
  | _ => false

def BucketContents.bucket : BucketContents → Option Bucket
  | .empty => none
  | .sorted b => some b
  | .assorted b => some b

/-- What the iterator gives at an index below `MAX_BUCKETS`. -/
def bucketContents (buckets : List Bucket) (index : Nat) : BucketContents :=
  if index + 1 < buckets.length ∨ buckets.length = maxBuckets then
    match buckets[index]? with
    | some b => .sorted b
    | none => .empty
  else .empty

def bucketsOf (buckets : List Bucket) : List BucketContents :=
  (List.range maxBuckets).map (bucketContents buckets) ++
    if buckets.length = maxBuckets then [] else (buckets.getLast?.map .assorted).toList

section Finding
open List
variable {ε : Type}

/-- `pingable_nodes().find(..)` in the bucket that was chosen. -/
def findIn (handle : NodeHandle) : Option Bucket → Timed ε (Option Node)
  | some b => do
    let found ← RoutingTable.findPingable handle 0 b.nodes
    pure (found.map (·.2))
  | none => pure none

/-- The node is given, and compared, by its handle. -/
def findNode (t : RoutingTable) (node : NodeHandle) : Timed ε (Option Node) :=
  let bucketIndex := leadingBitCount t.nodeId node.id
  let optBucketContents := (bucketsOf t.buckets)[bucketIndex]?.or
    ((bucketsOf t.buckets).find? BucketContents.isAssorted)
  findIn node (optBucketContents.bind BucketContents.bucket)

def Holds (now : Instant) (handle : NodeHandle) (b : Bucket) : Prop :=
  ∃ n ∈ b.nodes, n.isPingableAt now ∧ n.handle = handle

variable {t : RoutingTable} {now : Instant} {handle : NodeHandle}

end Finding

end DhtFinders
