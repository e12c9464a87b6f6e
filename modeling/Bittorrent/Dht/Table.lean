import Bittorrent.Dht.Node

/-!
The routing table. A bucket holds eight entries, which start out as placeholders that never
responded. Adding a node to a full last bucket splits it and adds its entries again, which may
split further; the recursion is cut by fuel, and as many rounds as there can be buckets suffice.
-/
namespace DhtTable
open Rust UtilSha DhtNode

def maxBucketSize : Nat := 8

def maxBuckets : Nat := shaHashLen * 8

def placeholder : Node := Node.asBad ⟨Vector.replicate shaHashLen 0⟩ (.v4 127 0 0 1 0)

structure Bucket where
  nodes : List Node
  size : nodes.length = maxBucketSize

def Bucket.new : Bucket := ⟨List.replicate maxBucketSize placeholder, by simp⟩

def Bucket.replace (b : Bucket) (index : Nat) (node : Node) : Bucket :=
  ⟨b.nodes.set index node, by simp [b.size]⟩

structure RoutingTable where
  buckets : List Bucket
  nodeId : NodeId

def RoutingTable.new (nodeId : NodeId) : RoutingTable := ⟨[Bucket.new], nodeId⟩

def leadingBitCount (localNode remoteNode : NodeId) : Nat :=
  ((bitXor localNode remoteNode).bits.takeWhile (· = .unset)).length

section Adding
variable {ε : Type}

/-- `position(|node| node.status() < status)`, from an index on. -/
def lowerPosition (status : NodeStatus) : Nat → List Node → Timed ε (Option Nat)
  | _, [] => pure none
  | index, node :: rest => do
    let s ← node.status
    if s.rank < status.rank then pure (some index) else lowerPosition status (index + 1) rest

/-- False if the bucket is full. -/
def Bucket.addNode (b : Bucket) (newNode : Node) : Timed ε (Bool × Bucket) := do
  let newStatus ← newNode.status
  if newStatus = .bad then
    pure (true, b)
  else
    match b.nodes.findIdx? fun node => node.handle = newNode.handle with
    | some index =>
      match b.nodes[index]? with
      | some other => do
        let otherStatus ← other.status
        if otherStatus.rank ≤ newStatus.rank then
          pure (true, b.replace index newNode)
        else
          pure (true, b)
      | none => Action.abort
    | none => do
      match ← lowerPosition newStatus 0 b.nodes with
      | some index => pure (true, b.replace index newNode)
      | none => pure (false, b)

def canSplitBucket (numBuckets bucketIndex : Nat) : Bool :=
  bucketIndex = numBuckets - 1 ∧ bucketIndex ≠ maxBuckets - 1

def bucketPlacement (numSameBits numBuckets : Nat) : Nat :=
  if numBuckets ≤ numSameBits then numBuckets - 1 else numSameBits

namespace RoutingTable

section Circle
variable (bucketNode : RoutingTable → Node → Nat → Timed ε RoutingTable)

/-- `add_node` with the `bucket_node` it calls. -/
def addNodeWith (t : RoutingTable) (node : Node) : Timed ε RoutingTable := do
  let s ← node.status
  if s = .bad then
    pure t
  else
    let numSameBits := leadingBitCount t.nodeId node.id
    if numSameBits ≠ maxBuckets then bucketNode t node numSameBits else pure t

def addNodesWith : RoutingTable → List Node → Timed ε RoutingTable
  | t, [] => pure t
  | t, node :: rest => do
    let t ← addNodeWith bucketNode t node
    addNodesWith t rest

def splitBucketWith (t : RoutingTable) (bucketIndex : Nat) : Timed ε (Bool × RoutingTable) :=
  if canSplitBucket t.buckets.length bucketIndex then
    match t.buckets.getLast? with
    | none => Action.abort
    | some bucket => do
      let t ← addNodesWith bucketNode
        { t with buckets := t.buckets.dropLast ++ [Bucket.new, Bucket.new] } bucket.nodes
      pure (true, t)
  else
    pure (false, t)

end Circle

def bucketNode : Nat → RoutingTable → Node → Nat → Timed ε RoutingTable
  | 0, _, _, _ => Action.cutOff
  | fuel + 1, t, node, numSameBits => do
    let bucketIndex := bucketPlacement numSameBits t.buckets.length
    match t.buckets[bucketIndex]? with
    | none => Action.abort
    | some bucket => do
      let (placed, bucket) ← bucket.addNode node
      let t := { t with buckets := t.buckets.set bucketIndex bucket }
      if placed then
        pure t
      else do
        let (split, t) ← splitBucketWith (bucketNode fuel) t bucketIndex
        if split then bucketNode fuel t node numSameBits else pure t

def addNode (t : RoutingTable) (node : Node) : Timed ε RoutingTable :=
  addNodeWith (bucketNode maxBuckets) t node

def addNodes (t : RoutingTable) (nodes : List Node) : Timed ε RoutingTable :=
  addNodesWith (bucketNode maxBuckets) t nodes

/-- The `expect` on the number of buckets is a panic. -/
def bucketIndexForNode (t : RoutingTable) (nodeId : NodeId) : Outcome ε Nat :=
  let bucketIndex := leadingBitCount t.nodeId nodeId
  if bucketIndex < t.buckets.length then .ok bucketIndex
  else if t.buckets.length = 0 then .panic
  else .ok (t.buckets.length - 1)

/-- `pingable_nodes_mut().find(|n| n.handle() == node)`: the index of the node. The filter asks
    for the status of every node it passes. -/
def findPingable (handle : NodeHandle) : Nat → List Node → Timed ε (Option (Nat × Node))
  | _, [] => pure none
  | index, node :: rest => do
    let pingable ← node.isPingable
    if pingable ∧ node.handle = handle then
      pure (some (index, node))
    else
      findPingable handle (index + 1) rest

/-- `find_node_mut` followed by a change of the node that was found, if any. -/
def updateNode (t : RoutingTable) (handle : NodeHandle) (change : Node → Timed ε Node) :
    Timed ε RoutingTable := do
  let bucketIndex ← Action.lift (t.bucketIndexForNode handle.id)
  match t.buckets[bucketIndex]? with
  | none => pure t
  | some bucket => do
    match ← findPingable handle 0 bucket.nodes with
    | none => pure t
    | some (index, node) => do
      let node ← change node
      pure { t with buckets := t.buckets.set bucketIndex (bucket.replace index node) }

end RoutingTable

end Adding

end DhtTable
