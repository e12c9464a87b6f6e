import Bittorrent.Dht.Placement
import Bittorrent.Lib.Successor

/-!
The iterator over the nodes closest to a target. It visits 160 bucket positions in a zig-zag from
the position of the target. A position has the nodes of its own bucket if that bucket exists, and
otherwise those nodes of the last bucket that would be in it.
-/
namespace DhtClosest
open Rust DhtNode DhtTable Successor

def checkedAdd (a b : Nat) : Option Nat := if a + b ≤ usizeMax then some (a + b) else none

def checkedSub (a b : Nat) : Option Nat := if b ≤ a then some (a - b) else none

def indexIsInBounds (length : Nat) : Option Nat → Bool
  | some index => index < length
  | none => false

def firstInBounds (length : Nat) (first second : Option Nat) : Option Nat :=
  if indexIsInBounds length first then first
  else if indexIsInBounds length second then second
  else none

def nextBucketIndex (numBuckets startIndex currIndex : Nat) : Option Nat :=
  if currIndex = startIndex then
    firstInBounds numBuckets (checkedAdd startIndex 1) (checkedSub startIndex 1)
  else if startIndex < currIndex then
    let offset := currIndex - startIndex
    firstInBounds numBuckets (checkedSub startIndex offset) (checkedAdd currIndex 1)
  else
    let offset := startIndex - currIndex + 1
    firstInBounds numBuckets (checkedAdd startIndex offset) (checkedSub currIndex 1)

/-- When a position is visited: right and left of the start in turn, nearest first. -/
def visitKey (startIndex index : Nat) : Nat :=
  if startIndex < index then 2 * (index - startIndex) - 1 else 2 * (startIndex - index)

theorem checked_add_small {a b : Nat} (small : a + b ≤ 2 ^ 32) : checkedAdd a b = some (a + b) := by
  have large : 2 ^ 32 ≤ usizeMax := by decide
  exact if_pos (Nat.le_trans small large)

theorem first_in_bounds {length a : Nat} {second : Option Nat} :
    firstInBounds length (some a) second =
      if a < length then some a else if indexIsInBounds length second then second else none := by
  simp [firstInBounds, indexIsInBounds]

theorem checked_sub_bounds {length a b : Nat} (inside : a ≤ length) (step : 1 ≤ b) :
    (if indexIsInBounds length (checkedSub a b) then checkedSub a b else none) =
      if b ≤ a then some (a - b) else none := by
  unfold checkedSub
  by_cases enough : b ≤ a
  · simp only [if_pos enough, indexIsInBounds]
    rw [if_pos]
    simp only [decide_eq_true_eq]
    omega
  · simp [enough, indexIsInBounds]

section Zigzag
variable {numBuckets startIndex : Nat}

variable {c : Nat}

theorem next_on_right (small : numBuckets ≤ 2 ^ 16) (right : startIndex < c)
    (inside : c < numBuckets) :
    nextBucketIndex numBuckets startIndex c =
      if c - startIndex ≤ startIndex then some (startIndex - (c - startIndex))
      else if c + 1 < numBuckets then some (c + 1) else none := by
  unfold nextBucketIndex firstInBounds
  rw [if_neg (by omega), if_pos right, checked_add_small (by omega)]
  unfold checkedSub
  by_cases mirrored : c - startIndex ≤ startIndex
  · simp only [if_pos mirrored, indexIsInBounds, decide_eq_true_eq]
    rw [if_pos (by omega)]
  · simp [mirrored, indexIsInBounds]

theorem next_on_left (start : startIndex ≤ numBuckets) (small : numBuckets ≤ 2 ^ 16)
    (left : c ≤ startIndex) :
    nextBucketIndex numBuckets startIndex c =
      if startIndex + (startIndex - c + 1) < numBuckets then some (startIndex + (startIndex - c + 1))
      else if 1 ≤ c then some (c - 1) else none := by
  unfold nextBucketIndex
  rcases Nat.eq_or_lt_of_le left with rfl | before
  · rw [if_pos rfl, Nat.sub_self, checked_add_small (by omega), first_in_bounds,
      checked_sub_bounds start (Nat.le_refl 1)]
  · rw [if_neg (by omega), if_neg (by omega)]
    dsimp only
    rw [checked_add_small (by omega), first_in_bounds,
      checked_sub_bounds (by omega) (Nat.le_refl 1)]

theorem visit_key_cases (startIndex index : Nat) :
    startIndex < index ∧ visitKey startIndex index = 2 * (index - startIndex) - 1 ∨
    index ≤ startIndex ∧ visitKey startIndex index = 2 * (startIndex - index) := by
  unfold visitKey
  split <;> omega

/-- The step goes to the position with the next larger key, and stops at the largest. -/
theorem next_bucket_index_cases (start : startIndex ≤ numBuckets) (small : numBuckets ≤ 2 ^ 16)
    (known : c = startIndex ∨ c < numBuckets) :
    (∃ d, nextBucketIndex numBuckets startIndex c = some d ∧ d < numBuckets ∧
      visitKey startIndex c < visitKey startIndex d ∧
      ∀ e < numBuckets, visitKey startIndex c < visitKey startIndex e →
        visitKey startIndex d ≤ visitKey startIndex e) ∨
    (nextBucketIndex numBuckets startIndex c = none ∧
      ∀ e < numBuckets, visitKey startIndex e ≤ visitKey startIndex c) := by
  have keyC := visit_key_cases startIndex c
  by_cases left : c ≤ startIndex
  · have step := next_on_left start small left
    split at step
    · rename_i further
      have keyD := visit_key_cases startIndex (startIndex + (startIndex - c + 1))
      refine .inl ⟨_, step, further, by omega, fun e inside larger => ?_⟩
      have keyE := visit_key_cases startIndex e
      omega
    · split at step
      · have keyD := visit_key_cases startIndex (c - 1)
        refine .inl ⟨_, step, by omega, by omega, fun e inside larger => ?_⟩
        have keyE := visit_key_cases startIndex e
        omega
      · refine .inr ⟨step, fun e inside => ?_⟩
        have keyE := visit_key_cases startIndex e
        omega
  · have inside : c < numBuckets := by omega
    have step := next_on_right small (Nat.lt_of_not_le left) inside
    split at step
    · have keyD := visit_key_cases startIndex (startIndex - (c - startIndex))
      refine .inl ⟨_, step, by omega, by omega, fun e inside larger => ?_⟩
      have keyE := visit_key_cases startIndex e
      omega
    · split at step
      · rename_i further
        have keyD := visit_key_cases startIndex (c + 1)
        refine .inl ⟨_, step, further, by omega, fun e inside larger => ?_⟩
        have keyE := visit_key_cases startIndex e
        omega
      · refine .inr ⟨step, fun e inside => ?_⟩
        have keyE := visit_key_cases startIndex e
        omega

/-- The zig-zag visits every position once. -/
theorem next_bucket_index_enumerates (start : startIndex ≤ numBuckets)
    (small : numBuckets ≤ 2 ^ 16) :
    Enumerates (nextBucketIndex numBuckets startIndex) (visitKey startIndex) (· < numBuckets)
      startIndex (2 * numBuckets) := by
  constructor
  · intro c d known following
    rcases next_bucket_index_cases start small known with ⟨d', step, goes⟩ | ⟨step, _⟩
    · rw [step] at following
      cases following
      exact goes
    · rw [step] at following
      cases following
  · intro c known last
    rcases next_bucket_index_cases start small known with ⟨d', step, _⟩ | ⟨_, largest⟩
    · rw [step] at last
      cases last
    · exact largest
  · intro d e _ _ same
    unfold visitKey at same
    split at same <;> split at same <;> omega
  · intro e valid
    unfold visitKey
    split <;> omega

end Zigzag

/-- `current_iter` is what is left of the iterator over a bucket; an assorted node comes with its
    bucket index and a mark that it was returned before. -/
structure ClosestNodes where
  buckets : List Bucket
  currentIter : Option (List Node)
  currentIndex : Nat
  startIndex : Nat
  assortedNodes : Option (List (Nat × Node × Bool))

def bucketIterator (buckets : List Bucket) (index : Nat) : Option (List Node) :=
  ((if buckets.length = maxBuckets then buckets else buckets.take (buckets.length - 1))[index]?).map
    (·.nodes)

def precomputeAssortedNodes (buckets : List Bucket) (selfNodeId : NodeId) :
    Option (List (Nat × Node × Bool)) :=
  if buckets.length = maxBuckets then none
  else buckets.getLast?.map fun bucket =>
    bucket.nodes.map fun node => (leadingBitCount selfNodeId node.id, node, false)

section Iteration
variable {ε : Type}

/-- Indexing the last of no buckets panics. -/
def ClosestNodes.new (buckets : List Bucket) (selfNodeId otherNodeId : NodeId) :
    Outcome ε ClosestNodes :=
  let startIndex := leadingBitCount selfNodeId otherNodeId
  if buckets = [] then .panic
  else .ok {
    buckets := buckets
    currentIter := bucketIterator buckets startIndex
    currentIndex := startIndex
    startIndex := startIndex
    assortedNodes := precomputeAssortedNodes buckets selfNodeId }

/-- The filter iterator over the rest of a bucket. -/
def nextGood : List Node → Timed ε (Option Node × List Node)
  | [] => pure (none, [])
  | node :: rest => do
    let good ← node.isPingable
    if good then pure (some node, rest) else nextGood rest

/-- The first assorted node of this index that is good and was not returned, and the array with
    its mark set. -/
def findAssorted (index : Nat) : List (Nat × Node × Bool) →
    Timed ε (Option Node × List (Nat × Node × Bool))
  | [] => pure (none, [])
  | (i, node, returned) :: rest => do
    let good ← node.isPingable
    if good ∧ i = index ∧ returned = false then
      pure (some node, (i, node, true) :: rest)
    else do
      let (found, rest) ← findAssorted index rest
      pure (found, (i, node, returned) :: rest)

namespace ClosestNodes

def fromBucket (s : ClosestNodes) : Timed ε (Option Node × ClosestNodes) :=
  match s.currentIter with
  | some nodes => do
    let (found, rest) ← nextGood nodes
    pure (found, { s with currentIter := some rest })
  | none => pure (none, s)

def fromAssorted (s : ClosestNodes) : Timed ε (Option Node × ClosestNodes) :=
  match s.assortedNodes with
  | some nodes => do
    let (found, nodes) ← findAssorted s.currentIndex nodes
    pure (found, { s with assortedNodes := some nodes })
  | none => pure (none, s)

def moveTo (s : ClosestNodes) (index : Nat) : ClosestNodes :=
  { s with currentIndex := index, currentIter := bucketIterator s.buckets index }

/-- The two sources of nodes at the current position. -/
def visit (s : ClosestNodes) : Timed ε (Option Node × ClosestNodes) := do
  match ← s.fromBucket with
  | (some node, s) => pure (some node, s)
  | (none, s) => s.fromAssorted

/-- `next`, with a bound on how many positions it moves through. -/
def nextWithin : Nat → ClosestNodes → Timed ε (Option Node × ClosestNodes)
  | 0, _ => Action.cutOff
  | fuel + 1, s => do
    match ← s.visit with
    | (some node, s) => pure (some node, s)
    | (none, s) =>
      match nextBucketIndex maxBuckets s.startIndex s.currentIndex with
      | some index => nextWithin fuel (s.moveTo index)
      | none => pure (none, s)

def next (s : ClosestNodes) : Timed ε (Option Node × ClosestNodes) :=
  nextWithin (2 * maxBuckets + 1) s

def take : Nat → ClosestNodes → Timed ε (List Node)
  | 0, _ => pure []
  | count + 1, s => do
    match ← s.next with
    | (some node, s) => do
      let rest ← take count s
      pure (node :: rest)
    | (none, _) => pure []

/-- `filter(wanted).take(count)`, collected, with a bound on the calls of `next`. -/
def takeWhere (wanted : Node → Timed ε Bool) : Nat → Nat → ClosestNodes → Timed ε (List Node)
  | _, 0, _ => pure []
  | 0, _ + 1, _ => Action.cutOff
  | fuel + 1, count + 1, s => do
    match ← s.next with
    | (some node, s) => do
      if ← wanted node then do
        let rest ← takeWhere wanted fuel count s
        pure (node :: rest)
      else
        takeWhere wanted fuel (count + 1) s
    | (none, _) => pure []

/-- `filter(wanted).count()`, with a bound on the calls of `next`. -/
def countWhere (wanted : Node → Timed ε Bool) : Nat → ClosestNodes → Timed ε Nat
  | 0, _ => Action.cutOff
  | fuel + 1, s => do
    match ← s.next with
    | (some node, s) => do
      if ← wanted node then do
        let rest ← countWhere wanted fuel s
        pure (rest + 1)
      else
        countWhere wanted fuel s
    | (none, _) => pure 0

def collect : Nat → ClosestNodes → Timed ε (List Node)
  | 0, _ => Action.cutOff
  | fuel + 1, s => do
    match ← s.next with
    | (some node, s) => do
      let rest ← collect fuel s
      pure (node :: rest)
    | (none, _) => pure []

end ClosestNodes

def closestNodes (t : RoutingTable) (nodeId : NodeId) : Outcome ε ClosestNodes :=
  ClosestNodes.new t.buckets t.nodeId nodeId

/-- More calls of `next` than any walk has nodes: sixteen at each of its positions. -/
def walkFuel : Nat := 16 * (2 * maxBuckets + 1) + 1

end Iteration

end DhtClosest
