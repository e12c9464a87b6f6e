import Bittorrent.Dht.Visit

/-!
Changes of a node in place, and walks with a filter. A change that keeps the handle keeps the
table sound; one that only records a request from the node keeps the order of every walk as well.
-/
namespace DhtUpdate
open Rust DhtNode DhtTable DhtPlacement DhtClosest DhtVisit Successor List

variable {ε : Type}

section Update

variable {t : RoutingTable}

end Update

section Walks
variable {since : Instant}

theorem bucket_iterator_length (buckets : List Bucket) (index : Nat) :
    ((bucketIterator buckets index).getD []).length ≤ maxBucketSize := by
  unfold bucketIterator
  generalize (if buckets.length = maxBuckets then buckets
    else buckets.take (buckets.length - 1))[index]? = place
  cases place with
  | none => exact Nat.zero_le _
  | some b => exact Nat.le_of_eq b.size

theorem unreturned_length (index : Nat) (nodes : List (Nat × Node × Bool)) :
    (unreturned index nodes).length ≤ nodes.length := by
  unfold unreturned
  rw [length_map]
  exact length_filter_le _ _

theorem assorted_length (buckets : List Bucket) (nodeId : NodeId) :
    ((precomputeAssortedNodes buckets nodeId).getD []).length ≤ maxBucketSize := by
  unfold precomputeAssortedNodes
  split
  · exact Nat.zero_le _
  · cases buckets.getLast? with
    | none => exact Nat.zero_le _
    | some b =>
      change (b.nodes.map _).length ≤ maxBucketSize
      rw [length_map]
      exact Nat.le_of_eq b.size

theorem left_length (t : RoutingTable) (target : NodeId) :
    (left (startOf t target)).length < walkFuel := by
  have each : ∀ index, (nodesAt (startOf t target) index).length ≤ 16 := by
    intro index
    have sorted := bucket_iterator_length t.buckets index
    have assorted := Nat.le_trans
      (unreturned_length index ((precomputeAssortedNodes t.buckets t.nodeId).getD []))
      (assorted_length t.buckets t.nodeId)
    unfold nodesAt startOf
    rw [length_append]
    unfold maxBucketSize at sorted assorted
    dsimp only
    omega
  have positions : (ahead (startOf t target)).length ≤ 2 * maxBuckets := after_length _ _
  have further : ∀ places : List Nat,
      (places.flatMap (nodesAt (startOf t target))).length ≤ 16 * places.length := by
    intro places
    induction places with
    | nil => exact Nat.le_refl 0
    | cons place rest ih =>
      have first := each place
      rw [flatMap_cons, length_append, length_cons]
      omega
  have current := each (leadingBitCount t.nodeId target)
  have behind := further (ahead (startOf t target))
  have whole : (left (startOf t target)).length =
      (nodesAt (startOf t target) (leadingBitCount t.nodeId target)).length +
        ((ahead (startOf t target)).flatMap (nodesAt (startOf t target))).length :=
    length_append
  unfold walkFuel
  omega

theorem good_later {t : Instant} (later : since ≤ t) (nodes : List Node) :
    (good t nodes).Sublist (good since nodes) :=
  monotone_filter_right _ fun _ pingable => Node.pingable_before pingable later

/-- One call of `next`: the walk is over, or it has used up a node that is pingable then. -/
theorem timely_next {α : Type} {s : ClosestNodes} {A : α → Instant → Prop}
    {f : Option Node × ClosestNodes → Timed ε α} (walking : Walking s)
    (done : ∀ s' time, Timely time (f (none, s')) A)
    (more : ∀ node s' time, since ≤ time → Walking s' → (left s').length < (left s).length →
      node.isPingableAt time → (∀ t, time ≤ t → good t (left s) = good t (node :: left s')) →
      Timely time (f (some node, s')) A) :
    Timely since (s.next >>= f) A := by
  apply timely_bind (next_timely s walking)
  rintro ⟨found, s'⟩ time later ⟨taken, walking'⟩
  cases found with
  | none => exact done s' time
  | some node =>
    have fewer : 1 + (left s').length ≤ (left s).length := taken.fewer
    exact more node s' time later walking' (by omega) (taken.pingable node rfl) taken.rest

/-- A walk with a filter comes to an end, as every call of `next` uses up a node. What it takes it
    takes in order. -/
theorem take_where_timely {wanted : Node → Timed ε Bool}
    (asks : ∀ n since, Timely since (wanted n) fun _ _ => True) (fuel : Nat) :
    ∀ (count : Nat) (s : ClosestNodes) (since : Instant), Walking s → (left s).length < fuel →
      Timely since (s.takeWhere wanted fuel count) fun nodes _ => nodes.Sublist (good since (left s)) := by
  induction fuel with
  | zero => intro count s since _ enough; omega
  | succ fuel ih =>
    intro count s since walking enough
    cases count with
    | zero => exact timely_pure (nil_sublist _)
    | succ count =>
      refine timely_next walking (fun _ _ => timely_pure (nil_sublist _)) ?_
      intro node s' time later walking' fewer pingable rest
      have first : good time (left s) = node :: good time (left s') :=
        (rest time (Nat.le_refl _)).trans (good_cons_pos _ pingable)
      have now := first ▸ good_later later (left s)
      apply timely_bind (asks node time)
      intro answer time' later' _
      have behind := good_later later' (left s')
      split
      · apply timely_bind (ih count s' time' walking' (by omega))
        intro nodes time'' _ walked
        exact timely_pure (((walked.trans behind).cons_cons node).trans now)
      · apply timely_weaken (ih (count + 1) s' time' walking' (by omega))
        intro nodes time'' _ walked
        exact ((walked.trans behind).cons node).trans now

end Walks

section Strip

end Strip

end DhtUpdate
