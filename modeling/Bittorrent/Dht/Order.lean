import Bittorrent.Dht.Visit

/-!
In which order the closest nodes come. The walk goes right and left of the target's position in
turn, but every position on the right is closer to the target than every position on the left.
So the order is closest first exactly when no node on the left is visited before one on the right.
-/
namespace DhtOrder
open Rust UtilSha BitPrefix DhtNode DhtTable DhtPlacement DhtClosest DhtVisit

variable {t : RoutingTable} {now : Instant} {target : NodeId}

def shared (target : NodeId) (n : Node) : Nat := agree target.toBits n.id.toBits

/-- The bucket position of a node, in a table with all 160 buckets. -/
def position (t : RoutingTable) (n : Node) : Nat := leadingBitCount t.nodeId n.id

theorem to_bits_sizes (a b : ShaHash) : a.toBits.length = b.toBits.length :=
  (to_bits_length a).trans (to_bits_length b).symm

variable {n : Node}

theorem shared_left (left : position t n < leadingBitCount t.nodeId target) :
    shared target n = position t n := by
  unfold position at left ⊢
  rw [leading_bit_count_agree, leading_bit_count_agree] at left
  rw [leading_bit_count_agree]
  have bound := agree_le t.nodeId.toBits target.toBits
  have sizes := to_bits_sizes n.id t.nodeId
  rcases agree_of_lt left with same | short
  · unfold shared
    rw [agree_comm, same]
  · omega

theorem shared_right (right : leadingBitCount t.nodeId target < position t n) :
    shared target n = leadingBitCount t.nodeId target := by
  unfold position at right
  rw [leading_bit_count_agree, leading_bit_count_agree] at right
  rw [leading_bit_count_agree]
  have bound := agree_le t.nodeId.toBits n.id.toBits
  have sizes := to_bits_sizes target t.nodeId
  rcases agree_of_lt right with same | short
  · exact same
  · omega

theorem shared_same (same : position t n = leadingBitCount t.nodeId target)
    (inside : position t n < maxBuckets) : leadingBitCount t.nodeId target < shared target n := by
  unfold position at same inside
  rw [leading_bit_count_agree, leading_bit_count_agree] at same
  rw [leading_bit_count_agree] at inside
  rw [leading_bit_count_agree]
  have size : t.nodeId.toBits.length = maxBuckets := to_bits_length _
  exact agree_of_eq (to_bits_sizes _ _) (to_bits_sizes _ _) same.symm (by omega)

theorem good_at_position (placed : Placed t) {index : Nat} (member : n ∈ goodAt t now index) :
    position t n = index := by
  rcases List.mem_append.mp member with sorted | assorted
  · obtain ⟨inside, pingable⟩ := List.mem_filter.mp sorted
    have live : n.live := Node.pingable_live (by simpa [Node.isPingableAt] using pingable)
    cases found : (sortedBuckets t.buckets)[index]? with
    | none => simp [found] at inside
    | some b =>
      rw [found] at inside
      have isBucket : t.buckets[index]? = some b ∧
          (t.buckets.length = maxBuckets ∨ index < t.buckets.length - 1) := by
        unfold sortedBuckets at found
        split at found
        · rename_i full
          exact ⟨found, .inl full⟩
        · obtain ⟨below, _⟩ := List.getElem?_eq_some_iff.mp found
          rw [List.length_take] at below
          rw [List.getElem?_take_of_lt (by omega)] at found
          exact ⟨found, .inr (by omega)⟩
      obtain ⟨other, place⟩ := placed.placed index b isBucket.1 n inside live
      have bound := leading_bit_count_le t.nodeId n.id
      unfold position
      rcases isBucket.2 with full | early
      · omega
      · omega
  · have here := (List.mem_filter.mp assorted).2
    simpa [position] using here

theorem yielded_sorted (placed : Placed t) (target : NodeId) (now : Instant) :
    (remaining now (startOf t target)).Pairwise fun a b =>
      visitKey (leadingBitCount t.nodeId target) (position t a) ≤
        visitKey (leadingBitCount t.nodeId target) (position t b) := by
  rw [remaining_start]
  apply List.pairwise_flatMap.mpr
  constructor
  · intro index _
    apply List.pairwise_of_forall_mem_list
    intro a isA b isB
    rw [good_at_position placed isA, good_at_position placed isB]
  · apply (visits_sorted t target).imp
    intro i j less a isA b isB
    rw [good_at_position placed isA, good_at_position placed isB]
    exact Nat.le_of_lt less

/-- A node left of the target's position is visited before one right of it. -/
def Inverted (t : RoutingTable) (target : NodeId) (now : Instant) : Prop :=
  ∃ a ∈ allNodes t, ∃ b ∈ allNodes t, a.statusAt now ≠ .bad ∧ b.statusAt now ≠ .bad ∧
    position t a < leadingBitCount t.nodeId target ∧
    leadingBitCount t.nodeId target < position t b ∧
    leadingBitCount t.nodeId target - position t a <
      position t b - leadingBitCount t.nodeId target

/-- Later nodes of other positions share no more bits with the target. -/
def ClosestFirst (t : RoutingTable) (target : NodeId) (yielded : List Node) : Prop :=
  yielded.Pairwise fun a b => position t a ≠ position t b → shared target b ≤ shared target a

theorem yielded_position (placed : Placed t) (member : n ∈ remaining now (startOf t target)) :
    position t n < maxBuckets :=
  good_position placed ((remaining_perm placed target now).mem_iff.mp member)

theorem closest_first (placed : Placed t) (sound : ¬ Inverted t target now) :
    ClosestFirst t target (remaining now (startOf t target)) := by
  have sorted := yielded_sorted placed target now
  apply sorted.imp_of_mem
  intro a b isA isB before apart
  have insideA := yielded_position placed isA
  have insideB := yielded_position placed isB
  have keyA := visit_key_cases (leadingBitCount t.nodeId target) (position t a)
  have keyB := visit_key_cases (leadingBitCount t.nodeId target) (position t b)
  rcases Nat.lt_trichotomy (position t a) (leadingBitCount t.nodeId target) with
    leftA | here | rightA
  · rcases Nat.lt_trichotomy (position t b) (leadingBitCount t.nodeId target) with
      leftB | _ | rightB
    · rw [shared_left leftA, shared_left leftB]
      omega
    · omega
    · obtain ⟨nodeA, goodA⟩ := List.mem_filter.mp ((remaining_perm placed target now).mem_iff.mp isA)
      obtain ⟨nodeB, goodB⟩ := List.mem_filter.mp ((remaining_perm placed target now).mem_iff.mp isB)
      exact absurd ⟨a, nodeA, b, nodeB, by simpa [Node.isPingableAt] using goodA,
        by simpa [Node.isPingableAt] using goodB, leftA, rightB, by omega⟩ sound
  · have most := shared_same here insideA
    rcases Nat.lt_trichotomy (position t b) (leadingBitCount t.nodeId target) with
      leftB | _ | rightB
    · rw [shared_left leftB]
      omega
    · omega
    · rw [shared_right rightB]
      omega
  · rw [shared_right rightA]
    rcases Nat.lt_trichotomy (position t b) (leadingBitCount t.nodeId target) with
      leftB | _ | rightB
    · rw [shared_left leftB]
      omega
    · omega
    · rw [shared_right rightB]

theorem pairwise_either {α : Type} {R : α → α → Prop} {l : List α} (sorted : l.Pairwise R)
    {a b : α} (isA : a ∈ l) (isB : b ∈ l) (apart : a ≠ b) : R a b ∨ R b a := by
  obtain ⟨i, insideI, atI⟩ := List.mem_iff_getElem.mp isA
  obtain ⟨j, insideJ, atJ⟩ := List.mem_iff_getElem.mp isB
  rcases Nat.lt_trichotomy i j with before | same | behind
  · have related := List.pairwise_iff_getElem.mp sorted i j insideI insideJ before
    rw [atI, atJ] at related
    exact .inl related
  · subst same
    exact absurd (atI.symm.trans atJ) apart
  · have related := List.pairwise_iff_getElem.mp sorted j i insideJ insideI behind
    rw [atI, atJ] at related
    exact .inr related

/-- An inversion puts a node before a closer one. -/
theorem inverted_not_closest_first (placed : Placed t) (inverted : Inverted t target now) :
    ¬ ClosestFirst t target (remaining now (startOf t target)) := by
  intro closest
  obtain ⟨a, nodeA, b, nodeB, goodA, goodB, left, right, nearer⟩ := inverted
  have perm := remaining_perm placed target now
  have isA : a ∈ remaining now (startOf t target) :=
    perm.mem_iff.mpr (List.mem_filter.mpr ⟨nodeA, by simpa [Node.isPingableAt] using goodA⟩)
  have isB : b ∈ remaining now (startOf t target) :=
    perm.mem_iff.mpr (List.mem_filter.mpr ⟨nodeB, by simpa [Node.isPingableAt] using goodB⟩)
  have apart : a ≠ b := by
    intro same
    rw [same] at left
    omega
  have keyA := visit_key_cases (leadingBitCount t.nodeId target) (position t a)
  have keyB := visit_key_cases (leadingBitCount t.nodeId target) (position t b)
  rcases pairwise_either ((yielded_sorted placed target now).and closest) isA isB apart with
    ordered | reversed
  · have more := ordered.2 (by omega)
    rw [shared_left left, shared_right right] at more
    omega
  · have key := reversed.1
    omega

/-- The first eight nodes are closest to the target, as far as positions tell. -/
def FirstClosest (t : RoutingTable) (target : NodeId) (yielded : List Node) : Prop :=
  ∀ a ∈ yielded.take 8, ∀ b ∈ yielded.drop 8, position t a ≠ position t b →
    shared target b ≤ shared target a

theorem closest_first_take {yielded : List Node} (closest : ClosestFirst t target yielded) :
    FirstClosest t target yielded := by
  intro a first b later
  rw [← List.take_append_drop 8 yielded] at closest
  exact (List.pairwise_append.mp closest).2.2 a first b later

/-- For every table built by `add_node` calls, every target and every clock reading: what
    `closest_nodes` yields is in closest-first order, its first eight nodes (those that `take(8)`
    returns) closest of all, if and only if no pingable node left of the target's position is
    nearer to that position than a pingable node right of it. -/
theorem closest_first_iff (nodeId : NodeId) (nodes : List Node) (clock : Clock) :
    ∃ t clock', (RoutingTable.new nodeId).addNodes nodes clock =
        ((.ok t, clock') : Outcome Unit RoutingTable × Clock) ∧
      ∀ target now, ∃ s yielded,
        (closestNodes t target : Outcome Unit ClosestNodes) = .ok s ∧
        (s.collect 1281 (fixed now) : Outcome Unit (List Node) × Clock) =
          (.ok yielded, fixed now) ∧
        (s.take 8 (fixed now) : Outcome Unit (List Node) × Clock) =
          (.ok (yielded.take 8), fixed now) ∧
        (ClosestFirst t target yielded ∧ FirstClosest t target yielded ↔
          ¬ Inverted t target now) := by
  obtain ⟨t, count, ended, placed, _⟩ :=
    clocked_add_nodes (new_placed nodeId) nodes (ε := Unit) clock
  refine ⟨t, advance count clock, ended, ?_⟩
  intro target now
  refine ⟨startOf t target, remaining now (startOf t target), closest_nodes_ok placed target, ?_,
    take_fixed now 8 _ (start_walking t target), ?_⟩
  · apply collect_fixed now 1281 _ (start_walking t target)
    exact Nat.lt_succ_of_le (remaining_length placed target now)
  · constructor
    · intro ordered inverted
      exact inverted_not_closest_first placed inverted ordered.1
    · intro sound
      have closest := closest_first placed sound
      exact ⟨closest, closest_first_take closest⟩

section Example

def idOf (first : UInt8) : NodeId := ⟨(Vector.replicate shaHashLen 0).set 0 first⟩

def nodeOf (first : UInt8) : Node := Node.responded (idOf first) (.v4 10 0 0 first 6881) (some 0)

/-- Adding nodes to a new table and asking it for the nodes closest to a target. -/
def closestAfter (nodeId : NodeId) (nodes : List Node) (target : NodeId) (count : Nat) :
    Timed Unit (List Node) := do
  let t ← (RoutingTable.new nodeId).addNodes nodes
  let s ← Action.lift (closestNodes t target)
  s.take count

/-- Our id starts with 00000000, the target with 01000000. The node 10000000, which shares no bit
    with the target, comes before the node 00010000, which shares one. -/
theorem closest_not_first :
    (closestAfter (idOf 0) [nodeOf 0x80, nodeOf 0x10] (idOf 0x40) 2 (fixed 0)).1 =
      .ok [nodeOf 0x80, nodeOf 0x10] ∧
    leadingBitCount (idOf 0) (nodeOf 0x80).id ≠ leadingBitCount (idOf 0) (nodeOf 0x10).id ∧
    shared (idOf 0x40) (nodeOf 0x80) < shared (idOf 0x40) (nodeOf 0x10) := by
  refine ⟨?_, ?_, ?_⟩
  · decide +kernel
  · decide +kernel
  · decide +kernel

end Example

end DhtOrder
