import Bittorrent.Dht.Closest
import Bittorrent.Lib.ListParts

/-!
What the iterator over the closest nodes yields. While the clock stands still it yields, position
by position along the zig-zag, the pingable nodes of each position; over a table that was built
by `add_node` these are all pingable nodes of the table, each once.
-/
namespace DhtVisit
open Rust DhtNode DhtTable DhtPlacement DhtClosest Successor ListParts
open List hiding iter

variable {ε : Type}

def good (t : Instant) (nodes : List Node) : List Node := nodes.filter (·.isPingableAt t)

def unreturned (index : Nat) (nodes : List (Nat × Node × Bool)) : List Node :=
  (nodes.filter fun entry => entry.1 = index ∧ entry.2.2 = false).map (·.2.1)

theorem unreturned_cons (index i : Nat) (node : Node) (returned : Bool)
    (rest : List (Nat × Node × Bool)) : unreturned index ((i, node, returned) :: rest) =
      if i = index ∧ returned = false then node :: unreturned index rest
      else unreturned index rest := by
  unfold unreturned
  by_cases listed : i = index ∧ returned = false
  · rw [if_pos listed, filter_cons_of_pos (by simpa using listed), map_cons]
  · rw [if_neg listed, filter_cons_of_neg (by simpa using listed)]

def nodesAt (s : ClosestNodes) (index : Nat) : List Node :=
  (bucketIterator s.buckets index).getD [] ++ unreturned index (s.assortedNodes.getD [])

/-- What is left to be visited behind the current position. -/
def ahead (s : ClosestNodes) : List Nat :=
  after (nextBucketIndex maxBuckets s.startIndex) (2 * maxBuckets) s.currentIndex

/-- The nodes left at the current position. -/
def here (s : ClosestNodes) : List Node :=
  s.currentIter.getD [] ++ unreturned s.currentIndex (s.assortedNodes.getD [])

/-- The nodes left at this and all further positions, in the order of the walk. -/
def left (s : ClosestNodes) : List Node := here s ++ (ahead s).flatMap (nodesAt s)

def remaining (t : Instant) (s : ClosestNodes) : List Node := good t (left s)

def Walking (s : ClosestNodes) : Prop :=
  s.startIndex ≤ maxBuckets ∧ (s.currentIndex = s.startIndex ∨ s.currentIndex < maxBuckets)

theorem walking_enumerates {s : ClosestNodes} (walking : Walking s) :
    Enumerates (nextBucketIndex maxBuckets s.startIndex) (visitKey s.startIndex) (· < maxBuckets)
      s.startIndex (2 * maxBuckets) :=
  next_bucket_index_enumerates walking.1 (by decide)

theorem walking_key {s : ClosestNodes} (walking : Walking s) :
    visitKey s.startIndex s.currentIndex ≤ 2 * maxBuckets := by
  obtain ⟨start, known⟩ := walking
  have key := visit_key_cases s.startIndex s.currentIndex
  omega

variable (t : Instant)

theorem good_append (a b : List Node) : good t (a ++ b) = good t a ++ good t b :=
  filter_append ..

variable {node : Node}

theorem good_cons_pos {t : Instant} (rest : List Node) (pingable : node.isPingableAt t) :
    good t (node :: rest) = node :: good t rest :=
  filter_cons_of_pos pingable

theorem good_cons_neg {t : Instant} (rest : List Node) (bad : ¬ node.isPingableAt t) :
    good t (node :: rest) = good t rest :=
  filter_cons_of_neg bad

/-- At this time a node was found among others, or none: what was passed over was bad then, and
    a bad node stays bad, so that it is missing from every later view of the nodes as well. -/
structure Taken (time : Instant) (before : List Node) (found : Option Node)
    (after : List Node) : Prop where
  pingable : ∀ n, found = some n → n.isPingableAt time
  rest : ∀ t, time ≤ t → good t before = good t (found.toList ++ after)
  none : found = none → ∀ t, time ≤ t → good t before = []
  fewer : found.toList.length + after.length ≤ before.length

variable {time : Instant}

theorem taken_behind {time' : Instant} {before middle after : List Node} {found : Option Node}
    (same : ∀ t, time ≤ t → good t before = good t middle) (shorter : middle.length ≤ before.length)
    (later : time ≤ time') (taken : Taken time' middle found after) :
    Taken time' before found after := by
  constructor
  · exact taken.pingable
  · intro t behind
    rw [same t (Nat.le_trans later behind), taken.rest t behind]
  · intro isNone t behind
    rw [same t (Nat.le_trans later behind), taken.none isNone t behind]
  · exact Nat.le_trans taken.fewer shorter

variable (nodes : List Node)

/-- A node that is bad at this time does not matter from then on. -/
theorem bad_skipped (bad : ¬ node.isPingableAt time) :
    ∀ t, time ≤ t → good t (node :: nodes) = good t nodes := by
  intro t behind
  exact good_cons_neg nodes fun pingable => bad (Node.pingable_before pingable behind)

theorem taken_head (pingable : node.isPingableAt time) :
    Taken time (node :: nodes) (some node) nodes := by
  constructor
  · intro n same
    cases same
    exact pingable
  · intro t _
    rfl
  · intro isNone
    cases isNone
  · change 1 + nodes.length ≤ nodes.length + 1
    omega

theorem taken_nothing (time : Instant) : Taken time [] none [] := by
  constructor
  · intro n same
    cases same
  · exact fun _ _ => rfl
  · exact fun _ _ _ => rfl
  · exact Nat.le_refl 0

theorem taken_none {before after : List Node} (taken : Taken time before none after) :
    ∀ t, time ≤ t → good t after = [] := by
  intro t behind
  have same : good t before = good t after := taken.rest t behind
  rw [← same]
  exact taken.none rfl t behind

theorem taken_front {before after : List Node} {n : Node} (behind : List Node)
    (taken : Taken time before (some n) after) :
    Taken time (before ++ behind) (some n) (after ++ behind) := by
  refine ⟨taken.pingable, fun t later => ?_, nofun, ?_⟩
  · rw [good_append, taken.rest t later, ← good_append, append_assoc]
  · have fewer := taken.fewer
    rw [length_append, length_append]
    omega

theorem taken_back {time' : Instant} {before before' after after' : List Node} {found : Option Node}
    (first : Taken time before none after) (later : time ≤ time')
    (second : Taken time' before' found after') :
    Taken time' (before ++ before') found (after ++ after') := by
  have searched : ∀ t, time' ≤ t → good t before = [] := fun t behind =>
    first.none rfl t (Nat.le_trans later behind)
  refine ⟨second.pingable, fun t behind => ?_, fun isNone t behind => ?_, ?_⟩
  · rw [good_append, good_append, good_append, searched t behind,
      taken_none first t (Nat.le_trans later behind), second.rest t behind, good_append]
    rfl
  · rw [good_append, searched t behind, second.none isNone t behind]
    rfl
  · have fewer := first.fewer
    have fewer' := second.fewer
    rw [length_append, length_append]
    omega

section Walk
variable {since : Instant}

theorem next_good_timely : Timely since (nextGood nodes : Timed ε (Option Node × List Node))
      fun answer time => Taken time nodes answer.1 answer.2 := by
  induction nodes generalizing since with
  | nil => exact timely_pure (taken_nothing since)
  | cons node nodes ih =>
    apply timely_bind (Node.timely_is_pingable node)
    intro answer time _ same
    subst same
    split
    · rename_i pingable
      exact timely_pure (taken_head nodes pingable)
    · rename_i bad
      apply timely_weaken ih
      intro answer time' later taken
      exact taken_behind (bad_skipped nodes bad) (by simp) later taken

/-- The assorted nodes of the other positions are as they were. -/
def OthersKept (index : Nat) (before after : List (Nat × Node × Bool)) : Prop :=
  ∀ j, j ≠ index → unreturned j after = unreturned j before

theorem find_assorted_timely (index : Nat) (nodes : List (Nat × Node × Bool)) :
    Timely since (findAssorted index nodes : Timed ε (Option Node × List (Nat × Node × Bool)))
      fun answer time =>
        Taken time (unreturned index nodes) answer.1 (unreturned index answer.2) ∧
        OthersKept index nodes answer.2 := by
  induction nodes generalizing since with
  | nil => exact timely_pure ⟨taken_nothing since, fun _ _ => rfl⟩
  | cons first nodes ih =>
    obtain ⟨i, node, returned⟩ := first
    apply timely_bind (Node.timely_is_pingable node)
    intro answer time _ same
    subst same
    split
    · rename_i chosen
      obtain ⟨pingable, listed⟩ := chosen
      apply timely_pure
      constructor
      · rw [unreturned_cons, if_pos listed, unreturned_cons, if_neg (by simp)]
        exact taken_head _ pingable
      · intro j other
        rw [unreturned_cons, unreturned_cons, if_neg (by simp), if_neg (by omega)]
    · rename_i passed
      apply timely_bind ih
      intro answer time' later taken
      obtain ⟨found, rest⟩ := answer
      obtain ⟨taken, others⟩ := taken
      apply timely_pure
      constructor
      · -- the entry stays in the array, so it must be invisible on both sides
        have hidden : ∀ more t, time ≤ t → good t (unreturned index ((i, node, returned) :: more)) =
            good t (unreturned index more) := by
          intro more t behind
          rw [unreturned_cons]
          split
          · rename_i listed
            exact bad_skipped _ (fun pingable => passed ⟨pingable, listed⟩) t behind
          · rfl
        constructor
        · exact taken.pingable
        · intro t behind
          have early := Nat.le_trans later behind
          rw [hidden nodes t early, taken.rest t behind, good_append, good_append,
            hidden rest t early]
        · intro isNone t behind
          rw [hidden nodes t (Nat.le_trans later behind), taken.none isNone t behind]
        · have fewer := taken.fewer
          rw [unreturned_cons, unreturned_cons]
          dsimp only at fewer ⊢
          split
          · rw [length_cons, length_cons]
            omega
          · exact fewer
      · intro j other
        rw [unreturned_cons, unreturned_cons, others j other]

theorem from_bucket_timely (s : ClosestNodes) :
    Timely since (s.fromBucket : Timed ε (Option Node × ClosestNodes)) fun answer time =>
      ∃ iter, answer.2 = { s with currentIter := iter } ∧
        Taken time (s.currentIter.getD []) answer.1 (iter.getD []) := by
  obtain ⟨buckets, iter, index, start, assorted⟩ := s
  cases iter with
  | none => exact timely_pure ⟨none, rfl, taken_nothing since⟩
  | some nodes =>
    apply timely_bind (next_good_timely nodes)
    intro answer time _ taken
    exact timely_pure ⟨some answer.2, rfl, taken⟩

theorem from_assorted_timely (s : ClosestNodes) :
    Timely since (s.fromAssorted : Timed ε (Option Node × ClosestNodes)) fun answer time =>
      ∃ assorted, answer.2 = { s with assortedNodes := assorted } ∧
        Taken time (unreturned s.currentIndex (s.assortedNodes.getD [])) answer.1
          (unreturned s.currentIndex (assorted.getD [])) ∧
        OthersKept s.currentIndex (s.assortedNodes.getD []) (assorted.getD []) := by
  obtain ⟨buckets, iter, index, start, assorted⟩ := s
  cases assorted with
  | none => exact timely_pure ⟨none, rfl, taken_nothing since, fun _ _ => rfl⟩
  | some nodes =>
    apply timely_bind (find_assorted_timely index nodes)
    intro answer time _ taken
    exact timely_pure ⟨some answer.2, rfl, taken⟩

/-- The same position of the same walk, with the same nodes at every other position. -/
def SamePlace (s s' : ClosestNodes) : Prop :=
  s'.buckets = s.buckets ∧ s'.currentIndex = s.currentIndex ∧ s'.startIndex = s.startIndex ∧
    ∀ index, index ≠ s.currentIndex → nodesAt s' index = nodesAt s index

theorem visit_timely (s : ClosestNodes) :
    Timely since (s.visit : Timed ε (Option Node × ClosestNodes)) fun answer time =>
      Taken time (here s) answer.1 (here answer.2) ∧ SamePlace s answer.2 := by
  apply timely_bind (from_bucket_timely s)
  intro answer time _ taken
  obtain ⟨found, s'⟩ := answer
  obtain ⟨iter, moved, taken⟩ := taken
  subst moved
  cases found with
  | some node => exact timely_pure ⟨taken_front _ taken, rfl, rfl, rfl, fun _ _ => rfl⟩
  | none =>
    apply timely_weaken (from_assorted_timely { s with currentIter := iter })
    intro answer time' later second
    obtain ⟨assorted, kept, second, others⟩ := second
    rw [kept]
    refine ⟨taken_back taken later second, rfl, rfl, rfl, ?_⟩
    · intro index other
      change (bucketIterator s.buckets index).getD [] ++ unreturned index (assorted.getD []) = _
      rw [others index other]
      rfl

variable {s : ClosestNodes}

theorem ahead_not_current (walking : Walking s) {index : Nat} (member : index ∈ ahead s) :
    index ≠ s.currentIndex := by
  have later := (mem_after (walking_enumerates walking) (2 * maxBuckets) s.currentIndex walking.2
    (Nat.le_add_right _ _) index).mp member
  intro same
  rw [same] at later
  exact Nat.lt_irrefl _ later.2

variable {s' : ClosestNodes}

theorem same_place_ahead (same : SamePlace s s') : ahead s' = ahead s := by
  unfold ahead
  rw [same.2.1, same.2.2.1]

theorem same_place_left (walking : Walking s) (same : SamePlace s s') :
    left s' = here s' ++ (ahead s).flatMap (nodesAt s) := by
  unfold left
  rw [same_place_ahead same]
  congr 1
  apply flatMap_congr
  intro i member
  rw [same.2.2.2 i (ahead_not_current walking member)]

theorem same_place_walking (walking : Walking s) (same : SamePlace s s') : Walking s' := by
  obtain ⟨_, index, start, _⟩ := same
  unfold Walking
  rw [index, start]
  exact walking

theorem move_left (walking : Walking s) {index : Nat}
    (following : nextBucketIndex maxBuckets s.startIndex s.currentIndex = some index) :
    left s = here s ++ left (s.moveTo index) := by
  have step := after_step (walking_enumerates walking) walking.2 following
  have positions : ahead s = index :: ahead (s.moveTo index) := step
  unfold left
  rw [positions, flatMap_cons]
  rfl

/-- One call: a node that was pingable when it was found, and an iterator with the rest. -/
def NextOf (time : Instant) (s : ClosestNodes) (answer : Option Node × ClosestNodes) : Prop :=
  Taken time (left s) answer.1 (left answer.2) ∧ Walking answer.2

theorem next_within_timely (fuel : Nat) : ∀ (s : ClosestNodes) (since : Instant), Walking s →
    2 * maxBuckets < fuel + visitKey s.startIndex s.currentIndex →
    Timely since (s.nextWithin fuel : Timed ε (Option Node × ClosestNodes))
      fun answer time => NextOf time s answer := by
  induction fuel with
  | zero =>
    intro s since walking enough
    have key := walking_key walking
    omega
  | succ fuel ih =>
    intro s since walking enough
    apply timely_bind (visit_timely s)
    intro answer time _ visited
    obtain ⟨found, s'⟩ := answer
    obtain ⟨taken, same⟩ := visited
    have walking' : Walking s' := same_place_walking walking same
    have rest : left s' = here s' ++ (ahead s).flatMap (nodesAt s) := same_place_left walking same
    cases found with
    | some node => exact timely_pure ⟨rest ▸ taken_front _ taken, walking'⟩
    | none =>
      dsimp only
      split
      · rename_i index following
        obtain ⟨inside, larger, _⟩ := (walking_enumerates walking').step _ _ walking'.2 following
        have further : 2 * maxBuckets < fuel + visitKey s'.startIndex index := by
          have key : visitKey s'.startIndex s'.currentIndex =
              visitKey s.startIndex s.currentIndex := by rw [same.2.1, same.2.2.1]
          omega
        have moved : left s = here s ++ left (s'.moveTo index) :=
          congrArg (here s ++ ·) (append_cancel_left (rest.symm.trans (move_left walking' following)))
        apply timely_weaken (ih (s'.moveTo index) time ⟨walking'.1, .inr inside⟩ further)
        intro answer time' later isNext
        rw [NextOf, moved]
        refine ⟨taken_behind (fun t behind => ?_) (by simp) later isNext.1, isNext.2⟩
        -- nothing pingable was there, and so it stays
        rw [good_append, taken.none rfl t behind, nil_append]
      · rename_i following
        have finished : ahead s = [] := (same_place_ahead same).symm.trans (after_stop following)
        have all := taken_back taken (Nat.le_refl time) (taken_nothing time)
        refine timely_pure ⟨?_, walking'⟩
        rw [rest, left, finished]
        exact all

theorem next_timely (s : ClosestNodes) (walking : Walking s) :
    Timely since (s.next : Timed ε (Option Node × ClosestNodes))
      fun answer time => NextOf time s answer :=
  next_within_timely (2 * maxBuckets + 1) s since walking (by omega)

end Walk

/-- While the clock stands still a call returns the first of what remains. -/
theorem next_fixed (s : ClosestNodes) (walking : Walking s) :
    ∃ found s', (s.next (fixed t) : Outcome ε (Option Node × ClosestNodes) × Clock) =
        (.ok (found, s'), fixed t) ∧ Walking s' ∧
      remaining t s = found.toList ++ remaining t s' ∧ (found = none → remaining t s = []) := by
  obtain ⟨⟨found, s'⟩, returned, taken, walking'⟩ := timely_fixed (next_timely (ε := ε) s walking)
  refine ⟨found, s', returned, walking', ?_, fun isNone => taken.none isNone t (Nat.le_refl t)⟩
  have whole : remaining t s = good t (found.toList ++ left s') := taken.rest t (Nat.le_refl t)
  rw [whole]
  cases found with
  | some node => exact good_cons_pos _ (taken.pingable node rfl)
  | none => rfl

theorem collect_fixed (fuel : Nat) : ∀ s : ClosestNodes, Walking s →
    (remaining t s).length < fuel →
    (s.collect fuel (fixed t) : Outcome ε (List Node) × Clock) =
      (.ok (remaining t s), fixed t) := by
  induction fuel with
  | zero =>
    intro s _ enough
    omega
  | succ fuel ih =>
    intro s walking enough
    obtain ⟨found, s', returned, walking', parts, last⟩ := next_fixed (ε := ε) t s walking
    cases found with
    | none =>
      rw [last rfl]
      exact Action.bind_run returned
    | some node =>
      rw [parts] at enough ⊢
      exact (Action.bind_run returned).trans (Action.bind_run (ih s' walking' (Nat.lt_of_succ_lt_succ enough)))

theorem take_fixed (count : Nat) : ∀ s : ClosestNodes, Walking s →
    (s.take count (fixed t) : Outcome ε (List Node) × Clock) =
      (.ok ((remaining t s).take count), fixed t) := by
  induction count with
  | zero =>
    intro s _
    rfl
  | succ count ih =>
    intro s walking
    obtain ⟨found, s', returned, walking', parts, last⟩ := next_fixed (ε := ε) t s walking
    cases found with
    | none =>
      rw [last rfl]
      exact Action.bind_run returned
    | some node =>
      rw [parts]
      exact (Action.bind_run returned).trans (Action.bind_run (ih s' walking'))

section Table

/-- The buckets that stand for one position each. -/
def sortedBuckets (buckets : List Bucket) : List Bucket :=
  if buckets.length = maxBuckets then buckets else buckets.take (buckets.length - 1)

/-- The nodes of the bucket that stands for all further positions. -/
def assortedPart (buckets : List Bucket) : List Node :=
  if buckets.length = maxBuckets then [] else (buckets.getLast?.map (·.nodes)).getD []

def allNodes (t : RoutingTable) : List Node := t.buckets.flatMap (·.nodes)

theorem parts_whole {buckets : List Bucket} (nonempty : buckets ≠ []) :
    (sortedBuckets buckets).flatMap (·.nodes) ++ assortedPart buckets =
      buckets.flatMap (·.nodes) := by
  unfold sortedBuckets assortedPart
  split
  · exact append_nil _
  · obtain ⟨front, last, shape⟩ := eq_nil_or_concat buckets |>.resolve_left nonempty
    rw [shape]
    simp

theorem unreturned_start (index : Nat) (buckets : List Bucket) (nodeId : NodeId) :
    unreturned index ((precomputeAssortedNodes buckets nodeId).getD []) =
      (assortedPart buckets).filter fun n => leadingBitCount nodeId n.id = index := by
  unfold precomputeAssortedNodes assortedPart
  split
  · rfl
  · cases buckets.getLast? with
    | none => rfl
    | some bucket =>
      change unreturned index (bucket.nodes.map _) = bucket.nodes.filter _
      induction bucket.nodes with
      | nil => rfl
      | cons node rest ih =>
        rw [map_cons, unreturned_cons, ih]
        by_cases listed : leadingBitCount nodeId node.id = index
        · rw [if_pos ⟨listed, rfl⟩, filter_cons_of_pos (by simpa using listed)]
        · rw [if_neg (fun both => listed both.1), filter_cons_of_neg (by simpa using listed)]

/-- The iterator that `closest_nodes` returns. -/
def startOf (t : RoutingTable) (target : NodeId) : ClosestNodes where
  buckets := t.buckets
  currentIter := bucketIterator t.buckets (leadingBitCount t.nodeId target)
  currentIndex := leadingBitCount t.nodeId target
  startIndex := leadingBitCount t.nodeId target
  assortedNodes := precomputeAssortedNodes t.buckets t.nodeId

variable {t : RoutingTable}

theorem table_nonempty (placed : Placed t) : t.buckets ≠ [] := by
  intro empty
  have size := placed.nonempty
  rw [empty] at size
  simp at size

theorem closest_nodes_ok (placed : Placed t) (target : NodeId) :
    (closestNodes t target : Outcome ε ClosestNodes) = .ok (startOf t target) :=
  if_neg (table_nonempty placed)

theorem start_walking (t : RoutingTable) (target : NodeId) : Walking (startOf t target) :=
  ⟨leading_bit_count_le _ _, .inl rfl⟩

def visits (t : RoutingTable) (target : NodeId) : List Nat :=
  leadingBitCount t.nodeId target :: ahead (startOf t target)

def goodAt (t : RoutingTable) (now : Instant) (index : Nat) : List Node :=
  good now ((((sortedBuckets t.buckets)[index]?).map (·.nodes)).getD []) ++
    (good now (assortedPart t.buckets)).filter fun n => leadingBitCount t.nodeId n.id = index

theorem good_nodes_at (t : RoutingTable) (target : NodeId) (now : Instant) (index : Nat) :
    good now (nodesAt (startOf t target) index) = goodAt t now index := by
  unfold nodesAt good goodAt
  rw [filter_append]
  congr 1
  change List.filter _ (unreturned index ((precomputeAssortedNodes t.buckets t.nodeId).getD [])) = _
  rw [unreturned_start, filter_comm]
  rfl

theorem remaining_start (t : RoutingTable) (target : NodeId) (now : Instant) :
    remaining now (startOf t target) = (visits t target).flatMap (goodAt t now) := by
  have first : here (startOf t target) =
      nodesAt (startOf t target) (leadingBitCount t.nodeId target) := rfl
  have whole : left (startOf t target) =
      (visits t target).flatMap (nodesAt (startOf t target)) := by
    unfold left visits
    rw [flatMap_cons, first]
  unfold remaining
  rw [whole]
  unfold good
  rw [filter_flatMap]
  apply flatMap_congr
  intro index _
  exact good_nodes_at t target now index

theorem visits_sorted (t : RoutingTable) (target : NodeId) :
    (visits t target).Pairwise fun i j => visitKey (leadingBitCount t.nodeId target) i <
      visitKey (leadingBitCount t.nodeId target) j :=
  after_sorted (walking_enumerates (start_walking t target)) (2 * maxBuckets) _
    (start_walking t target).2 (Nat.le_add_right _ _)

theorem mem_visits (t : RoutingTable) (target : NodeId) (index : Nat) :
    index ∈ visits t target ↔ index = leadingBitCount t.nodeId target ∨ index < maxBuckets := by
  have further := mem_after (walking_enumerates (start_walking t target)) (2 * maxBuckets)
    (leadingBitCount t.nodeId target) (start_walking t target).2 (Nat.le_add_right _ _) index
  unfold visits
  rw [mem_cons]
  constructor
  · intro member
    rcases member with first | later
    · exact .inl first
    · exact .inr (further.mp later).1
  · intro known
    by_cases first : index = leadingBitCount t.nodeId target
    · exact .inl first
    · right
      apply further.mpr
      have keyStart := visit_key_cases (leadingBitCount t.nodeId target)
        (leadingBitCount t.nodeId target)
      have keyIndex := visit_key_cases (leadingBitCount t.nodeId target) index
      constructor
      · exact known.resolve_left first
      · change visitKey (leadingBitCount t.nodeId target) (leadingBitCount t.nodeId target) <
          visitKey (leadingBitCount t.nodeId target) index
        omega

section
variable (placed : Placed t)
include placed

/-- A pingable node shares fewer than all bits with the table's own id. -/
theorem good_position {now : Instant} {n : Node}
    (member : n ∈ good now (allNodes t)) : leadingBitCount t.nodeId n.id < maxBuckets := by
  obtain ⟨inside, pingable⟩ := mem_filter.mp member
  obtain ⟨b, isBucket, isNode⟩ := mem_flatMap.mp inside
  obtain ⟨i, found⟩ := mem_iff_getElem?.mp isBucket
  have live : n.live := Node.pingable_live (by simpa [Node.isPingableAt] using pingable)
  have other := (placed.placed i b found n isNode live).1
  have bound := leading_bit_count_le t.nodeId n.id
  omega

theorem assorted_subset {now : Instant} {n : Node}
    (member : n ∈ good now (assortedPart t.buckets)) : n ∈ good now (allNodes t) := by
  obtain ⟨inside, pingable⟩ := mem_filter.mp member
  apply mem_filter.mpr
  refine ⟨?_, pingable⟩
  unfold allNodes
  rw [← parts_whole (table_nonempty placed)]
  exact mem_append_right _ inside

theorem sorted_buckets_length : (sortedBuckets t.buckets).length ≤ maxBuckets := by
  have bounded := placed.bounded
  unfold sortedBuckets
  split
  · exact bounded
  · rw [length_take]
    omega

variable (target : NodeId) (now : Instant)

/-- Nothing stands at the position of the table's own id. -/
theorem good_at_end : goodAt t now maxBuckets = [] := by
  unfold goodAt
  rw [List.getElem?_eq_none (sorted_buckets_length placed)]
  apply filter_eq_nil_iff.mpr
  intro n member
  have position := good_position placed (assorted_subset placed member)
  simp only [decide_eq_true_eq]
  omega

/-- Going through the positions is going through the table. -/
theorem good_at_perm :
    ((List.range maxBuckets).flatMap (goodAt t now)).Perm (good now (allNodes t)) := by
  have sorted : (List.range maxBuckets).flatMap (fun index =>
      good now ((((sortedBuckets t.buckets)[index]?).map (·.nodes)).getD [])) =
      good now ((sortedBuckets t.buckets).flatMap (·.nodes)) := by
    unfold good
    rw [filter_flatMap, ← flatMap_positions (fun b : Bucket =>
      b.nodes.filter (·.isPingableAt now)) _ maxBuckets (sorted_buckets_length placed)]
    apply flatMap_congr
    intro index _
    cases (sortedBuckets t.buckets)[index]? <;> rfl
  have assorted : ((List.range maxBuckets).flatMap fun index =>
      (good now (assortedPart t.buckets)).filter fun n =>
        leadingBitCount t.nodeId n.id = index).Perm (good now (assortedPart t.buckets)) := by
    apply flatMap_parts _ _ _ nodup_range
    intro n member
    exact mem_range.mpr (good_position placed (assorted_subset placed member))
  have whole : good now (allNodes t) = good now ((sortedBuckets t.buckets).flatMap (·.nodes)) ++
      good now (assortedPart t.buckets) := by
    unfold allNodes good
    rw [← parts_whole (table_nonempty placed), filter_append]
  rw [whole, ← sorted]
  exact (flatMap_append_perm _ _ _).symm.trans (List.Perm.append_left _ assorted)

theorem visits_perm : ((visits t target).flatMap (goodAt t now)).Perm
      ((List.range maxBuckets).flatMap (goodAt t now)) := by
  have distinct : (visits t target).Nodup :=
    (visits_sorted t target).imp fun less same => by rw [same] at less; exact Nat.lt_irrefl _ less
  by_cases inside : leadingBitCount t.nodeId target < maxBuckets
  · apply List.Perm.flatMap_right
    apply (perm_ext_iff_of_nodup distinct nodup_range).mpr
    intro index
    rw [mem_visits, mem_range]
    omega
  · -- the walk starts behind the last position
    have atEnd : leadingBitCount t.nodeId target = maxBuckets := by
      have bound := leading_bit_count_le t.nodeId target
      omega
    have extended : (visits t target).Perm (maxBuckets :: List.range maxBuckets) := by
      apply (perm_ext_iff_of_nodup distinct ?_).mpr
      · intro index
        rw [mem_visits, mem_cons, mem_range, atEnd]
      · exact nodup_cons.mpr ⟨by simp, nodup_range⟩
    have flat := List.Perm.flatMap_right (goodAt t now) extended
    rw [flatMap_cons, good_at_end placed, nil_append] at flat
    exact flat

theorem remaining_perm : (remaining now (startOf t target)).Perm (good now (allNodes t)) := by
  rw [remaining_start]
  exact (visits_perm placed target now).trans (good_at_perm placed now)

theorem all_nodes_length : (allNodes t).length ≤ 1280 := by
  have count : (allNodes t).length = t.buckets.length * maxBucketSize := by
    unfold allNodes
    induction t.buckets with
    | nil => rfl
    | cons b rest ih =>
      rw [flatMap_cons, length_append, b.size, ih, length_cons, Nat.succ_mul,
        Nat.add_comm]
  have bounded := placed.bounded
  have limit : maxBuckets = 160 := rfl
  have eight : maxBucketSize = 8 := rfl
  rw [count, eight]
  omega

theorem remaining_length : (remaining now (startOf t target)).length ≤ 1280 := by
  rw [(remaining_perm placed target now).length_eq]
  exact Nat.le_trans (length_filter_le _ _) (all_nodes_length placed)

theorem good_handles : (good now (allNodes t)).Pairwise fun m n => m.handle ≠ n.handle := by
  have live : ∀ n : Node, n.isPingableAt now → n.live := fun n pingable =>
    Node.pingable_live (by simpa [Node.isPingableAt] using pingable)
  unfold allNodes good
  rw [filter_flatMap]
  apply pairwise_flatMap.mpr
  constructor
  · intro b member
    have apart := (placed.tidy b member).distinct.sublist
      (filter_sublist (p := fun n => n.isPingableAt now))
    apply apart.imp_of_mem
    intro m n _ isN different same
    exact different same (live n (mem_filter.mp isN).2)
  · apply pairwise_iff_getElem.mpr
    intro i j insideI insideJ before m isM n isN same
    obtain ⟨memberM, pingM⟩ := mem_filter.mp isM
    obtain ⟨memberN, pingN⟩ := mem_filter.mp isN
    have placeM := placed.placed i _ (List.getElem?_eq_getElem insideI) m memberM (live m pingM)
    have placeN := placed.placed j _ (List.getElem?_eq_getElem insideJ) n memberN (live n pingN)
    have sameId : m.id = n.id := congrArg NodeHandle.id same
    have sameIndex : i = j := by rw [placeM.2, placeN.2, sameId]
    omega

end

/-- For every table built by `add_node` calls, every target and every clock reading, iterating to
    the end returns, and yields exactly the good and questionable nodes of the table, each once
    and no two with one handle. -/
theorem closest_nodes_complete (nodeId : NodeId) (nodes : List Node) (clock : Clock) :
    ∃ t clock', (RoutingTable.new nodeId).addNodes nodes clock =
        ((.ok t, clock') : Outcome Unit RoutingTable × Clock) ∧
      ∀ target now, ∃ s yielded,
        (closestNodes t target : Outcome Unit ClosestNodes) = .ok s ∧
        (∀ fuel, 1280 < fuel → (s.collect fuel (fixed now) : Outcome Unit (List Node) × Clock) =
          (.ok yielded, fixed now)) ∧
        yielded.Perm ((t.buckets.flatMap (·.nodes)).filter fun n => n.statusAt now ≠ .bad) ∧
        yielded.Pairwise fun m n => m.handle ≠ n.handle := by
  obtain ⟨t, count, ended, placed, _⟩ :=
    clocked_add_nodes (new_placed nodeId) nodes (ε := Unit) clock
  refine ⟨t, advance count clock, ended, ?_⟩
  intro target now
  have perm := remaining_perm placed target now
  refine ⟨startOf t target, remaining now (startOf t target), closest_nodes_ok placed target, ?_,
    perm, ?_⟩
  · intro fuel enough
    apply collect_fixed now fuel _ (start_walking t target)
    exact Nat.lt_of_le_of_lt (remaining_length placed target now) enough
  · exact (perm.pairwise_iff fun different same => different same.symm).mpr
      (good_handles placed now)

end Table

end DhtVisit
