import Bittorrent.Dht.Lookup

/-!
The list of all nodes a lookup has heard of, sorted by distance, and the nodes that are picked from
it or from a response. The list names no handle twice unless an id comes with two addresses.
-/
namespace DhtCandidates
open Rust UtilSha DhtNode DhtClosest DhtVisit DhtUpdate DhtMessage DhtTransaction DhtWorker
  DhtLookup

section Order

theorem compare_swap (a b : ShaHash) : compare a b = (compare b a).swap := by
  have bytes : compare a.asRef b.asRef = (compare b.asRef a.asRef).swap := Std.OrientedCmp.eq_swap
  exact bytes

instance : Std.TransOrd ShaHash where
  eq_swap := compare_swap _ _
  isLE_trans := by
    intro a b c first second
    have bytes : (compare a.asRef c.asRef).isLE := Std.TransCmp.isLE_trans first second
    exact bytes

theorem compare_eq {a b : ShaHash} (equal : compare a b = .eq) : a = b := by
  have bytes : a.asRef = b.asRef := Std.LawfulEqCmp.eq_of_compare equal
  exact as_ref_injective bytes

theorem bit_xor_injective (target : ShaHash) {a b : ShaHash} (same : bitXor target a = bitXor target b) :
    a = b := by
  obtain ⟨a⟩ := a
  obtain ⟨b⟩ := b
  unfold bitXor at same
  rw [ShaHash.mk.injEq] at same ⊢
  apply Vector.ext
  intro i inside
  have item := congrArg (fun v : Vector UInt8 shaHashLen => v[i]) same
  simpa using item

end Order

section List
open List
variable {ε : Type} {target : InfoHash} {nodes : List Candidate}

def handles (nodes : List Candidate) : List NodeHandle := nodes.map (·.node)

/-- The list of all nodes as it should be: by distance, and no handle twice. -/
structure Listed (target : InfoHash) (nodes : List Candidate) : Prop where
  sorted : nodes.Pairwise fun c d => (compare c.distance d.distance).isLE
  measured : ∀ c ∈ nodes, c.distance = bitXor target c.node.id
  distinct : (handles nodes).Nodup

theorem listed_ascending (listed : Listed target nodes) (dist : ShaHash) :
    Ascending (fun c : Candidate => compare c.distance dist) nodes := by
  apply listed.sorted.imp
  intro c d order
  constructor
  · intro greater
    rw [Std.OrientedCmp.gt_iff_lt] at greater ⊢
    exact Std.TransCmp.lt_of_lt_of_isLE greater order
  · intro less
    exact Std.TransCmp.lt_of_isLE_of_lt order less

variable {node : NodeHandle}

section
variable (listed : Listed target nodes)
include listed

theorem insert_listed (pinged : Bool)
    (unknown : node ∉ handles nodes) {index : Nat} (inside : index ≤ nodes.length)
    (before : ∀ (k : Nat) (c : Candidate), k < index → nodes[k]? = some c →
      (compare c.distance (bitXor target node.id)).isLE)
    (behind : ∀ (k : Nat) (c : Candidate), index ≤ k → nodes[k]? = some c →
      (compare (bitXor target node.id) c.distance).isLE) :
    Listed target (nodes.insertIdx index ⟨bitXor target node.id, node, pinged⟩) := by
  have perm : (nodes.insertIdx index ⟨bitXor target node.id, node, pinged⟩).Perm
      (⟨bitXor target node.id, node, pinged⟩ :: nodes) := perm_insertIdx _ _ inside
  refine ⟨insert_pairwise nodes index listed.sorted before behind, ?_, ?_⟩
  · intro c member
    rcases mem_cons.mp (perm.mem_iff.mp member) with rfl | old
    · rfl
    · exact listed.measured c old
  · apply (perm.map (·.node)).nodup_iff.mpr
    exact nodup_cons.mpr ⟨unknown, listed.distinct⟩

theorem missing_unknown (missing : ∀ c ∈ nodes, compare c.distance (bitXor target node.id) ≠ .eq) :
    node ∉ handles nodes := by
  intro known
  obtain ⟨c, member, same⟩ := mem_map.mp known
  apply missing c member
  rw [listed.measured c member, same]
  exact Std.ReflCmp.compare_self

/-- Insertion of a handle that is not known under its id with another address: a known one changes
    nothing, a new one is added. -/
theorem insert_sorted_listed (node : NodeHandle) (pinged : Bool)
    (single : node ∈ handles nodes → ∀ m ∈ handles nodes, m.id = node.id → m = node) :
    ∃ nodes', (insertSortedNode nodes target node pinged : Outcome ε _) = .ok nodes' ∧
      Listed target nodes' ∧ ((node ∈ handles nodes ∧ nodes' = nodes) ∨
        (node ∉ handles nodes ∧ nodes'.Perm (⟨bitXor target node.id, node, pinged⟩ :: nodes))) := by
  unfold insertSortedNode
  dsimp only
  have ascending := listed_ascending listed (bitXor target node.id)
  rcases binary_search_sorted ascending with
    ⟨index, other, found, there, equal⟩ | ⟨index, missing, inside, before, behind⟩
  · rw [found]
    dsimp only
    rw [there]
    dsimp only
    have member : other ∈ nodes := mem_of_getElem? there
    have inside := Nat.le_of_lt (List.getElem?_eq_some_iff.mp there).1
    by_cases known : node ∈ handles nodes
    · -- only the handle itself has this distance
      have sameId : other.node.id = node.id := by
        apply bit_xor_injective target
        rw [← listed.measured other member]
        exact compare_eq equal
      have same := single known other.node (mem_map_of_mem member) sameId
      rw [if_neg (not_not.mpr same)]
      exact ⟨nodes, rfl, listed, .inl ⟨known, rfl⟩⟩
    · have different : other.node ≠ node := by
        intro same
        exact known (same ▸ mem_map_of_mem member)
      rw [if_pos different]
      refine ⟨_, insert_at_ok inside _, ?_, .inr ⟨known, perm_insertIdx _ _ inside⟩⟩
      apply insert_listed listed pinged known inside
      · intro k c smaller atK
        exact ascending_before ascending (Nat.le_of_lt smaller) atK there equal
      · intro k c larger atK
        rw [compare_swap, Ordering.isLE_swap]
        exact ascending_behind ascending larger there atK equal
  · rw [missing]
    have unknown : node ∉ handles nodes := by
      apply missing_unknown listed
      intro c member equal
      obtain ⟨k, bound, atK⟩ := mem_iff_getElem.mp member
      have here : nodes[k]? = some c := by rw [List.getElem?_eq_getElem bound, atK]
      rcases Nat.lt_or_ge k index with smaller | larger
      · rw [before k c smaller here] at equal
        cases equal
      · rw [behind k c larger here] at equal
        cases equal
    refine ⟨_, insert_at_ok inside _, ?_, .inr ⟨unknown, perm_insertIdx _ _ inside⟩⟩
    apply insert_listed listed pinged unknown inside
    · intro k c smaller atK
      rw [before k c smaller atK]
      rfl
    · intro k c larger atK
      rw [compare_swap, behind k c larger atK]
      rfl

end

/-- A handle that would be met twice is the only one with its id. -/
def Single (known added : List NodeHandle) : Prop :=
  ∀ n ∈ added, (n ∈ known ∨ 2 ≤ added.count n) → ∀ m ∈ known ++ added, m.id = n.id → m = n

instance (known added : List NodeHandle) : Decidable (Single known added) :=
  inferInstanceAs (Decidable (∀ n ∈ added, _ → ∀ m ∈ known ++ added, _ → _))

theorem single_rest {known known' : List NodeHandle} {rest : List NodeHandle}
    (single : Single known (node :: rest)) (grown : ∀ n ∈ known', n ∈ known ∨ n = node) :
    Single known' rest := by
  intro n member again m among sameId
  apply single n (.tail _ member) ?_ m ?_ sameId
  · rcases again with old | twice
    · rcases grown n old with known | rfl
      · exact .inl known
      · right
        have once := count_pos_iff.mpr member
        rw [count_cons_self]
        omega
    · right
      have more : rest.count n ≤ (node :: rest).count n := count_le_count_cons
      omega
  · rcases mem_append.mp among with old | new
    · rcases grown m old with known | rfl
      · exact mem_append_left _ known
      · exact mem_append_right _ (.head _)
    · exact mem_append_right _ (.tail _ new)

theorem insert_all_listed (pinged : NodeHandle → Bool) (added : List NodeHandle) :
    ∀ nodes : List Candidate, Listed target nodes → Single (handles nodes) added →
      ∃ nodes', (insertSortedNodes target pinged added nodes : Outcome ε _) = .ok nodes' ∧
        Listed target nodes' ∧
        ∀ c ∈ nodes', c ∈ nodes ∨ (c.node ∈ added ∧ c.pinged = pinged c.node) := by
  induction added with
  | nil =>
    intro nodes listed _
    exact ⟨nodes, rfl, listed, fun c member => .inl member⟩
  | cons node rest ih =>
    intro nodes listed single
    have alone : node ∈ handles nodes → ∀ m ∈ handles nodes, m.id = node.id → m = node := by
      intro known m member
      exact single node (.head _) (.inl known) m (mem_append_left _ member)
    obtain ⟨first, inserted, listed', grown⟩ :=
      insert_sorted_listed (ε := ε) listed node (pinged node) alone
    have members : ∀ c ∈ first, c ∈ nodes ∨ c = ⟨bitXor target node.id, node, pinged node⟩ := by
      intro c member
      rcases grown with ⟨_, same⟩ | ⟨_, perm⟩
      · exact .inl (same ▸ member)
      · rcases mem_cons.mp (perm.mem_iff.mp member) with new | old
        · exact .inr new
        · exact .inl old
    have known : ∀ n ∈ handles first, n ∈ handles nodes ∨ n = node := by
      intro n isHandle
      obtain ⟨c, member, rfl⟩ := mem_map.mp isHandle
      rcases members c member with old | rfl
      · exact .inl (mem_map_of_mem old)
      · exact .inr rfl
    obtain ⟨last, others, listed'', added⟩ := ih first listed' (single_rest single known)
    refine ⟨last, ?_, listed'', ?_⟩
    · rw [insertSortedNodes, inserted, Outcome.ok_bind, others]
    · intro c member
      rcases added c member with old | ⟨new, mark⟩
      · rcases members c old with old | rfl
        · exact .inl old
        · exact .inr ⟨.head _, rfl⟩
      · exact .inr ⟨.tail _ new, mark⟩

/-- The handles of the list that the endgame would ask. -/
def unasked (nodes : List Candidate) : List NodeHandle :=
  (nodes.filter fun c => c.pinged = false).map (·.node)

theorem unasked_mem {n : NodeHandle} :
    n ∈ unasked nodes ↔ ∃ c ∈ nodes, c.pinged = false ∧ c.node = n := by
  simp [unasked, and_assoc]

theorem unasked_nodup (listed : Listed target nodes) : (unasked nodes).Nodup :=
  listed.distinct.sublist (List.Sublist.map _ filter_sublist)

end List

section Picked
open List
variable (targetId : InfoHash)

theorem used_insert_subset (node : NodeHandle) (slots : List Slot) :
    usedNodes (insertClosestNodes targetId node slots) ⊆ node :: usedNodes slots := by
  induction slots with
  | nil => exact nil_subset _
  | cons slot rest ih =>
    obtain ⟨old, used⟩ := slot
    unfold insertClosestNodes
    cases used with
    | false => simp [usedNodes]
    | true =>
      rw [if_neg (by simp)]
      split
      · simp [usedNodes]
      · intro n member
        have parts : n = old ∨ n ∈ usedNodes (insertClosestNodes targetId node rest) := by
          simpa [usedNodes] using member
        rcases parts with rfl | inside
        · simp [usedNodes]
        · rcases mem_cons.mp (ih inside) with rfl | kept
          · exact .head _
          · exact mem_cons_of_mem _ (by simp only [usedNodes] at kept ⊢; simpa using Or.inr kept)

theorem used_insert_nonempty (node : NodeHandle) {slots : List Slot} (room : slots ≠ []) :
    insertClosestNodes targetId node slots ≠ [] ∧
      usedNodes (insertClosestNodes targetId node slots) ≠ [] := by
  cases slots with
  | nil => exact absurd rfl room
  | cons slot rest =>
    obtain ⟨old, used⟩ := slot
    unfold insertClosestNodes
    cases used with
    | false => simp [usedNodes]
    | true =>
      rw [if_neg (by simp)]
      split <;> simp [usedNodes]

theorem picked_subset (nodes : List NodeHandle) : usedNodes (pickIterateNodes nodes targetId) ⊆ nodes := by
  refine List.foldlRecOn (motive := (usedNodes · ⊆ nodes)) nodes _ (by simp [usedNodes, unusedSlot]) ?_
  intro slots inside node member
  refine List.Subset.trans (used_insert_subset targetId node slots) ?_
  exact cons_subset.mpr ⟨member, inside⟩

theorem picked_nonempty {nodes : List NodeHandle} (some : nodes ≠ []) :
    usedNodes (pickIterateNodes nodes targetId) ≠ [] := by
  cases nodes with
  | nil => exact absurd rfl some
  | cons node rest =>
    refine (List.foldlRecOn (motive := fun slots => slots ≠ [] ∧ usedNodes slots ≠ []) rest _ ?_
      fun _ held node _ => used_insert_nonempty targetId node held.1).2
    exact used_insert_nonempty targetId node nofun

theorem used_any {slots : List Slot} {node : NodeHandle} (member : node ∈ usedNodes slots) :
    slots.any (·.1 = node) = true := by
  obtain ⟨slot, inside, rfl⟩ := mem_map.mp member
  rw [any_eq_true]
  exact ⟨slot, (mem_filter.mp inside).1, by simp⟩

end Picked

section Creation
open List
variable {ε : Type}

theorem single_distinct {nodes : List NodeHandle} (distinct : nodes.Nodup) : Single [] nodes := by
  rintro n member (known | twice)
  · simp at known
  · have once := nodup_iff_count_le_one.mp distinct n
    omega

theorem initial_picks (sorted : List Candidate) :
    usedNodes (pickInitialNodes sorted).1 = (handles sorted).take initialPickNum := by
  have spare : ∀ count, usedNodes (List.replicate count unusedSlot) = [] := by
    intro count
    simp [usedNodes, unusedSlot]
  unfold pickInitialNodes
  have parts : ∀ a b : List Slot, usedNodes (a ++ b) = usedNodes a ++ usedNodes b := by
    intro a b
    simp [usedNodes]
  have all : ∀ nodes : List Candidate,
      usedNodes (nodes.map fun c => (c.node, true)) = handles nodes := by
    intro nodes
    simp [usedNodes, handles, filter_map, Function.comp_def]
  rw [parts, spare, append_nil, all]
  exact map_take

theorem initial_marks {target : InfoHash} {sorted : List Candidate} (listed : Listed target sorted) :
    Listed target (pickInitialNodes sorted).2 ∧
      handles (pickInitialNodes sorted).2 = handles sorted ∧
      ∀ n ∈ unasked (pickInitialNodes sorted).2, n ∉ (handles sorted).take initialPickNum := by
  have whole : sorted.take initialPickNum ++ sorted.drop initialPickNum = sorted :=
    take_append_drop _ _
  have sameHandles : handles (pickInitialNodes sorted).2 = handles sorted := by
    unfold pickInitialNodes handles
    rw [map_append, map_map]
    conv_rhs => rw [← whole, map_append]
    rfl
  have sameDistances : (pickInitialNodes sorted).2.map (·.distance) = sorted.map (·.distance) := by
    unfold pickInitialNodes
    rw [map_append, map_map]
    conv_rhs => rw [← whole, map_append]
    rfl
  refine ⟨⟨?_, ?_, ?_⟩, sameHandles, ?_⟩
  · have order := fun nodes => pairwise_map (f := fun c : Candidate => c.distance)
      (R := fun d e => (compare d e).isLE = true) (l := nodes)
    rw [← order, sameDistances, order]
    exact listed.sorted
  · intro c member
    rcases mem_append.mp member with front | back
    · obtain ⟨d, inside, rfl⟩ := mem_map.mp front
      exact listed.measured d (mem_of_mem_take inside)
    · exact listed.measured c (mem_of_mem_drop back)
  · rw [sameHandles]
    exact listed.distinct
  · intro n waiting front
    obtain ⟨c, member, unmarked, rfl⟩ := unasked_mem.mp waiting
    rcases mem_append.mp member with marked | back
    · obtain ⟨d, _, rfl⟩ := mem_map.mp marked
      cases unmarked
    · have apart : ((handles sorted).take initialPickNum ++ (handles sorted).drop initialPickNum).Nodup := by
        rw [take_append_drop]
        exact listed.distinct
      have behind : c.node ∈ (handles sorted).drop initialPickNum := by
        unfold handles
        rw [← map_drop]
        exact mem_map_of_mem back
      exact disjoint_of_nodup_append apart front behind

end Creation

end DhtCandidates
