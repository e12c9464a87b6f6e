import Bittorrent.Dht.Table

/-!
Where the nodes of a routing table are, after any sequence of `add_node` calls at any clock
readings: every node that ever responded sits in the bucket of its prefix, no handle has two such
entries, and the recursion comes to an end with at most 160 buckets.
-/
namespace DhtPlacement
open Rust UtilSha BitPrefix DhtNode DhtTable

variable {ε : Type}

/-- `leading_bit_count` is the number of leading bits two ids share. -/
theorem leading_bit_count_agree (a b : NodeId) : leadingBitCount a b = agree a.toBits b.toBits :=
  leading_bits_xor a b

theorem leading_bit_count_le (a b : NodeId) : leadingBitCount a b ≤ maxBuckets := by
  rw [leading_bit_count_agree]
  have bound := agree_le a.toBits b.toBits
  rw [to_bits_length] at bound
  exact bound

theorem leading_bit_count_full (a b : NodeId) : leadingBitCount a b = maxBuckets ↔ a = b := by
  have full := agree_full ((to_bits_length a).trans (to_bits_length b).symm)
  rw [to_bits_length] at full
  rw [leading_bit_count_agree]
  constructor
  · intro all
    exact to_bits_injective (full.mp all)
  · intro same
    exact full.mpr (congrArg ShaHash.toBits same)

def distance (a b : NodeId) : Nat := value (bitXor a b).toBits

/-- The count is the place of the first bit in which two ids differ, and more shared bits mean a
    smaller distance. -/
theorem leading_bit_count_first (a b : NodeId) :
    (∀ i < leadingBitCount a b, a.toBits[i]? = b.toBits[i]?) ∧
      (leadingBitCount a b < 160 →
        a.toBits[leadingBitCount a b]? ≠ b.toBits[leadingBitCount a b]?) ∧
      (leadingBitCount a b = 160 ↔ a = b) ∧
      ∀ c, leadingBitCount a b < leadingBitCount a c → distance a c < distance a b := by
  have size : ∀ x y : NodeId, x.toBits.length = y.toBits.length := fun x y =>
    (to_bits_length x).trans (to_bits_length y).symm
  refine ⟨?_, ?_, leading_bit_count_full a b, ?_⟩
  · rw [leading_bit_count_agree]
    exact fun i before => agree_before _ _ before
  · rw [leading_bit_count_agree, ← to_bits_length a]
    exact agree_parts (size a b)
  · intro c more
    rw [leading_bit_count_agree, leading_bit_count_agree, agree_xor, agree_xor, ← to_bits_xor,
      ← to_bits_xor] at more
    exact value_lt_of_leading (size _ _) more

/-- The entries of a bucket: placeholders and nodes that have responded, and behind an entry none
    with its handle that has responded. -/
structure Tidy (b : Bucket) : Prop where
  entries : ∀ n ∈ b.nodes, n = placeholder ∨ n.live
  distinct : b.nodes.Pairwise fun m n => m.handle = n.handle → ¬ n.live

theorem placeholder_not_live : ¬ placeholder.live := by decide

theorem new_not_live {n : Node} (member : n ∈ Bucket.new.nodes) : ¬ n.live := by
  rw [List.eq_of_mem_replicate member]
  exact placeholder_not_live

theorem new_tidy : Tidy Bucket.new := by
  constructor
  · intro n member
    exact .inl (List.eq_of_mem_replicate member)
  · apply List.pairwise_replicate.mpr
    right
    intro _
    exact placeholder_not_live

/-- The node takes an entry with its handle that has none of the kind before it, or any entry if
    there is none with its handle. -/
def MayReplace (b : Bucket) (index : Nat) (node : Node) : Prop :=
  (∃ old, b.nodes[index]? = some old ∧ old.handle = node.handle ∧
    ∀ j < index, ∀ m, b.nodes[j]? = some m → m.handle ≠ node.handle) ∨
  ∀ m ∈ b.nodes, m.handle ≠ node.handle

theorem replace_tidy {b : Bucket} {index : Nat} {node : Node} (tidy : Tidy b)
    (live : node.live) (may : MayReplace b index node) : Tidy (b.replace index node) := by
  constructor
  · intro n member
    rcases List.mem_or_eq_of_mem_set member with old | new
    · exact tidy.entries n old
    · exact .inr (new ▸ live)
  · apply List.pairwise_iff_getElem.mpr
    intro i j insideI insideJ before
    have sizeI : i < b.nodes.length := by simpa [Bucket.replace] using insideI
    have sizeJ : j < b.nodes.length := by simpa [Bucket.replace] using insideJ
    have apart := List.pairwise_iff_getElem.mp tidy.distinct i j sizeI sizeJ before
    simp only [Bucket.replace, List.getElem_set]
    by_cases atI : index = i
    · have notJ : index ≠ j := by omega
      rw [if_pos atI, if_neg notJ]
      intro same
      rcases may with ⟨old, found, handle, _⟩ | none
      · rw [atI, List.getElem?_eq_getElem sizeI] at found
        cases found
        exact apart (handle.trans same)
      · exact absurd same.symm (none _ (List.getElem_mem _))
    · rw [if_neg atI]
      by_cases atJ : index = j
      · rw [if_pos atJ]
        intro same
        rcases may with ⟨old, _, _, first⟩ | none
        · exact absurd same (first i (by omega) _ (List.getElem?_eq_getElem sizeI))
        · exact absurd same (none _ (List.getElem_mem _))
      · rw [if_neg atJ]
        exact apart

theorem clocked_lower_position (status : NodeStatus) (index : Nat) (nodes : List Node) :
    Clocked (fun _ => True) (lowerPosition status index nodes : Timed ε (Option Nat)) := by
  induction nodes generalizing index with
  | nil => exact clocked_pure trivial
  | cons node rest ih =>
    refine clocked_bind (Node.clocked_status node) fun s _ => ?_
    split
    · exact clocked_pure trivial
    · exact ih (index + 1)

/-- What adding a node to a bucket can do. -/
def AddedTo (b : Bucket) (node : Node) (answer : Bool × Bucket) : Prop :=
  answer.2 = b ∨
    answer.1 = true ∧ node.live ∧ ∃ index, MayReplace b index node ∧ answer.2 = b.replace index node

theorem clocked_bucket_add (b : Bucket) (node : Node) :
    Clocked (AddedTo b node) (b.addNode node : Timed ε (Bool × Bucket)) := by
  refine clocked_bind (Node.clocked_status node) fun newStatus alive => ?_
  by_cases isBad : newStatus = .bad
  · rw [if_pos isBad]
    exact clocked_pure (.inl rfl)
  · rw [if_neg isBad]
    have live := alive isBad
    cases found : b.nodes.findIdx? fun other => other.handle = node.handle with
    | some index =>
      obtain ⟨inside, handle, first⟩ := List.findIdx?_eq_some_iff_getElem.mp found
      have may : MayReplace b index node := by
        left
        refine ⟨_, List.getElem?_eq_getElem inside, by simpa using handle, ?_⟩
        intro j before m there
        have insideJ : j < b.nodes.length := by omega
        rw [List.getElem?_eq_getElem insideJ] at there
        cases there
        simpa using first j before
      simp only [List.getElem?_eq_getElem inside]
      refine clocked_bind (Node.clocked_status _) fun otherStatus _ => ?_
      split
      · exact clocked_pure (.inr ⟨rfl, live, index, may, rfl⟩)
      · exact clocked_pure (.inl rfl)
    | none =>
      have may : ∀ index, MayReplace b index node := by
        intro index
        right
        intro m member
        simpa using List.findIdx?_eq_none_iff.mp found m member
      refine clocked_bind (clocked_lower_position newStatus 0 b.nodes) fun place _ => ?_
      cases place with
      | some index => exact clocked_pure (.inr ⟨rfl, live, index, may index, rfl⟩)
      | none => exact clocked_pure (.inl rfl)

/-- The bucket at this index is the one for the node. -/
def Belongs (t : RoutingTable) (index : Nat) (n : Node) : Prop :=
  leadingBitCount t.nodeId n.id ≠ maxBuckets ∧
    index = min (leadingBitCount t.nodeId n.id) (t.buckets.length - 1)

structure Placed (t : RoutingTable) : Prop where
  nonempty : 1 ≤ t.buckets.length
  bounded : t.buckets.length ≤ maxBuckets
  tidy : ∀ b ∈ t.buckets, Tidy b
  placed : ∀ (index : Nat) (b : Bucket), t.buckets[index]? = some b →
    ∀ n ∈ b.nodes, n.live → Belongs t index n

theorem new_placed (nodeId : NodeId) : Placed (RoutingTable.new nodeId) := by
  constructor
  · exact Nat.le_refl 1
  · change 1 ≤ maxBuckets
    decide
  · intro b member
    rw [List.mem_singleton.mp member]
    exact new_tidy
  · intro index b found n member live
    have isNew : b = Bucket.new := List.mem_singleton.mp (List.mem_of_getElem? found)
    rw [isNew] at member
    exact absurd live (new_not_live member)

theorem bucket_placement_min (k n : Nat) (nonempty : 1 ≤ n) :
    bucketPlacement k n = min k (n - 1) := by
  unfold bucketPlacement
  split <;> omega

variable {t : RoutingTable}

/-- The node went into its bucket, or the bucket is as it was. -/
theorem set_placed {node : Node} {index : Nat} {b : Bucket} {answer : Bool × Bucket}
    (placed : Placed t) (found : t.buckets[index]? = some b) (belongs : Belongs t index node)
    (added : AddedTo b node answer) :
    Placed { t with buckets := t.buckets.set index answer.2 } := by
  have tidy := placed.tidy b (List.mem_of_getElem? found)
  have tidyNew : Tidy answer.2 := by
    rcases added with same | ⟨_, live, place, may, same⟩
    · exact same ▸ tidy
    · exact same ▸ replace_tidy tidy live may
  constructor
  · simpa using placed.nonempty
  · simpa using placed.bounded
  · intro c member
    rcases List.mem_or_eq_of_mem_set member with old | new
    · exact placed.tidy c old
    · exact new ▸ tidyNew
  · intro i c there n member live
    have belongsOld : Belongs t i n := by
      by_cases here : index = i
      · have inside : index < t.buckets.length := (List.getElem?_eq_some_iff.mp found).1
        have isNew : answer.2 = c := by
          rw [← here, List.getElem?_set_self inside] at there
          exact Option.some.inj there
        rcases added with same | ⟨_, _, place, _, same⟩
        · rw [← isNew, same] at member
          exact here ▸ placed.placed index b found n member live
        · rw [← isNew, same] at member
          rcases List.mem_or_eq_of_mem_set member with old | new
          · exact here ▸ placed.placed index b found n old live
          · rw [new, ← here]
            exact belongs
      · rw [List.getElem?_set_ne here] at there
        exact placed.placed i c there n member live
    unfold Belongs at belongsOld ⊢
    simpa using belongsOld

/-- Taking the last bucket apart: the others stay where they are, and the two new ones are
    empty. -/
theorem split_placed (placed : Placed t) (room : t.buckets.length < maxBuckets) :
    Placed { t with buckets := t.buckets.dropLast ++ [Bucket.new, Bucket.new] } := by
  have size : (t.buckets.dropLast ++ [Bucket.new, Bucket.new]).length = t.buckets.length + 1 := by
    have nonempty := placed.nonempty
    simp only [List.length_append, List.length_dropLast, List.length_cons, List.length_nil]
    omega
  constructor
  · dsimp only
    omega
  · dsimp only
    omega
  · intro b member
    rcases List.mem_append.mp member with old | new
    · exact placed.tidy b ((List.dropLast_sublist _).subset old)
    · have isNew : b = Bucket.new := by simpa using new
      rw [isNew]
      exact new_tidy
  · intro index b found n member live
    by_cases kept : index < t.buckets.length - 1
    · have old : t.buckets[index]? = some b := by
        rw [List.getElem?_append_left (by simpa using kept), List.getElem?_dropLast,
          if_pos kept] at found
        exact found
      obtain ⟨other, position⟩ := placed.placed index b old n member live
      refine ⟨other, ?_⟩
      change index = min (leadingBitCount t.nodeId n.id) _
      rw [size]
      omega
    · have isNew : b = Bucket.new := by
        rw [List.getElem?_append_right (by simpa using kept)] at found
        simpa using List.mem_of_getElem? found
      rw [isNew] at member
      exact absurd live (new_not_live member)

/-- The table is sound, is about the same node and has at least as many buckets. -/
def Extends (t t' : RoutingTable) : Prop :=
  Placed t' ∧ t'.nodeId = t.nodeId ∧ t.buckets.length ≤ t'.buckets.length

theorem extends_trans {t' t'' : RoutingTable} (first : Extends t t') (second : Extends t' t'') :
    Extends t t'' :=
  ⟨second.1, second.2.1.trans first.2.1, Nat.le_trans first.2.2 second.2.2⟩

/-- `bucket_node` does its work on tables with this many buckets or more. -/
def Places (place : RoutingTable → Node → Nat → Timed ε RoutingTable) (least : Nat) : Prop :=
  ∀ t node, Placed t → least ≤ t.buckets.length →
    leadingBitCount t.nodeId node.id ≠ maxBuckets →
    Clocked (Extends t) (place t node (leadingBitCount t.nodeId node.id))

section Circle
variable {place : RoutingTable → Node → Nat → Timed ε RoutingTable} {least : Nat}
variable {t : RoutingTable}

section
variable (places : Places place least)
include places

theorem clocked_add_node_with (node : Node) (placed : Placed t) (enough : least ≤ t.buckets.length) :
    Clocked (Extends t) (t.addNodeWith place node) := by
  have unchanged : Extends t t := ⟨placed, rfl, Nat.le_refl _⟩
  refine clocked_bind (Node.clocked_status node) fun s _ => ?_
  split
  · exact clocked_pure unchanged
  · dsimp only
    split
    · rename_i other
      exact places t node placed enough other
    · exact clocked_pure unchanged

theorem clocked_add_nodes_with (nodes : List Node) (placed : Placed t) (enough : least ≤ t.buckets.length) :
    Clocked (Extends t) (t.addNodesWith place nodes) := by
  induction nodes generalizing t with
  | nil => exact clocked_pure ⟨placed, rfl, Nat.le_refl _⟩
  | cons node rest ih =>
    refine clocked_bind (clocked_add_node_with places node placed enough)
      fun t' extended => ?_
    refine clocked_weaken (ih extended.1 (Nat.le_trans enough extended.2.2))
      fun t'' => extends_trans extended

/-- A split leaves one bucket more at least, and if there is none the table is full. -/
theorem clocked_split (index : Nat) (placed : Placed t) (enough : least ≤ t.buckets.length + 1) :
    Clocked (fun answer => Extends t answer.2 ∧
        (answer.1 = true → t.buckets.length < answer.2.buckets.length))
      (t.splitBucketWith place index) := by
  unfold RoutingTable.splitBucketWith
  split
  · rename_i can
    have room : t.buckets.length < maxBuckets := by
      have bounded := placed.bounded
      have nonempty := placed.nonempty
      simp only [canSplitBucket, decide_eq_true_eq] at can
      omega
    have size : (t.buckets.dropLast ++ [Bucket.new, Bucket.new]).length =
        t.buckets.length + 1 := by
      have nonempty := placed.nonempty
      simp only [List.length_append, List.length_dropLast, List.length_cons, List.length_nil]
      omega
    cases last : t.buckets.getLast? with
    | none =>
      have empty := List.getLast?_eq_none_iff.mp last
      have nonempty := placed.nonempty
      simp [empty] at nonempty
    | some bucket =>
      refine clocked_bind (clocked_add_nodes_with places bucket.nodes
        (split_placed placed room) (by rw [size]; exact enough)) fun t' extended => ?_
      obtain ⟨sound, same, more⟩ := extended
      rw [size] at more
      have larger : t.buckets.length < t'.buckets.length := by omega
      exact clocked_pure ⟨⟨sound, same, Nat.le_of_lt larger⟩, fun _ => larger⟩
  · exact clocked_pure ⟨⟨placed, rfl, Nat.le_refl _⟩, by simp⟩

end

end Circle

/-- As many rounds as buckets are missing suffice. -/
theorem bucket_node_places (fuel : Nat) :
    Places (RoutingTable.bucketNode fuel : RoutingTable → Node → Nat → Timed ε RoutingTable)
      (maxBuckets + 1 - fuel) := by
  induction fuel with
  | zero =>
    intro t node placed enough
    have bounded := placed.bounded
    omega
  | succ fuel ih =>
    intro t node placed enough other
    have index : bucketPlacement (leadingBitCount t.nodeId node.id) t.buckets.length =
        min (leadingBitCount t.nodeId node.id) (t.buckets.length - 1) :=
      bucket_placement_min _ _ placed.nonempty
    have inside : bucketPlacement (leadingBitCount t.nodeId node.id) t.buckets.length <
        t.buckets.length := by
      have nonempty := placed.nonempty
      omega
    unfold RoutingTable.bucketNode
    generalize bucketPlacement (leadingBitCount t.nodeId node.id) t.buckets.length = place at *
    have found := List.getElem?_eq_getElem inside
    simp only [found]
    refine clocked_bind (clocked_bucket_add _ node) fun answer added => ?_
    obtain ⟨wasPlaced, bucket⟩ := answer
    have sound := set_placed placed found ⟨other, index⟩ added
    have extended : Extends t { t with buckets := t.buckets.set place bucket } :=
      ⟨sound, rfl, by simp⟩
    cases wasPlaced with
    | true => exact clocked_pure extended
    | false =>
      have enough' : maxBuckets + 1 - fuel ≤ (t.buckets.set place bucket).length + 1 := by
        rw [List.length_set]
        omega
      refine clocked_bind (clocked_split ih _ sound enough') fun answer after => ?_
      obtain ⟨wasSplit, t'⟩ := answer
      obtain ⟨further, more⟩ := after
      have whole := extends_trans extended further
      cases wasSplit with
      | false => exact clocked_pure whole
      | true =>
        have larger : (t.buckets.set place bucket).length < t'.buckets.length := more rfl
        rw [List.length_set] at larger
        have again := ih t' node whole.1 (by omega) (by rw [whole.2.1]; exact other)
        rw [whole.2.1] at again
        exact clocked_weaken again fun t'' => extends_trans whole

/-- Any number of `add_node` calls, whatever the nodes and the clock readings are. -/
theorem clocked_add_nodes (placed : Placed t) (nodes : List Node) :
    Clocked (Extends t) (t.addNodes nodes : Timed ε RoutingTable) :=
  clocked_add_nodes_with (bucket_node_places maxBuckets) nodes placed
    (by have nonempty := placed.nonempty; omega)

def entry (t : RoutingTable) (bucket slot : Nat) : Option Node :=
  t.buckets[bucket]?.bind fun b => b.nodes[slot]?

theorem entry_bucket {bucket slot : Nat} {n : Node} (found : entry t bucket slot = some n) :
    ∃ b, t.buckets[bucket]? = some b ∧ b.nodes[slot]? = some n :=
  Option.bind_eq_some_iff.mp found

theorem entry_unique (placed : Placed t) {i j k l : Nat} {m n : Node} (first : entry t i k = some m)
    (second : entry t j l = some n) (liveM : m.live) (liveN : n.live) (same : m.handle = n.handle) :
    i = j ∧ k = l := by
  obtain ⟨b, bucketB, slotM⟩ := entry_bucket first
  obtain ⟨c, bucketC, slotN⟩ := entry_bucket second
  have placeM := placed.placed i b bucketB m (List.mem_of_getElem? slotM) liveM
  have placeN := placed.placed j c bucketC n (List.mem_of_getElem? slotN) liveN
  have sameId : m.id = n.id := congrArg NodeHandle.id same
  have sameBucket : i = j := by
    rw [placeM.2, placeN.2, sameId]
  subst sameBucket
  rw [bucketB] at bucketC
  cases bucketC
  have distinct := (placed.tidy b (List.mem_of_getElem? bucketB)).distinct
  obtain ⟨insideM, isM⟩ := List.getElem?_eq_some_iff.mp slotM
  obtain ⟨insideN, isN⟩ := List.getElem?_eq_some_iff.mp slotN
  refine ⟨rfl, ?_⟩
  rcases Nat.lt_trichotomy k l with before | here | behind
  · have apart := List.pairwise_iff_getElem.mp distinct k l insideM insideN before
    rw [isM, isN] at apart
    exact absurd liveN (apart same)
  · exact here
  · have apart := List.pairwise_iff_getElem.mp distinct l k insideN insideM behind
    rw [isM, isN] at apart
    exact absurd liveM (apart same.symm)

/-- For every id, all `add_node` calls and all clock readings: the calls return; there are 1 to
    160 buckets; every good or questionable node is in the bucket of its prefix; no entry other
    than a placeholder carries the table's own id; and no handle has two pingable entries. -/
theorem add_nodes_placement (nodeId : NodeId) (nodes : List Node) (clock : Clock) :
    ∃ t clock', (RoutingTable.new nodeId).addNodes nodes clock =
        ((.ok t, clock') : Outcome Unit RoutingTable × Clock) ∧
      t.nodeId = nodeId ∧ 1 ≤ t.buckets.length ∧ t.buckets.length ≤ 160 ∧
      (∀ bucket slot n now, entry t bucket slot = some n → n.statusAt now ≠ .bad →
        bucket = min (agree nodeId.toBits n.id.toBits) (t.buckets.length - 1)) ∧
      (∀ bucket slot n, entry t bucket slot = some n → n ≠ placeholder → n.id ≠ nodeId) ∧
      (∀ bucket slot bucket' slot' m n now, entry t bucket slot = some m →
        entry t bucket' slot' = some n → m.statusAt now ≠ .bad → n.statusAt now ≠ .bad →
        m.handle = n.handle → bucket = bucket' ∧ slot = slot') := by
  obtain ⟨t, count, ended, placed, same, _⟩ :=
    clocked_add_nodes (new_placed nodeId) nodes (ε := Unit) clock
  have isId : t.nodeId = nodeId := same
  refine ⟨t, advance count clock, ended, isId, placed.nonempty, placed.bounded, ?_, ?_, ?_⟩
  · intro bucket slot n now found pingable
    obtain ⟨b, isBucket, isSlot⟩ := entry_bucket found
    have place := placed.placed bucket b isBucket n (List.mem_of_getElem? isSlot)
      (Node.pingable_live pingable)
    rw [← isId, ← leading_bit_count_agree]
    exact place.2
  · intro bucket slot n found other own
    obtain ⟨b, isBucket, isSlot⟩ := entry_bucket found
    rcases (placed.tidy b (List.mem_of_getElem? isBucket)).entries n
      (List.mem_of_getElem? isSlot) with unused | live
    · exact other unused
    · have place := placed.placed bucket b isBucket n (List.mem_of_getElem? isSlot) live
      apply place.1
      rw [leading_bit_count_full, isId, own]
  · intro bucket slot bucket' slot' m n now foundM foundN pingM pingN
    exact entry_unique placed foundM foundN (Node.pingable_live pingM) (Node.pingable_live pingN)

/-- The placeholders carry the id that is all zero, which may be the table's own: without any
    call there is such an entry already. -/
theorem placeholder_own_id :
    ∃ t n, (RoutingTable.new ⟨Vector.replicate shaHashLen 0⟩).addNodes [] (fixed 0) =
        ((.ok t, fixed 0) : Outcome Unit RoutingTable × Clock) ∧
      entry t 0 0 = some n ∧ n.id = t.nodeId :=
  ⟨RoutingTable.new ⟨Vector.replicate shaHashLen 0⟩, placeholder, rfl, rfl, rfl⟩

end DhtPlacement
