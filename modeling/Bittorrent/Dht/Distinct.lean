import Mathlib.Data.List.Nodup
import Mathlib.Data.List.Perm.Basic
import Bittorrent.Lib.Calls
import Bittorrent.Lib.Nom
import Bittorrent.Dht.Transaction

/-!
Transaction ids do not repeat before a generator has gone through its whole range. A shuffle only
changes the order of a block, so that the numbers given out and those left of the block are always
all numbers below the allocation marker.
-/
namespace DhtDistinct
open Rust Action NomParse DhtTransaction
open List hiding swap swap_perm

section Shuffle
variable {ν ε : Type}

theorem swap_perm {list : List Nat} {i j : Nat} (left : i < list.length) (right : j < list.length) :
    (swap list i j).Perm list := by
  have second : j < (list.set i list[j]).length := by rwa [length_set]
  have shape : swap list i j = (list.set i list[j]).set j list[i] := by
    simp [swap, left, right]
  rw [shape, perm_iff_count]
  intro n
  rw [count_set second, count_set left, getElem_set]
  have some : 0 < List.count list[i] list := count_pos_iff.mpr (getElem_mem left)
  by_cases same : i = j
  · subst same
    grind
  · grind

theorem shuffle_last_run (turns : Nat) : ∀ (list : List Nat) (w : World ν), turns ≤ list.length →
    ∃ ids w', (shuffleLast turns list : Action (World ν) ε (List Nat)) w = (.ok ids, w') ∧
      ids.Perm list := by
  induction turns with
  | zero => exact fun list w _ => ⟨list, w, rfl, .refl list⟩
  | succ turns ih =>
    intro list w enough
    obtain ⟨r, w₁, drawn⟩ : ∃ r w₁, (drawNat : Action (World ν) ε Nat) w = (.ok r, w₁) := ⟨_, _, rfl⟩
    have left : list.length - (turns + 1) < list.length := by omega
    have right : r % 2 ^ 64 % (list.length - (list.length - (turns + 1))) +
        (list.length - (turns + 1)) < list.length := by
      have below := Nat.mod_lt (r % 2 ^ 64)
        (show 0 < list.length - (list.length - (turns + 1)) by omega)
      omega
    have swapped := swap_perm left right
    obtain ⟨ids, w', ended, same⟩ := ih _ w₁ (by rw [swapped.length_eq]; omega)
    exact ⟨ids, w', (bind_run drawn).trans ended, same.trans swapped⟩

theorem shuffle_run (list : List Nat) (w : World ν) :
    ∃ ids w', (fisherShuffle list : Action (World ν) ε (List Nat)) w = (.ok ids, w') ∧ ids.Perm list :=
  shuffle_last_run list.length list w (Nat.le_refl _)

end Shuffle

section Blocks
variable {ν ε α β : Type} {limit id nextAlloc : Nat} {b b' : IdBlock} {drawn : List Nat} {make : Nat → α}
  {given : List α}

def left (b : IdBlock) : List Nat := b.ids.drop b.currIndex

/-- One more number: the next one of the block, or the first one of a new block. -/
def Drawn (limit : Nat) (b : IdBlock) (id : Nat) (b' : IdBlock) : Prop :=
  left b = id :: left b' ∧ b'.nextAlloc = b.nextAlloc ∨
    left b = [] ∧ (id :: left b').Perm (generateIds limit b.nextAlloc).2 ∧
      b'.nextAlloc = (generateIds limit b.nextAlloc).1

theorem next_run (limit : Nat) (b : IdBlock) (w : World ν) : ∃ id b' w',
    (b.next limit : Action (World ν) ε _) w = (.ok (id, b'), w') ∧ Drawn limit b id b' := by
  have size : (generateIds limit b.nextAlloc).2.length = preallocLen := by simp [generateIds]
  unfold Drawn IdBlock.next IdBlock.nextWithin
  generalize generateIds limit b.nextAlloc = fresh at *
  cases place : b.ids[b.currIndex]? with
  | some id =>
    obtain ⟨inside, value⟩ := List.getElem?_eq_some_iff.mp place
    refine ⟨id, _, w, rfl, .inl ⟨?_, rfl⟩⟩
    rw [left, drop_eq_getElem_cons inside, value]
    rfl
  | none =>
    have used := drop_eq_nil_of_le (List.getElem?_eq_none_iff.mp place)
    obtain ⟨ids, w', shuffled, same⟩ := shuffle_run (ε := ε) fresh.2 w
    cases ids with
    | nil => exact absurd (same.length_eq.trans size) (by decide)
    | cons id rest =>
      exact ⟨id, ⟨fresh.1, 1, id :: rest⟩, w', bind_run shuffled, .inr ⟨used, same, rfl⟩⟩

/-- The numbers of the blocks made so far. Until the limit is reached they are all numbers below the
    marker. -/
structure Swept (limit : Nat) (drawn : List Nat) (nextAlloc : Nat) : Prop where
  below : ∀ n ∈ drawn, n < limit
  all : drawn.length ≤ limit → drawn.Perm (List.range nextAlloc)
  apart : (drawn.take limit).Nodup
  bounded : nextAlloc ≤ limit
  aligned : preallocLen ∣ nextAlloc

theorem swept_start (limit : Nat) : Swept limit [] 0 :=
  ⟨by simp, fun _ => .refl _, by simp, Nat.zero_le _, Nat.dvd_zero _⟩

/-- A new block ends at or below the limit, since both are whole numbers of blocks. -/
theorem generate_ids_range (whole : preallocLen ∣ limit) (positive : 0 < limit)
    (bounded : nextAlloc ≤ limit) (aligned : preallocLen ∣ nextAlloc) :
    (generateIds limit nextAlloc).1 ≤ limit ∧ preallocLen ∣ (generateIds limit nextAlloc).1 ∧
      ∀ n ∈ (generateIds limit nextAlloc).2, n < limit := by
  have size : preallocLen = 2048 := rfl
  unfold generateIds
  simp only [mem_map, mem_range]
  rw [size] at whole aligned ⊢
  split
  · refine ⟨by omega, by omega, ?_⟩
    rintro n ⟨k, below, rfl⟩
    omega
  · refine ⟨by omega, by omega, ?_⟩
    rintro n ⟨k, below, rfl⟩
    omega

theorem swept_more {block : List Nat} (whole : preallocLen ∣ limit) (positive : 0 < limit)
    (swept : Swept limit drawn nextAlloc) (same : block.Perm (generateIds limit nextAlloc).2) :
    Swept limit (drawn ++ block) (generateIds limit nextAlloc).1 := by
  obtain ⟨below, all, apart, bounded, aligned⟩ := swept
  obtain ⟨bounded', aligned', small⟩ := generate_ids_range whole positive bounded aligned
  have length : (drawn ++ block).length = drawn.length + preallocLen := by
    simp [same.length_eq, generateIds]
  have count : drawn.length ≤ limit → drawn.length = nextAlloc := by
    intro early
    rw [(all early).length_eq, length_range]
  have all' : (drawn ++ block).length ≤ limit →
      (drawn ++ block).Perm (List.range (generateIds limit nextAlloc).1) := by
    intro early
    have positive : 0 < preallocLen := by decide
    have start : generateIds limit nextAlloc =
        (nextAlloc + preallocLen, (List.range preallocLen).map (nextAlloc + ·)) := by
      unfold generateIds
      rw [if_neg (by omega)]
    rw [start] at same ⊢
    dsimp only at same ⊢
    rw [List.range_add]
    exact (all (by omega)).append same
  refine ⟨?_, all', ?_, bounded', aligned'⟩
  · exact forall_mem_append.mpr ⟨below, fun n member => small n (same.mem_iff.mp member)⟩
  · by_cases early : (drawn ++ block).length ≤ limit
    · exact ((all' early).nodup_iff.mpr nodup_range).sublist (take_sublist _ _)
    · -- the limit lies between two blocks
      have size : preallocLen = 2048 := rfl
      rw [size] at whole aligned length
      rwa [take_append_of_le_length (by omega)]

/-- The ids that were given are made from the first numbers of the blocks. -/
def Numbered (limit : Nat) (make : Nat → α) (given : List α) (b : IdBlock) : Prop :=
  ∃ out : List Nat, given = out.map make ∧ Swept limit (out ++ left b) b.nextAlloc

theorem numbered_next (whole : preallocLen ∣ limit) (positive : 0 < limit)
    (numbered : Numbered limit make given b) (drawn : Drawn limit b id b') :
    Numbered limit make (given ++ [make id]) b' := by
  obtain ⟨out, rfl, swept⟩ := numbered
  refine ⟨out ++ [id], by simp, ?_⟩
  rw [append_assoc, singleton_append]
  rcases drawn with ⟨same, alloc⟩ | ⟨used, block, alloc⟩
  · rwa [← same, alloc]
  · rw [used, append_nil] at swept
    rw [alloc]
    exact swept_more whole positive swept block

theorem numbered_mem (numbered : Numbered limit make given b) {a : α} (member : a ∈ given) :
    ∃ n < limit, make n = a := by
  obtain ⟨out, rfl, swept⟩ := numbered
  obtain ⟨n, inside, rfl⟩ := mem_map.mp member
  exact ⟨n, swept.below n (mem_append_left _ inside), rfl⟩

/-- Different numbers make different ids, so that the first ones differ. -/
theorem numbered_apart (numbered : Numbered limit make given b) {name : α → β}
    (apart : ∀ m < limit, ∀ n < limit, name (make m) = name (make n) → m = n) :
    ((given.take limit).map name).Nodup := by
  obtain ⟨out, rfl, swept⟩ := numbered
  have early := swept.apart
  rw [List.take_append] at early
  rw [← map_take, map_map]
  refine List.Nodup.map_on ?_ (early.sublist (sublist_append_left _ _))
  have below : ∀ n ∈ out.take limit, n < limit := fun n member =>
    swept.below n (mem_append_left _ (mem_of_mem_take member))
  exact fun m left n right same => apart m (below m left) n (below n right) same

end Blocks

section Packing

theorem packed_value {a m : Nat} (action : a < maxActionId) (message : m < maxMessageId) :
    ((UInt64.ofNat a <<< messageIdShift) ||| UInt64.ofNat m).toNat = a * 2 ^ 24 + m := by
  have shift : messageIdShift.toNat % 64 = 24 := rfl
  unfold maxActionId at action
  unfold maxMessageId at message
  rw [UInt64.toNat_or, UInt64.toNat_shiftLeft, shift,
    UInt64.toNat_ofNat_of_lt' (show a < 2 ^ 64 by omega),
    UInt64.toNat_ofNat_of_lt' (show m < 2 ^ 64 by omega), Nat.shiftLeft_eq, Nat.mod_eq_of_lt (by omega),
    ← Nat.shiftLeft_eq, ← Nat.shiftLeft_add_eq_or_of_lt message, Nat.shiftLeft_eq]

theorem action_of_packed {a m : Nat} (action : a < maxActionId) (message : m < maxMessageId) :
    TransactionID.actionId ⟨(UInt64.ofNat a <<< messageIdShift) ||| UInt64.ofNat m⟩ =
      ⟨UInt64.ofNat a⟩ := by
  have shift : messageIdShift.toNat % 64 = 24 := rfl
  have value := packed_value action message
  unfold TransactionID.actionId
  congr 1
  rw [← UInt64.toNat_inj, UInt64.toNat_shiftRight, shift, Nat.shiftRight_eq_div_pow, value]
  unfold maxActionId at action
  unfold maxMessageId at message
  rw [UInt64.toNat_ofNat_of_lt' (show a < 2 ^ 64 by omega)]
  omega

theorem shift_or_byte {id : UInt64} (byte : UInt8) (small : id.toNat < 2 ^ 56) :
    ((id <<< 8) ||| byte.toUInt64).toNat = id.toNat * 256 + byte.toNat := by
  have shift : (8 : UInt64).toNat % 64 = 8 := rfl
  rw [UInt64.toNat_or, UInt64.toNat_shiftLeft, shift, Nat.shiftLeft_eq, Nat.mod_eq_of_lt (by omega),
    ← Nat.shiftLeft_eq, UInt8.toNat_toUInt64, ← Nat.shiftLeft_add_eq_or_of_lt byte.toNat_lt,
    Nat.shiftLeft_eq]

theorem from_bytes_value {bytes : Bytes} (fits : bytes.length ≤ 8) :
    (bytes.foldl (fun (id : UInt64) byte => (id <<< 8) ||| byte.toUInt64) 0).toNat = beNat bytes := by
  induction bytes using List.reverseRecOn with
  | nil => rfl
  | append_singleton front last ih =>
    rw [length_append, length_singleton] at fits
    have value := ih (by omega)
    have small : beNat front < 2 ^ 56 := by
      calc beNat front < 256 ^ front.length := be_nat_lt front
        _ ≤ 256 ^ 7 := Nat.pow_le_pow_right (by decide) (by omega)
        _ = 2 ^ 56 := by decide
    rw [foldl_append, foldl_cons, foldl_nil, shift_or_byte _ (by rwa [value]), value,
      be_nat_snoc]

theorem eight_bytes_big_endian (n : UInt64) : eightBytesToArray n = beBytes 8 n.toNat := by
  simp [eightBytesToArray, beBytes, ← UInt8.toNat_inj, Nat.shiftRight_eq_div_pow, Nat.div_div_eq_div_mul]

theorem from_bytes_as_ref (t : TransactionID) : TransactionID.fromBytes t.asRef = some t := by
  have size : t.asRef.length = 8 := rfl
  have value := from_bytes_value (Nat.le_of_eq size)
  rw [TransactionID.asRef, eight_bytes_big_endian, be_nat_bytes,
    Nat.mod_eq_of_lt (show t.transId.toNat < 256 ^ 8 from t.transId.toNat_lt)] at value
  unfold TransactionID.fromBytes
  rw [if_neg (by rw [size]; decide), TransactionID.asRef, eight_bytes_big_endian,
    UInt64.toNat_inj.mp value]

end Packing

section Generators
variable {ν ε : Type}

def generateAid (_ : Unit) (g : AIDGenerator) : Action (World ν) ε (MIDGenerator × AIDGenerator) :=
  g.generate

def generateMid (_ : Unit) (g : MIDGenerator) : Action (World ν) ε (TransactionID × MIDGenerator) :=
  g.generate

def answers {ι γ σ α : Type} (history : List (Visit ι γ σ α)) : List α := history.map (·.answer)

theorem answers_snoc {ι γ σ α : Type} (history : List (Visit ι γ σ α)) (visit : Visit ι γ σ α) :
    answers (history ++ [visit]) = answers history ++ [visit.answer] := by
  simp [answers]

theorem message_blocks : preallocLen ∣ maxMessageId := ⟨8192, by decide⟩

theorem action_blocks : preallocLen ∣ maxActionId := ⟨536870912, by decide⟩

def actionOf (n : Nat) : MIDGenerator := MIDGenerator.new (UInt64.ofNat n <<< messageIdShift)

def messageOf (a n : Nat) : TransactionID := ⟨(UInt64.ofNat a <<< messageIdShift) ||| UInt64.ofNat n⟩

theorem new_aid_run (w : World ν) : ∃ fresh w',
    (AIDGenerator.new : Action (World ν) ε AIDGenerator) w = (.ok fresh, w') ∧
      Numbered maxActionId actionOf [] fresh.block := by
  have first := fun ids => @swept_more _ _ _ ids action_blocks (by decide) (swept_start maxActionId)
  unfold AIDGenerator.new
  generalize generateIds maxActionId 0 = block at *
  obtain ⟨ids, w', shuffled, same⟩ := shuffle_run (ε := ε) block.2 w
  exact ⟨⟨⟨block.1, 0, ids⟩⟩, w', bind_run shuffled, [], rfl, first ids same⟩

theorem generate_aid_run (g : AIDGenerator) (w : World ν) : ∃ id block w',
    (g.generate : Action (World ν) ε _) w = (.ok (actionOf id, ⟨block⟩), w') ∧
      Drawn maxActionId g.block id block := by
  obtain ⟨id, block, w', next, drawn⟩ := next_run (ε := ε) maxActionId g.block w
  refine ⟨id, block, w', ?_, drawn⟩
  rw [AIDGenerator.generate, bind_run next]
  rfl

theorem generate_mid_run (g : MIDGenerator) (w : World ν) : ∃ id block w',
    (g.generate : Action (World ν) ε _) w =
      (.ok (⟨g.shiftedId ||| UInt64.ofNat id⟩, { g with block := block }), w') ∧
      Drawn maxMessageId g.block id block := by
  obtain ⟨id, block, w', next, drawn⟩ := next_run (ε := ε) maxMessageId g.block w
  exact ⟨id, block, w', bind_run next, drawn⟩

theorem aid_numbered {fresh g : AIDGenerator}
    {history : List (Visit Unit AIDGenerator (World ν) MIDGenerator)}
    (first : Numbered maxActionId actionOf [] fresh.block)
    (calls : Calls (generateAid (ε := ε)) fresh history g) :
    Numbered maxActionId actionOf (answers history) g.block := by
  refine calls_invariant (I := fun history (g : AIDGenerator) =>
    Numbered maxActionId actionOf (answers history) g.block) first ?_ calls
  intro history visit g' numbered returned
  obtain ⟨id, block, w', run, drawn⟩ := generate_aid_run (ε := ε) visit.on visit.met
  obtain ⟨answer, rfl⟩ := Prod.mk.inj (Outcome.ok.inj (Prod.mk.inj (run.symm.trans returned)).1)
  rw [answers_snoc, ← answer]
  exact numbered_next action_blocks (by decide) numbered drawn

variable {a : Nat}

theorem mid_numbered {m : MIDGenerator}
    {history : List (Visit Unit MIDGenerator (World ν) TransactionID)}
    (calls : Calls (generateMid (ε := ε)) (actionOf a) history m) :
    m.shiftedId = (actionOf a).shiftedId ∧
      Numbered maxMessageId (messageOf a) (answers history) m.block := by
  refine calls_invariant (I := fun history (m : MIDGenerator) =>
    m.shiftedId = (actionOf a).shiftedId ∧
      Numbered maxMessageId (messageOf a) (answers history) m.block) ⟨rfl, [], rfl, ?_⟩ ?_ calls
  · have nothing : left (actionOf a).block = [] :=
      drop_eq_nil_of_le (Nat.le_of_eq length_replicate)
    rw [nothing]
    exact swept_start maxMessageId
  · intro history visit m' ⟨shifted, numbered⟩ returned
    obtain ⟨id, block, w', run, drawn⟩ := generate_mid_run (ε := ε) visit.on visit.met
    obtain ⟨answer, rfl⟩ := Prod.mk.inj (Outcome.ok.inj (Prod.mk.inj (run.symm.trans returned)).1)
    refine ⟨shifted, ?_⟩
    rw [answers_snoc, ← answer, shifted]
    exact numbered_next message_blocks (by decide) numbered drawn

theorem messages_apart (action : a < maxActionId) : ∀ m < maxMessageId, ∀ n < maxMessageId,
    (messageOf a m).transId = (messageOf a n).transId → m = n := by
  intro m left n right same
  have value := congrArg UInt64.toNat same
  dsimp only [messageOf] at value
  rw [packed_value action left, packed_value action right] at value
  omega

theorem action_id_of (action : a < maxActionId) : (actionOf a).actionId = ⟨UInt64.ofNat a⟩ := by
  have value := action_of_packed action (show 0 < maxMessageId by decide)
  rw [show UInt64.ofNat 0 = 0 from rfl, UInt64.or_zero] at value
  exact value

theorem actions_apart : ∀ m < maxActionId, ∀ n < maxActionId,
    (actionOf m).actionId = (actionOf n).actionId → m = n := by
  intro m left n right same
  rw [action_id_of left, action_id_of right] at same
  have value := congrArg (fun i : ActionID => i.actionId.toNat) same
  unfold maxActionId at left right
  rwa [UInt64.toNat_ofNat_of_lt' (show m < 2 ^ 64 by omega),
    UInt64.toNat_ofNat_of_lt' (show n < 2 ^ 64 by omega)] at value

/-- Whatever the shuffles do: every call returns, the first 2^40 actions have different ids, the
    first 2^24 messages of an action have different ids, each message belongs to its action, and
    its bytes are read back as the same id. -/
theorem transaction_ids_unique (ν ε : Type) (w : World ν) :
    ∃ fresh w', (AIDGenerator.new : Action (World ν) ε _) w = (.ok fresh, w') ∧
      ∀ history g, Calls (generateAid : Unit → _ → Action (World ν) ε _) fresh history g →
        (∀ w : World ν, ∃ mid g' w', (g.generate : Action _ ε _) w = (.ok (mid, g'), w')) ∧
        (((answers history).take (2 ^ 40)).map MIDGenerator.actionId).Nodup ∧
        ∀ mid ∈ answers history, ∀ messages m,
          Calls (generateMid : Unit → _ → Action (World ν) ε _) mid messages m →
          (∀ w : World ν, ∃ tid m' w', (m.generate : Action _ ε _) w = (.ok (tid, m'), w')) ∧
          ((answers messages).take (2 ^ 24)).Nodup ∧
          ∀ tid ∈ answers messages, tid.actionId = mid.actionId ∧
            TransactionID.fromBytes tid.asRef = some tid := by
  obtain ⟨fresh, w', made, first⟩ := new_aid_run (ε := ε) w
  refine ⟨fresh, w', made, ?_⟩
  intro history g calls
  have actions := aid_numbered first calls
  refine ⟨fun w => ?_, numbered_apart actions actions_apart, ?_⟩
  · obtain ⟨id, block, w', run, _⟩ := generate_aid_run (ε := ε) g w
    exact ⟨_, _, _, run⟩
  intro mid given messages m inner
  -- the generator of messages carries the number of its action
  obtain ⟨a, action, rfl⟩ := numbered_mem actions given
  have numbered := (mid_numbered inner).2
  refine ⟨fun w => ?_, (numbered_apart numbered (messages_apart action)).of_map _, ?_⟩
  · obtain ⟨id, block, w', run, _⟩ := generate_mid_run (ε := ε) m w
    exact ⟨_, _, _, run⟩
  intro tid named
  obtain ⟨n, below, rfl⟩ := numbered_mem numbered named
  refine ⟨?_, from_bytes_as_ref _⟩
  rw [action_id_of action]
  exact action_of_packed action below

end Generators

end DhtDistinct
