import Bittorrent.Disk.Flat
import Bittorrent.Disk.Merging

/-!
The blocks of a full check. As a remainder is never the piece length itself, a block for the rest is always
added, and it is an empty one behind the last piece where the pieces come out even.
-/
namespace DiskFilling
open Rust Outcome MetainfoInfo DiskAccessor DiskChecker DiskFlat
variable {ε : Type}

def filling (index : Nat) (length : UInt64) : BlockMetadata := .withDefaultHash (UInt64.ofNat index) 0 length

def fillings (info : Info) : List BlockMetadata :=
  (List.range (totalLength info.files / info.pieceLen.toNat)).map (filling · info.pieceLen) ++
    [filling (totalLength info.files / info.pieceLen.toNat)
      (UInt64.ofNat (totalLength info.files % info.pieceLen.toNat))]

theorem fillings_all {info : Info} {P : BlockMetadata → Prop}
    (full : ∀ index < totalLength info.files / info.pieceLen.toNat, P (filling index info.pieceLen))
    (rest : P (filling (totalLength info.files / info.pieceLen.toNat)
      (UInt64.ofNat (totalLength info.files % info.pieceLen.toNat)))) : ∀ msg ∈ fillings info, P msg :=
  List.forall_mem_append.mpr
    ⟨List.forall_mem_map.mpr fun index member => full index (List.mem_range.mp member),
      List.forall_mem_singleton.mpr rest⟩

theorem nonzero_of_positive {length : UInt64} (positive : 1 ≤ length.toNat) : length ≠ 0 := by
  rintro rfl
  exact absurd positive (by decide)

theorem fill_checker (c : PieceStateChecker) (info : Info) :
    (fillCheckerState c info : Outcome ε _) =
      if totalLength info.files ≤ u64Max ∧ info.pieceLen ≠ 0 then
        .ok ((fillings info).foldl addPendingBlock c)
      else .panic := by
  by_cases small : totalLength info.files ≤ u64Max
  · have total : (totalBytes info : Outcome ε Nat) = .ok (totalLength info.files) := if_pos small
    rw [fillCheckerState, lastPieceSize, total, ok_bind]
    by_cases zero : info.pieceLen = 0
    · simp [zero]
    · have positive : 0 < info.pieceLen.toNat :=
        Nat.pos_of_ne_zero fun none => zero (UInt64.toNat_inj.mp none)
      have less := Nat.mod_lt (totalLength info.files) positive
      rw [if_pos ⟨small, zero⟩]
      simp only [ok_bind, if_neg zero]
      rw [if_pos (Nat.ne_of_lt less), fillings, List.foldl_concat, List.foldl_map]
      rfl
  · have total : (totalBytes info : Outcome ε Nat) = .panic := if_neg small
    rw [fillCheckerState, total, if_neg (by simp [small])]
    rfl

theorem fold_add (adds : List BlockMetadata) : ∀ c : PieceStateChecker,
    adds.foldl addPendingBlock c =
      { c with pendingBlocks := adds.foldl (fun pending msg => pushBlock msg pending) c.pendingBlocks } := by
  induction adds with
  | nil => exact fun _ => rfl
  | cons msg rest ih => exact fun c => ih (addPendingBlock c msg)

theorem push_new {msg : BlockMetadata} : ∀ {pending : Pending}, msg.pieceIndex ∉ pending.map Prod.fst →
    pushBlock msg pending = pending ++ [(msg.pieceIndex, [msg])]
  | [], _ => rfl
  | (key, messages) :: rest, fresh => by
    obtain ⟨other, later⟩ := not_or.mp (List.mem_cons.not.mp fresh)
    rw [pushBlock, if_neg (Ne.symm other), push_new later]
    rfl

theorem push_distinct (adds : List BlockMetadata) : ∀ pending : Pending,
    (pending.map Prod.fst ++ adds.map (·.pieceIndex)).Nodup →
    adds.foldl (fun pending msg => pushBlock msg pending) pending =
      pending ++ adds.map fun msg => (msg.pieceIndex, [msg]) := by
  induction adds with
  | nil => simp
  | cons msg rest ih =>
    intro pending distinct
    have fresh : msg.pieceIndex ∉ pending.map Prod.fst := fun member =>
      (List.nodup_append.mp distinct).2.2 _ member _ (.head _) rfl
    rw [List.foldl_cons, push_new fresh, ih _ (by simpa using distinct)]
    simp

section Cover
variable {info : Info}

/-- One block for each piece of the torrent and no others, at the start of the piece, whole, and together
    as long as the torrent. -/
structure Covers (info : Info) (c : PieceStateChecker) : Prop where
  pieces : (c.pendingBlocks.map Prod.fst).Perm ((List.range info.pieces.length).map UInt64.ofNat)
  single : ∀ entry ∈ c.pendingBlocks, ∃ block, entry.2 = [block] ∧ block.pieceIndex = entry.1 ∧
    block.blockOffset = 0
  whole : ∀ entry ∈ c.pendingBlocks,
    (pieceIsComplete c.totalPieces c.lastBlockSize info.pieceLen.toNat entry.2 : Outcome Empty Bool) = .ok true
  total : (c.pendingBlocks.map fun entry => (entry.2.map (·.blockLength.toNat)).sum).sum =
    totalLength info.files

theorem fillings_indices (info : Info) : (fillings info).map (·.pieceIndex) =
    (List.range (totalLength info.files / info.pieceLen.toNat + 1)).map UInt64.ofNat := by
  simp [fillings, filling, BlockMetadata.withDefaultHash, List.range_succ]

section
variable (small : totalLength info.files ≤ u64Max)
include small

theorem toNat_small {n : Nat} (less : n ≤ totalLength info.files) : (UInt64.ofNat n).toNat = n :=
  UInt64.toNat_ofNat_of_lt' (Nat.lt_succ_of_le (less.trans small))

theorem fillings_length : ((fillings info).map (·.blockLength.toNat)).sum = totalLength info.files := by
  have rest := toNat_small small (Nat.mod_le _ info.pieceLen.toNat)
  simp [-UInt64.toNat_ofNat', fillings, filling, BlockMetadata.withDefaultHash, Function.comp_def, rest,
    Nat.div_add_mod']

theorem fillings_pending (last : Nat) :
    ((fillings info).foldl addPendingBlock (.new info.pieces.length last)).pendingBlocks =
      (fillings info).map fun msg => (msg.pieceIndex, [msg]) := by
  have full := Nat.div_le_self (totalLength info.files) info.pieceLen.toNat
  rw [fold_add]
  refine push_distinct _ [] ?_
  rw [List.map_nil, List.nil_append, fillings_indices]
  refine List.Nodup.map_on ?_ List.nodup_range
  intro i below j below' same
  rw [List.mem_range] at below below'
  have value := congrArg UInt64.toNat same
  rwa [toNat_small small (by omega), toNat_small small (by omega)] at value

end

theorem hashes_behind {total length : Nat} (positive : 1 ≤ length) :
    (total + length - 1) / length = total / length + 1 ↔ ¬ length ∣ total := by
  have step := @Nat.succ_div (total + length - 1) length
  rw [Nat.sub_add_cancel (by omega), Nat.add_div_right _ positive] at step
  rw [← Nat.dvd_add_self_right]
  split at step
  · simp only [*, not_true, iff_false]
    omega
  · simp only [*, not_false_iff, iff_true]
    omega

/-- The blocks of a full check are those of the torrent exactly if the last piece is a short one. -/
theorem full_check_covers_iff (info : Info) (positive : 1 ≤ info.pieceLen.toNat)
    (hashes : info.pieces.length =
      (totalLength info.files + info.pieceLen.toNat - 1) / info.pieceLen.toNat) :
    (∃ filled, (fillCheckerState (.new info.pieces.length (totalLength info.files % info.pieceLen.toNat))
        info : Outcome ε _) = .ok filled ∧ Covers info filled) ↔
      totalLength info.files ≤ u64Max ∧ ¬ info.pieceLen.toNat ∣ totalLength info.files := by
  have nonzero := nonzero_of_positive positive
  rw [fill_checker]
  by_cases small : totalLength info.files ≤ u64Max
  · have full := toNat_small small (Nat.div_le_self _ info.pieceLen.toNat)
    have rest := toNat_small small (Nat.mod_le _ info.pieceLen.toNat)
    have pending := fillings_pending small (totalLength info.files % info.pieceLen.toNat)
    rw [if_pos ⟨small, nonzero⟩, ← hashes_behind positive, ← hashes]
    constructor
    · rintro ⟨_, same, covers⟩
      cases same
      have count := covers.pieces.length_eq
      rw [pending, List.map_map] at count
      refine ⟨small, ?_⟩
      simpa [fillings, eq_comm] using count
    · rintro ⟨_, count⟩
      refine ⟨_, rfl, ?_, ?_, ?_, ?_⟩
      · rw [pending, List.map_map, count]
        exact .of_eq (fillings_indices info)
      · rw [pending, List.forall_mem_map]
        exact fillings_all (fun _ _ => ⟨_, rfl, rfl, rfl⟩) ⟨_, rfl, rfl, rfl⟩
      · rw [pending, List.forall_mem_map, fold_add]
        have some : info.pieces.length ≠ 0 := count ▸ Nat.succ_ne_zero _
        refine fillings_all (fun _ _ => ?_) ?_
        · simp [pieceIsComplete, isWhole, PieceStateChecker.new, some, filling, BlockMetadata.withDefaultHash]
        · simp [-UInt64.toNat_ofNat', pieceIsComplete, isWhole, PieceStateChecker.new, filling,
            BlockMetadata.withDefaultHash, count, rest, full]
      · simpa [pending, Function.comp_def] using fillings_length small
  · simp [small]

/-- Three bytes in pieces of two. -/
def shortEnd : Info :=
  { infoOf 2 [(3, [97])] with pieces := List.replicate 2 ⟨Vector.replicate UtilSha.shaHashLen 0⟩ }

theorem short_end_covered : ∃ filled,
    (fillCheckerState (.new 2 1) shortEnd : Outcome Empty _) = .ok filled ∧ Covers shortEnd filled :=
  (full_check_covers_iff shortEnd (by decide) (by decide)).mpr ⟨by decide, by decide⟩

/-- Two bytes in one piece: an empty block is added for a second one. -/
theorem even_end_overrun : ∃ info : Info, 1 ≤ info.pieceLen.toNat ∧
    info.pieces.length = (totalLength info.files + info.pieceLen.toNat - 1) / info.pieceLen.toNat ∧
    ∃ filled, (fillCheckerState (.new info.pieces.length (totalLength info.files % info.pieceLen.toNat))
        info : Outcome Empty _) = .ok filled ∧
      filled.pendingBlocks = [(0, [filling 0 2]), (1, [filling 1 0])] ∧ ¬ Covers info filled := by
  refine ⟨{ infoOf 2 [(2, [97])] with pieces := [⟨Vector.replicate UtilSha.shaHashLen 0⟩] }, by decide,
    by decide, _, rfl, rfl, ?_⟩
  intro covers
  cases covers.pieces.length_eq

end Cover

end DiskFilling
