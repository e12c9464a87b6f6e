import Mathlib.Algebra.Order.Floor.Div
import Bittorrent.Disk.Checker
import Bittorrent.Metainfo.Fidelity

/-!
What the rest of the client takes for granted about a parsed info dictionary. The parser checks only
that the pieces make whole hashes; all else holds exactly if the numbers in the dictionary fit
together.
-/
namespace MetainfoWellFormed
open Rust Outcome UtilSha BencodeValue BencodeConvert MetainfoInfo MetainfoBuilder MetainfoFidelity
  DiskChecker

section Written

/-- The dictionary that the bytes are an encoding of. -/
def dictionary (bytes : Bytes) : Option Dict :=
  match BencodeDecode.BencodeRef.decode bytes .default with
  | .ok r => dict r.kind
  | _ => none

def writtenInt (key : Bytes) (dict : Dict) : Option Int :=
  match SortedMap.lookup key dict with
  | some (.int n) => some n.toInt
  | _ => none

def writtenPieceLength (dict : Dict) : Option Int := writtenInt pieceLengthKey dict

def fileLength : Bencode → Option Int
  | .dict dict => writtenInt lengthKey dict
  | _ => none

/-- One length, or the lengths of the listed files. -/
def writtenLengths (dict : Dict) : List Int :=
  match writtenInt lengthKey dict with
  | some length => [length]
  | none =>
    match SortedMap.lookup filesKey dict with
    | some (.list items) => items.filterMap fileLength
    | _ => []

def writtenPieces (dict : Dict) : Bytes :=
  match SortedMap.lookup piecesKey dict with
  | some (.bytes pieces) => pieces
  | _ => []

end Written

def totalLength (info : Info) : Nat := (info.files.map fun file => file.len.toNat).sum

structure WellFormed (dict : Dict) (info : Info) : Prop where
  pieceLength : writtenPieceLength dict = some (info.pieceLen.toNat : Int)
  positive : 1 ≤ info.pieceLen.toNat
  lengths : writtenLengths dict = info.files.map fun file => (file.len.toNat : Int)
  total : totalLength info < 2 ^ 64
  hashes : info.pieces.length = totalLength info ⌈/⌉ info.pieceLen.toNat

/-- The numbers in the dictionary fit together. -/
def Consistent (dict : Dict) : Prop :=
  ∃ (pieceLength : Nat) (lengths : List Nat),
    writtenPieceLength dict = some (pieceLength : Int) ∧ 1 ≤ pieceLength ∧
    writtenLengths dict = lengths.map (fun length : Nat => (length : Int)) ∧ lengths.sum < 2 ^ 64 ∧
    (writtenPieces dict).length = shaHashLen * (lengths.sum ⌈/⌉ pieceLength)

section Reading
variable {sha : Bytes → ShaHash}
variable {dict : Dict}

theorem written_int {key : Bytes} {n : Int64} (found : SortedMap.lookup key dict = some (.int n)) :
    writtenInt key dict = some n.toInt := by
  unfold writtenInt
  rw [found]

theorem cast_kept {n : Int64} {k : Nat} (same : n.toInt = k) : n.toUInt64.toNat = k := by
  have value : n.toInt = n.toBitVec.toInt := rfl
  have pattern : n.toUInt64.toNat = n.toBitVec.toNat := rfl
  have bound := n.toBitVec.isLt
  rw [value, BitVec.toInt_eq_toNat_cond] at same
  rw [pattern]
  split at same <;> omega

/-- What a parsed dictionary is made of, as far as numbers go. -/
structure NumbersOf (info : Info) (dict : Dict) : Prop where
  pieceLength : ∃ n : Int64, writtenPieceLength dict = some n.toInt ∧ info.pieceLen = n.toUInt64
  lengths : ∃ ns : List Int64, writtenLengths dict = ns.map Int64.toInt ∧
    (info.files.map fun file => file.len) = ns.map Int64.toUInt64
  pieces : (writtenPieces dict).length = shaHashLen * info.pieces.length

/-- A dictionary is read as one of several files exactly if no length is written in it. -/
theorem multi_unwritten : isMultiFileTorrent dict = true ↔ writtenInt lengthKey dict = none := by
  unfold isMultiFileTorrent parseLength lookupAndConvertInt lookup convertInt convert writtenInt
  cases SortedMap.lookup lengthKey dict with
  | none => simp [accepted]
  | some v => cases v <;> simp [accepted, int]

theorem directory_multi {bencode : BencodeRef} {info : Info}
    (read : parseInfoDictionary sha bencode = .ok info) (kind : bencode.kind = .dict dict) :
    info.fileDirectory.isSome = isMultiFileTorrent dict := by
  obtain ⟨dict', isDict, read⟩ := bind_eq_ok.mp read
  have same : dict' = dict := by
    have shape := dict_of (convert_ok_iff.mp isDict)
    rw [kind] at shape
    exact (Bencode.dict.inj shape).symm
  subst same
  obtain ⟨pieceLen, _, read⟩ := bind_eq_ok.mp read
  obtain ⟨pieces, _, read⟩ := bind_eq_ok.mp read
  obtain ⟨buffers, _, read⟩ := bind_eq_ok.mp read
  split at read
  next multi =>
    obtain ⟨name, _, read⟩ := bind_eq_ok.mp read
    obtain ⟨items, _, read⟩ := bind_eq_ok.mp read
    obtain ⟨files, _, read⟩ := bind_eq_ok.mp read
    cases read
    exact multi.symm
  next single =>
    obtain ⟨file, _, read⟩ := bind_eq_ok.mp read
    cases read
    exact (Bool.eq_false_iff.mpr single).symm

theorem file_lengths {files : List File} {items : List Bencode}
    (read : List.Forall₂ FileOf files items) :
    ∃ ns : List Int64, items.filterMap fileLength = ns.map Int64.toInt ∧
      (files.map fun file => file.len) = ns.map Int64.toUInt64 := by
  induction read with
  | nil => exact ⟨[], rfl, rfl⟩
  | cons first _ ih =>
    obtain ⟨dict, length, names, rfl, found, _, cast, _⟩ := first
    obtain ⟨ns, written, casts⟩ := ih
    refine ⟨length :: ns, ?_, ?_⟩
    · have head : fileLength (.dict dict) = some length.toInt := written_int found
      rw [List.filterMap_cons_some head, written, List.map_cons]
    · rw [List.map_cons, casts, cast, List.map_cons]

theorem numbers_of {bencode : BencodeRef} {info : Info}
    (read : parseInfoDictionary sha bencode = .ok info) :
    ∃ dict, bencode.kind = .dict dict ∧ NumbersOf info dict := by
  obtain ⟨_, dict, kind, of⟩ := info_of read
  have multi := directory_multi read kind
  refine ⟨dict, kind, ?_, ?_, ?_⟩
  · obtain ⟨n, found, cast⟩ := of.pieceLength
    exact ⟨n, written_int found, cast⟩
  · rcases of.layout with ⟨name, items, _, listed, directory, files⟩ |
      ⟨name, length, md5sum, _, found, directory, files⟩
    · obtain ⟨ns, written, casts⟩ := file_lengths files
      refine ⟨ns, ?_, casts⟩
      rw [directory, Option.isSome_some] at multi
      unfold writtenLengths
      rw [multi_unwritten.mp multi.symm, listed]
      exact written
    · refine ⟨[length], ?_, by rw [files]; rfl⟩
      unfold writtenLengths
      rw [written_int found]
      rfl
  · unfold writtenPieces
    rw [of.pieces]
    exact pieces_length info.pieces

end Reading

section Main
variable {sha : Bytes → ShaHash}

theorem casts_kept {ns : List Int64} : ∀ {lengths : List Nat},
    ns.map Int64.toInt = lengths.map (fun length : Nat => (length : Int)) →
      ns.map (fun n => n.toUInt64.toNat) = lengths := by
  induction ns with
  | nil =>
    intro lengths same
    exact (List.map_eq_nil_iff.mp same.symm).symm
  | cons n rest ih =>
    intro lengths same
    cases lengths with
    | nil => cases same
    | cons length more =>
      obtain ⟨first, later⟩ := List.cons.inj same
      rw [List.map_cons, cast_kept first, ih later]

theorem well_formed_iff {info : Info} {dict : Dict} (of : NumbersOf info dict) :
    WellFormed dict info ↔ Consistent dict := by
  obtain ⟨n, writtenN, castN⟩ := of.pieceLength
  obtain ⟨ns, writtenNs, castNs⟩ := of.lengths
  have sizes : (info.files.map fun file => file.len.toNat) = ns.map fun n => n.toUInt64.toNat := by
    have each := congrArg (List.map UInt64.toNat) castNs
    rw [List.map_map, List.map_map] at each
    exact each
  constructor
  · intro formed
    refine ⟨info.pieceLen.toNat, info.files.map fun file => file.len.toNat, formed.pieceLength,
      formed.positive, ?_, ?_, ?_⟩
    · rw [formed.lengths, List.map_map]
      rfl
    · exact formed.total
    · rw [of.pieces, formed.hashes]
      rfl
  · rintro ⟨pieceLength, lengths, atN, positive, atNs, total, pieces⟩
    rw [writtenN] at atN
    rw [writtenNs] at atNs
    have keptN : info.pieceLen.toNat = pieceLength := by
      rw [castN]
      exact cast_kept (Option.some.inj atN)
    have kept : (info.files.map fun file => file.len.toNat) = lengths := by
      rw [sizes]
      exact casts_kept atNs
    have sum : totalLength info = lengths.sum := congrArg List.sum kept
    rw [of.pieces] at pieces
    refine ⟨?_, ?_, ?_, ?_, ?_⟩
    · rw [writtenN, keptN]
      exact atN
    · rwa [keptN]
    · rw [writtenNs, atNs, ← kept, List.map_map]
      rfl
    · rwa [sum]
    · rw [sum, keptN]
      exact Nat.eq_of_mul_eq_mul_left (by decide) pieces

theorem accepted_numbers {bytes : Bytes} {info : Info}
    (accepted : Info.fromBytes sha bytes = .ok info) :
    ∃ dict, dictionary bytes = some dict ∧ NumbersOf info dict := by
  obtain ⟨r, isDecoded, read⟩ := bind_eq_ok.mp accepted
  obtain ⟨dict, kind, of⟩ := numbers_of read
  refine ⟨dict, ?_, of⟩
  unfold decoded at isDecoded
  unfold dictionary
  split at isDecoded
  next r' same =>
    cases isDecoded
    rw [same]
    dsimp only
    rw [kind]
    rfl
  all_goals cases isDecoded

/-- An accepted info dictionary is what the client takes it for exactly if its numbers fit
    together. -/
theorem accepted_well_formed_iff {bytes : Bytes} {info : Info}
    (accepted : Info.fromBytes sha bytes = .ok info) :
    ∃ dict, dictionary bytes = some dict ∧ (WellFormed dict info ↔ Consistent dict) := by
  obtain ⟨dict, found, of⟩ := accepted_numbers accepted
  exact ⟨dict, found, well_formed_iff of⟩

def blankHash (_ : Bytes) : ShaHash := ⟨Vector.replicate shaHashLen 0⟩

def twoPieces : Bytes :=
  text "d6:lengthi5e4:name1:a12:piece lengthi4e6:pieces40:aaaaaaaaaaaaaaaaaaaabbbbbbbbbbbbbbbbbbbbe"

def parsedTwo : Info :=
  ⟨blankHash [], [⟨5, text "a", none⟩],
    [⟨Vector.replicate shaHashLen 97⟩, ⟨Vector.replicate shaHashLen 98⟩], 4, none, none⟩

theorem two_pieces_well_formed :
    Info.fromBytes blankHash twoPieces = .ok parsedTwo ∧
    ∃ dict, dictionary twoPieces = some dict ∧ Consistent dict ∧ WellFormed dict parsedTwo := by
  have read : Info.fromBytes blankHash twoPieces = .ok parsedTwo := by decide +kernel
  have numbers : (dictionary twoPieces).map (fun dict =>
      (writtenPieceLength dict, writtenLengths dict, (writtenPieces dict).length)) =
      some (some 4, [5], 40) := by
    decide +kernel
  obtain ⟨dict, found, both⟩ := accepted_well_formed_iff read
  rw [found] at numbers
  obtain ⟨pieceLength, rest⟩ := Prod.mk.inj (Option.some.inj numbers)
  obtain ⟨lengths, pieces⟩ := Prod.mk.inj rest
  have consistent : Consistent dict := ⟨4, [5], pieceLength, by decide, lengths, by decide, pieces⟩
  exact ⟨read, dict, found, consistent, both.mpr consistent⟩

/-- A torrent of ten bytes in pieces of none. -/
def noPieceLength : Bytes := text "d6:lengthi10e4:name1:a12:piece lengthi0e6:pieces0:e"

def parsedZero : Info := ⟨blankHash [], [⟨10, text "a", none⟩], [], 0, none, none⟩

/-- It is accepted, and the size of the last piece is then a remainder by zero. -/
theorem zero_piece_length_accepted :
    Info.fromBytes blankHash noPieceLength = .ok parsedZero ∧
    (∃ dict, dictionary noPieceLength = some dict ∧ ¬ WellFormed dict parsedZero) ∧
    (lastPieceSize parsedZero : Outcome Unit Nat) = .panic := by
  have read : Info.fromBytes blankHash noPieceLength = .ok parsedZero := by decide +kernel
  obtain ⟨dict, found, _⟩ := accepted_numbers read
  refine ⟨read, ⟨dict, found, ?_⟩, by decide⟩
  exact fun formed => absurd formed.positive (by decide)

end Main

end MetainfoWellFormed
