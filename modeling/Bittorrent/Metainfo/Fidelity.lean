import Bittorrent.Bencode.Canonical
import Bittorrent.Metainfo.Builder

/-!
Which info dictionaries survive being parsed and written again. The parsed value keeps the piece
length, the pieces, the name and for every file a length and a path; a dictionary comes back byte for
byte if it holds nothing else, is written canonically, and its names are not changed by becoming
paths.
-/
namespace MetainfoFidelity
open Rust Outcome UtilSha BencodeValue BencodeConvert BencodeEncode BencodeForm BencodeRoundTrip
  BencodeCanonical MetainfoInfo MetainfoBuilder
open List hiding iter
variable {ε : Type}

section Reading

/-- What a parsed file keeps of the item it was read from. -/
structure FileOf (file : File) (item : Bencode) : Prop where
  read : ∃ (dict : Dict) (length : Int64) (names : List Str), item = .dict dict ∧
    SortedMap.lookup lengthKey dict = some (.int length) ∧
    SortedMap.lookup pathKey dict = some (.list ((names.map Str.bytes).map .bytes)) ∧
    file.len = length.toUInt64 ∧ file.path = (names.map Str.bytes).foldl push []

theorem file_of {item : Bencode} {file : File} (read : parseFile item = .ok file) :
    FileOf file item := by
  obtain ⟨dict, isDict, read⟩ := bind_eq_ok.mp read
  obtain ⟨length, isLength, read⟩ := bind_eq_ok.mp read
  obtain ⟨parts, isList, read⟩ := bind_eq_ok.mp read
  obtain ⟨names, texts, read⟩ := bind_eq_ok.mp read
  obtain ⟨n, isInt, same⟩ := bind_eq_ok.mp isLength
  cases same
  cases read
  refine ⟨dict, n, names, dict_of (convert_ok_iff.mp isDict), int_under isInt, ?_, rfl, ?_⟩
  · rw [list_under isList, names_of texts]
  · rw [foldl_map]

theorem hash_at_bytes {pieces : Bytes} {index : Nat} (inside : (index + 1) * shaHashLen ≤ pieces.length) :
    (hashAt pieces index).asRef = (pieces.drop (index * shaHashLen)).take shaHashLen := by
  have room : index * shaHashLen + shaHashLen ≤ pieces.length := by
    rw [← Nat.succ_mul]
    exact inside
  apply ext_getElem?
  intro i
  unfold hashAt ShaHash.asRef
  by_cases low : i < shaHashLen
  · have bound : index * shaHashLen + i < pieces.length := by omega
    simp [low, bound]
  · simp [low]

theorem pieces_of {pieces : Bytes} {list : List ShaHash} (read : allocatePieces pieces = .ok list) :
    mapPiecesList list = pieces := by
  have front : ∀ n, n * shaHashLen ≤ pieces.length →
      ((List.range n).map (hashAt pieces)).flatMap ShaHash.asRef = pieces.take (n * shaHashLen) := by
    intro n
    induction n with
    | zero => simp
    | succ n ih =>
      intro inside
      have before : n * shaHashLen ≤ pieces.length := by
        rw [Nat.succ_mul] at inside
        omega
      rw [range_succ, map_append, flatMap_append, ih before, map_singleton,
        flatMap_singleton, hash_at_bytes inside, Nat.succ_mul, take_add]
  unfold allocatePieces at read
  split at read
  · cases read
  · rename_i whole
    cases read
    have size : pieces.length / shaHashLen * shaHashLen = pieces.length :=
      Nat.div_mul_cancel (Nat.dvd_of_mod_eq_zero (not_not.mp whole))
    unfold mapPiecesList
    rw [front _ (le_of_eq size), size, take_length]

theorem pieces_length (list : List ShaHash) :
    (mapPiecesList list).length = shaHashLen * list.length := by
  unfold mapPiecesList
  induction list with
  | nil => rfl
  | cons hash rest ih =>
    rw [flatMap_cons, length_append, ih, as_ref_length, length_cons, Nat.mul_succ,
      Nat.add_comm]

/-- What a parsed dictionary keeps of the entries it was read from. -/
structure InfoOf (info : Info) (dict : Dict) : Prop where
  pieceLength : ∃ n, SortedMap.lookup pieceLengthKey dict = some (.int n) ∧
    info.pieceLen = n.toUInt64
  pieces : SortedMap.lookup piecesKey dict = some (.bytes (mapPiecesList info.pieces))
  layout :
    (∃ (name : Str) (items : List Bencode),
      SortedMap.lookup nameKey dict = some (.bytes name.bytes) ∧
      SortedMap.lookup filesKey dict = some (.list items) ∧
      info.fileDirectory = some name.bytes ∧ List.Forall₂ FileOf info.files items) ∨
    ∃ (name : Str) (length : Int64) (md5sum : Option Bytes),
      SortedMap.lookup nameKey dict = some (.bytes name.bytes) ∧
      SortedMap.lookup lengthKey dict = some (.int length) ∧
      info.fileDirectory = none ∧ info.files = [⟨length.toUInt64, name.bytes, md5sum⟩]

theorem info_of {sha : Bytes → ShaHash} {bencode : BencodeRef} {info : Info}
    (read : parseInfoDictionary sha bencode = .ok info) :
    info.infoHash = sha bencode.buffer.bytes ∧ ∃ dict, bencode.kind = .dict dict ∧ InfoOf info dict := by
  obtain ⟨dict, isDict, read⟩ := bind_eq_ok.mp read
  obtain ⟨pieceLen, isLen, read⟩ := bind_eq_ok.mp read
  obtain ⟨pieces, isPieces, read⟩ := bind_eq_ok.mp read
  obtain ⟨buffers, allocated, read⟩ := bind_eq_ok.mp read
  obtain ⟨n, isInt, same⟩ := bind_eq_ok.mp isLen
  cases same
  have whole := bytes_under isPieces
  rw [← pieces_of allocated] at whole
  split at read
  next =>
    obtain ⟨name, isName, read⟩ := bind_eq_ok.mp read
    obtain ⟨items, isList, read⟩ := bind_eq_ok.mp read
    obtain ⟨files, collected, read⟩ := bind_eq_ok.mp read
    cases read
    refine ⟨rfl, dict, dict_of (convert_ok_iff.mp isDict), ⟨n, int_under isInt, rfl⟩, whole, .inl ?_⟩
    refine ⟨name, items, str_under isName, list_under isList, ?_, ?_⟩
    · rw [push_nil]
    · exact collect_forall (fun _ _ => file_of) collected
  next =>
    obtain ⟨file, isFile, read⟩ := bind_eq_ok.mp read
    obtain ⟨length, isLength, isFile⟩ := bind_eq_ok.mp isFile
    obtain ⟨name, isName, isFile⟩ := bind_eq_ok.mp isFile
    obtain ⟨size, isSize, same⟩ := bind_eq_ok.mp isLength
    cases same
    cases isFile
    cases read
    refine ⟨rfl, dict, dict_of (convert_ok_iff.mp isDict), ⟨n, int_under isInt, rfl⟩, whole, .inr ?_⟩
    exact ⟨name, size, _, str_under isName, int_under isSize, rfl, rfl⟩

end Reading

section Plain

/-- The info dictionaries that nothing is lost of. -/
inductive PlainInfo : Bencode → Prop where
  | single {length pieceLength : Int64} {name pieces : Bytes} (plain : PlainName name)
      (positive : 0 ≤ pieceLength) :
      PlainInfo (.dict (singleEntries length name pieceLength pieces))
  | multi {pieceLength : Int64} {name pieces : Bytes} {files : List (Int64 × List Bytes)}
      (plain : ∀ file ∈ files, PlainParts file.2) (positive : 0 ≤ pieceLength)
      (small : (files.map fun file => file.1.toUInt64.toNat).sum < UInt64.size) :
      PlainInfo (.dict (multiEntries name pieceLength pieces files))

theorem length_back (n : Int64) : n.toUInt64.toInt64 = n := by simp

theorem piece_length_iff (n : Int64) : n.toUInt64.toNat ≤ isizeMax ↔ 0 ≤ n := by
  have value : n.toInt = n.toBitVec.toInt := rfl
  have pattern : n.toUInt64.toNat = n.toBitVec.toNat := rfl
  have bound := n.toBitVec.isLt
  rw [Int64.le_iff_toInt_le, value, pattern, BitVec.toInt_eq_toNat_cond, isizeMax]
  change _ ↔ (0 : Int) ≤ _
  split <;> omega

variable {repair : Bytes → Str}

theorem iter_lossy {path : Path} (valid : validUtf8 path = true) :
    ((iter path).map (toStringLossy repair)).map Str.bytes = iter path := by
  rw [map_map]
  have same : ∀ part ∈ iter path, (Str.bytes ∘ toStringLossy repair) part = id part :=
    fun part member => lossy_valid (iter_valid valid part member)
  rw [map_congr_left same, map_id]

variable {info : Info}

theorem rebuilt_multi {name : Str} (directory : info.fileDirectory = some name.bytes)
    (texts : ∀ file ∈ info.files, validUtf8 file.path = true) :
    (rebuilt repair info : Outcome ε Dict) = .ok (multiEntries name.bytes info.pieceLen.toInt64
      (mapPiecesList info.pieces)
      (info.files.map fun file => (file.len.toInt64, iter file.path))) := by
  unfold rebuilt insertLayout
  rw [directory]
  dsimp only [Option.map_some]
  rw [layout_multi, lossy_valid name.valid]
  have files : (collectFiles repair (intoAccessor info).metadata).map (fun file =>
      (file.1.toInt64, file.2.map Str.bytes)) =
        info.files.map fun file => (file.len.toInt64, iter file.path) := by
    unfold collectFiles intoAccessor
    rw [map_map, map_map]
    exact map_congr_left fun file member =>
      Prod.ext rfl (iter_lossy (texts file member))
  rw [files]

theorem rebuilt_single {file : File} (directory : info.fileDirectory = none)
    (files : info.files = [file]) (valid : validUtf8 file.path = true) :
    (rebuilt repair info : Outcome ε Dict) = .ok (singleEntries file.len.toInt64
      (iter file.path).flatten info.pieceLen.toInt64 (mapPiecesList info.pieces)) := by
  have name : ((iter file.path).map (toStringLossy repair)).flatMap Str.bytes =
      (iter file.path).flatten := by
    rw [flatMap_def, iter_lossy valid]
  have list : collectFiles repair (intoAccessor info).metadata =
      [(file.len, (iter file.path).map (toStringLossy repair))] := by
    unfold collectFiles intoAccessor
    rw [files]
    rfl
  unfold rebuilt
  rw [list, directory]
  change Outcome.ok _ = _
  rw [layout_single, name]

theorem total_length_files (info : Info) :
    totalLength (collectFiles repair (intoAccessor info).metadata) =
      (info.files.map fun file => file.len.toNat).sum := by
  simp [totalLength, collectFiles, intoAccessor, Function.comp_def]

theorem file_valid {file : File} {item : Bencode} (of : FileOf file item) :
    validUtf8 file.path = true := by
  obtain ⟨_, _, names, _, _, _, _, path⟩ := of.read
  rw [path]
  apply push_all_valid rfl
  intro raw member
  obtain ⟨name, _, rfl⟩ := mem_map.mp member
  exact name.valid

theorem files_valid {files : List File} {items : List Bencode}
    (of : List.Forall₂ FileOf files items) : ∀ file ∈ files, validUtf8 file.path = true := by
  induction of with
  | nil => simp
  | cons first _ ih => exact forall_mem_cons.mpr ⟨file_valid first, ih⟩

/-- The builder gives back the entries of a dictionary that was parsed. -/
def Rebuilds (ε : Type) (repair : Bytes → Str) (info : Info) (dict : Dict) : Prop :=
  totalLength (collectFiles repair (intoAccessor info).metadata) < UInt64.size ∧
    info.pieceLen.toNat ≤ isizeMax ∧ (rebuilt repair info : Outcome ε Dict) = .ok dict

theorem plain_of_rebuilds {dict : Dict} (of : InfoOf info dict)
    (rebuilds : Rebuilds ε repair info dict) : PlainInfo (.dict dict) := by
  obtain ⟨total, positive, same⟩ := rebuilds
  obtain ⟨n, _, pieceLen⟩ := of.pieceLength
  rw [pieceLen, piece_length_iff] at positive
  rw [total_length_files] at total
  rcases of.layout with ⟨name, items, _, _, directory, files⟩ |
    ⟨name, length, md5sum, isName, _, directory, files⟩
  · rw [rebuilt_multi directory (files_valid files), pieceLen, length_back] at same
    cases same
    refine .multi ?_ positive ?_
    · intro entry member
      obtain ⟨file, _, rfl⟩ := mem_map.mp member
      exact iter_plain file.path
    · rw [map_map]
      simpa [Function.comp_def] using total
  · rw [rebuilt_single directory files name.valid, pieceLen, length_back, length_back] at same
    cases same
    refine .single ?_ positive
    have flat : (iter name.bytes).flatten = name.bytes := by
      have entry : SortedMap.lookup nameKey (singleEntries length (iter name.bytes).flatten n
          (mapPiecesList info.pieces)) = some (.bytes (iter name.bytes).flatten) := by
        simp +decide [singleEntries, SortedMap.lookup]
      rw [entry] at isName
      exact Bencode.bytes.inj (Option.some.inj isName)
    rw [flat]
    exact (iter_flat_iff name.bytes).mp flat

theorem files_back {files : List File} {entries : List (Int64 × List Bytes)}
    (of : List.Forall₂ FileOf files (entries.map fun file =>
      .dict [(lengthKey, .int file.1), (pathKey, .list (file.2.map .bytes))]))
    (plain : ∀ file ∈ entries, PlainParts file.2) :
    (files.map fun file => (file.len.toInt64, iter file.path)) = entries := by
  induction entries generalizing files with
  | nil =>
    cases of
    rfl
  | cons entry rest ih =>
    cases of with
    | cons first later =>
      obtain ⟨dict, length, names, isDict, isLength, isPath, len, path⟩ := first.read
      cases isDict
      simp +decide only [SortedMap.lookup, ↓reduceIte, Option.some.injEq, Bencode.int.injEq,
        Bencode.list.injEq] at isLength isPath
      have texts : entry.2 = names.map Str.bytes :=
        map_injective_iff.mpr (fun _ _ same => Bencode.bytes.inj same) isPath
      rw [map_cons, ih later (forall_mem_cons.mp plain).2, len,
        length_back, path, ← texts, (iter_pushed_iff entry.2).mpr (plain entry (.head _)),
        ← isLength]

theorem rebuilds_of_plain {dict : Dict} (of : InfoOf info dict) (plain : PlainInfo (.dict dict)) :
    Rebuilds ε repair info dict := by
  obtain ⟨n, isLength, pieceLen⟩ := of.pieceLength
  have isPieces := of.pieces
  unfold Rebuilds
  rw [total_length_files, pieceLen, piece_length_iff]
  cases plain with
  | single plain positive =>
    simp +decide only [singleEntries, SortedMap.lookup, ↓reduceIte, Option.some.injEq,
      Bencode.int.injEq, Bencode.bytes.injEq] at isLength isPieces
    rcases of.layout with ⟨name, items, _, none, _, _⟩ |
      ⟨name, length, md5sum, isName, isSize, directory, files⟩
    · simp +decide [singleEntries, SortedMap.lookup] at none
    · simp +decide only [singleEntries, SortedMap.lookup, ↓reduceIte, Option.some.injEq,
        Bencode.int.injEq, Bencode.bytes.injEq] at isName isSize
      subst isLength isPieces isName isSize
      refine ⟨?_, positive, ?_⟩
      · rw [files]
        simpa using UInt64.toNat_lt_size _
      · rw [rebuilt_single directory files name.valid, (iter_flat_iff _).mpr plain, pieceLen,
          length_back, length_back]
  | multi plain positive small =>
    simp +decide only [multiEntries, SortedMap.lookup, ↓reduceIte, Option.some.injEq,
      Bencode.int.injEq, Bencode.bytes.injEq] at isLength isPieces
    rcases of.layout with ⟨name, items, isName, isList, directory, files⟩ |
      ⟨name, length, md5sum, _, none, _, _⟩
    · simp +decide only [multiEntries, SortedMap.lookup, ↓reduceIte, Option.some.injEq,
        Bencode.list.injEq, Bencode.bytes.injEq] at isName isList
      subst isLength isPieces isName isList
      have back := files_back files plain
      refine ⟨?_, positive, ?_⟩
      · rw [← back, map_map] at small
        simpa [Function.comp_def] using small
      · rw [rebuilt_multi directory (files_valid files), back, pieceLen, length_back]
    · simp +decide [multiEntries, SortedMap.lookup] at none

end Plain

section Bytes
variable {repair : Bytes → Str} {sha : Bytes → ShaHash}
variable {b : Bytes} {info : Info}

/-- The bytes that were parsed are the bytes that are hashed. -/
theorem decoded_whole (fits : b.length ≤ isizeMax) (read : Info.fromBytes sha b = .ok info) :
    info.infoHash = sha b ∧ ∃ r dict, BencodeDecode.BencodeRef.decode b .default = .ok r ∧
      r.kind = .dict dict ∧ InfoOf info dict := by
  obtain ⟨r, isDecoded, parsed⟩ := bind_eq_ok.mp read
  have decodes : BencodeDecode.BencodeRef.decode b .default = .ok r := by
    unfold decoded at isDecoded
    split at isDecoded
    next same =>
      cases isDecoded
      exact same
    all_goals cases isDecoded
  obtain ⟨f, _, print, rfl⟩ := decode_full rfl fits decodes
  obtain ⟨hash, dict, isDict, of⟩ := info_of parsed
  rw [buffer_ref_at, print] at hash
  exact ⟨hash, _, dict, decodes, isDict, of⟩

theorem single_canonical (length pieceLength : Int64) (name pieces : Bytes) :
    Shallow (.dict (singleEntries length name pieceLength pieces)) 5 :=
  shallow_dict (by simp +decide [SortedMap.Sorted, singleEntries]) (by simp [singleEntries])

theorem file_canonical (file : Int64 × List Bytes) :
    Shallow (.dict [(lengthKey, .int file.1), (pathKey, .list (file.2.map .bytes))]) 3 := by
  have path : Shallow (.list (file.2.map .bytes)) 2 := shallow_strings id file.2
  exact shallow_dict (by simp +decide [SortedMap.Sorted]) (by simp [path])

theorem multi_canonical (name : Bytes) (pieceLength : Int64) (pieces : Bytes)
    (files : List (Int64 × List Bytes)) : Shallow (.dict (multiEntries name pieceLength pieces files)) 5 := by
  have list : Shallow (.list (files.map fun file =>
      .dict [(lengthKey, .int file.1), (pathKey, .list (file.2.map .bytes))])) 4 :=
    shallow_list (forall_mem_map.mpr fun file _ => file_canonical file)
  exact shallow_dict (by simp +decide [SortedMap.Sorted, multiEntries]) (by simp [multiEntries, list])

theorem plain_canonical {v : Bencode} (plain : PlainInfo v) : Shallow v 5 := by
  cases plain with
  | single => exact single_canonical ..
  | multi => exact multi_canonical ..

theorem rebuilt_canonical {dict full : Dict} (of : InfoOf info dict)
    (same : (rebuilt repair info : Outcome ε Dict) = .ok full) : Shallow (.dict full) 5 := by
  rcases of.layout with ⟨name, items, _, _, directory, files⟩ |
    ⟨name, length, md5sum, _, _, directory, files⟩
  · rw [rebuilt_multi directory (files_valid files)] at same
    cases same
    exact multi_canonical ..
  · rw [rebuilt_single directory files name.valid] at same
    cases same
    exact single_canonical ..

/-- Writing gives back the bytes that were parsed exactly if they are the canonical encoding of a
    plain dictionary. -/
theorem rewritten_iff (fits : b.length ≤ isizeMax) (read : Info.fromBytes sha b = .ok info) :
    (Info.toBytes repair info : Outcome ε Bytes) = .ok b ↔ ∃ v, PlainInfo v ∧ encode v = b := by
  obtain ⟨_, r, dict, decodes, isDict, of⟩ := decoded_whole fits read
  have unique : ∀ v, Shallow v 5 → encode v = b → v = .dict dict := by
    intro v canonical print
    rw [← print] at fits decodes
    have shallow : v.level ≤ BDecodeOpt.default.maxRecursion := canonical.level.trans (by decide)
    obtain ⟨r', again, kind, _⟩ := decode_encode canonical.sorted fits shallow
    rw [again] at decodes
    cases decodes
    rw [← kind, isDict]
  rw [to_bytes_ok_iff]
  constructor
  · rintro ⟨total, positive, _, full, same, print⟩
    have whole := unique _ (rebuilt_canonical of same) print.symm
    cases whole
    exact ⟨_, plain_of_rebuilds of ⟨total, positive, same⟩, print.symm⟩
  · rintro ⟨v, plain, print⟩
    have whole := unique v (plain_canonical plain) print
    subst whole
    have rebuilds : Rebuilds ε repair info dict := rebuilds_of_plain of plain
    obtain ⟨total, positive, same⟩ := rebuilds
    exact ⟨total, positive, fits, dict, same, print.symm⟩

end Bytes

section Equality

/-- `Eq`, which compares paths by their components. -/
structure FileSame (a b : File) : Prop where
  len : a.len = b.len
  path : SamePath a.path b.path
  md5sum : a.md5sum = b.md5sum

structure InfoSame (a b : Info) : Prop where
  infoHash : a.infoHash = b.infoHash
  files : List.Forall₂ FileSame a.files b.files
  pieces : a.pieces = b.pieces
  pieceLen : a.pieceLen = b.pieceLen
  isPrivate : a.isPrivate = b.isPrivate
  fileDirectory : Option.Rel SamePath a.fileDirectory b.fileDirectory

theorem info_same_refl (info : Info) : InfoSame info info where
  infoHash := rfl
  files := List.forall₂_same.mpr fun _ _ => ⟨rfl, rfl, rfl⟩
  pieces := rfl
  pieceLen := rfl
  isPrivate := rfl
  fileDirectory := by
    cases info.fileDirectory with
    | none => exact .none
    | some path => exact .some rfl

end Equality

end MetainfoFidelity
