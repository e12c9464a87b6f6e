import Bittorrent.Bencode.Encode
import Bittorrent.Metainfo.Info

/-!
Writing an info dictionary. The builder asks an accessor for a directory, for the files and for the
pieces; the accessor modelled here is a parsed `Info`, whose pieces are hashed already. Of the piece
length strategies only the custom one is used for it. What `to_string_lossy` puts in the place of
text that is not UTF-8 is a parameter.
-/
namespace MetainfoBuilder
open Rust Outcome UtilSha BencodeValue BencodeConvert BencodeEncode MetainfoInfo
variable {ε : Type}

structure InfoBuilder where
  info : Dict
  pieceLength : UInt64

def InfoBuilder.new : InfoBuilder := ⟨[], 0⟩

/-- `insert` answers with what stood under the key before, and where nothing did the `or_else`
    removes the new entry again. -/
def InfoBuilder.setPrivateFlag (builder : InfoBuilder) (optIsPrivate : Option Bool) : InfoBuilder :=
  match optIsPrivate.map fun isPrivate => if isPrivate then (1 : Int64) else 0 with
  | some numeric =>
    let inserted := SortedMap.insert privateKey (.int numeric) builder.info
    match SortedMap.lookup privateKey builder.info with
    | some _ => { builder with info := inserted }
    | none => { builder with info := SortedMap.remove privateKey inserted }
  | none => { builder with info := SortedMap.remove privateKey builder.info }

def InfoBuilder.setPieceLength (builder : InfoBuilder) (custom : UInt64) : InfoBuilder :=
  { builder with pieceLength := custom }

/-- What an accessor shows: the directory, the length and path of each file, and the hash of each
    piece. -/
structure Accessor where
  directory : Option Path
  metadata : List (UInt64 × Path)
  pieces : List ShaHash

def intoAccessor (info : Info) : Accessor where
  directory := info.fileDirectory
  metadata := info.files.map fun file => (file.len, file.path)
  pieces := info.pieces

section Build
variable (repair : Bytes → Str)

def toStringLossy (raw : Bytes) : Str := (Str.fromUtf8 raw).getD (repair raw)

def collectFiles (metadata : List (UInt64 × Path)) : List (UInt64 × List Str) :=
  metadata.map fun (len, path) => (len, (iter path).map (toStringLossy repair))

/-- The `fold` over `u64`, from the sum so far. -/
def totalFilesLen : Nat → List (UInt64 × List Str) → Outcome ε Nat
  | acc, [] => .ok acc
  | acc, (len, _) :: rest =>
    if acc + len.toNat < UInt64.size then totalFilesLen (acc + len.toNat) rest else .panic

/-- A vector of this many bytes can be allocated. -/
def allocate (size : Nat) : Outcome ε Unit := if size ≤ isizeMax then .ok () else .panic

/-- Two buffers of the piece length for each worker come first. Pieces that are hashed already are
    pushed with their index and so are in order. -/
def startHasherWorkers (pieceLength numWorkers : Nat) (pieces : List ShaHash) :
    Outcome ε (List (Nat × ShaHash)) := do
  if 0 < numWorkers then allocate pieceLength
  return pieces.zipIdx.map Prod.swap

def mapPiecesList (pieces : List ShaHash) : Bytes := pieces.flatMap ShaHash.asRef

def bencodeFile (file : UInt64 × List Str) : Bencode :=
  .dict (SortedMap.ofList [(lengthKey, .int file.1.toInt64),
    (pathKey, .list (file.2.map fun element => .bytes element.bytes))])

def insertFiles (info : Dict) (name : Bytes) (filesInfo : List (UInt64 × List Str)) : Dict :=
  SortedMap.insert filesKey (.list (filesInfo.map bencodeFile))
    (SortedMap.insert nameKey (.bytes name) info)

def insertLayout (info : Dict) (directory : Option Str) (filesInfo : List (UInt64 × List Str)) :
    Outcome ε Dict :=
  match directory, filesInfo with
  | some name, _ => .ok (insertFiles info name.bytes filesInfo)
  | none, _ :: _ :: _ => .ok (insertFiles info [] filesInfo)
  | none, [(len, path)] =>
    .ok (SortedMap.insert nameKey (.bytes (path.flatMap Str.bytes))
      (SortedMap.insert lengthKey (.int len.toInt64) info))
  -- `files_info[0]`
  | none, [] => .panic

def buildWithAccessor (threads : Nat) (accessor : Accessor) (optRoot : Option Dict) (info : Dict)
    (pieceLength : UInt64) : Outcome ε Bytes := do
  if threads = 0 then .panic
  let filesInfo := collectFiles repair accessor.metadata
  let _ ← totalFilesLen 0 filesInfo
  let piecesList ← startHasherWorkers pieceLength.toNat threads accessor.pieces
  let pieces := mapPiecesList (piecesList.map Prod.snd)
  let numbered := SortedMap.insert pieceLengthKey (.int pieceLength.toInt64) info
  let hashed := SortedMap.insert piecesKey (.bytes pieces) numbered
  let full ← insertLayout hashed (accessor.directory.map (toStringLossy repair)) filesInfo
  let encoded := match optRoot with
    | some root => encode (.dict (SortedMap.insert infoKey (.dict full) root))
    | none => encode (.dict full)
  allocate encoded.length
  return encoded

def InfoBuilder.build (builder : InfoBuilder) (threads : Nat) (accessor : Accessor) :
    Outcome ε Bytes :=
  buildWithAccessor repair threads accessor none builder.info builder.pieceLength

/-- `Info::to_bytes`. An `Info` is accessed without errors, so there is nothing to unwrap. -/
def Info.toBytes (info : Info) : Outcome ε Bytes :=
  ((InfoBuilder.new.setPrivateFlag info.isPrivate).setPieceLength info.pieceLen).build repair 1
    (intoAccessor info)

end Build

section Settings

theorem remove_insert_nil (value : Bencode) :
    SortedMap.remove privateKey (SortedMap.insert privateKey value []) = [] := by
  simp [SortedMap.insert, SortedMap.remove]

theorem private_flag_lost (flag : Option Bool) :
    InfoBuilder.new.setPrivateFlag flag = InfoBuilder.new := by
  cases flag with
  | none => rfl
  | some isPrivate =>
    unfold InfoBuilder.setPrivateFlag
    dsimp only [Option.map_some, InfoBuilder.new, SortedMap.lookup]
    rw [remove_insert_nil]

end Settings

section Shape
open List
variable {repair : Bytes → Str}

theorem lossy_valid {raw : Bytes} (valid : validUtf8 raw = true) :
    (toStringLossy repair raw).bytes = raw := by
  unfold toStringLossy Str.fromUtf8
  rw [dif_pos valid]
  rfl

def totalLength (files : List (UInt64 × List Str)) : Nat := (files.map fun file => file.1.toNat).sum

theorem total_ok_iff (files : List (UInt64 × List Str)) : ∀ {acc : Nat}, acc < UInt64.size →
    ((∃ total, (totalFilesLen acc files : Outcome ε Nat) = .ok total) ↔
      acc + totalLength files < UInt64.size) := by
  induction files with
  | nil =>
    intro acc small
    simp [totalFilesLen, totalLength, small]
  | cons file rest ih =>
    intro acc small
    obtain ⟨len, path⟩ := file
    have sum : totalLength ((len, path) :: rest) = len.toNat + totalLength rest := by
      simp [totalLength]
    rw [sum]
    unfold totalFilesLen
    by_cases fits : acc + len.toNat < UInt64.size
    · rw [if_pos fits, ih fits, Nat.add_assoc]
    · rw [if_neg fits]
      constructor
      · rintro ⟨total, same⟩
        cases same
      · intro whole
        omega

def multiEntries (name : Bytes) (pieceLength : Int64) (pieces : Bytes)
    (files : List (Int64 × List Bytes)) : Dict :=
  [(filesKey, .list (files.map fun file =>
      .dict [(lengthKey, .int file.1), (pathKey, .list (file.2.map .bytes))])),
    (nameKey, .bytes name), (pieceLengthKey, .int pieceLength), (piecesKey, .bytes pieces)]

def singleEntries (length : Int64) (name : Bytes) (pieceLength : Int64) (pieces : Bytes) : Dict :=
  [(lengthKey, .int length), (nameKey, .bytes name), (pieceLengthKey, .int pieceLength),
    (piecesKey, .bytes pieces)]

theorem bencode_file_eq (file : UInt64 × List Str) : bencodeFile file =
    .dict [(lengthKey, .int file.1.toInt64),
      (pathKey, .list ((file.2.map Str.bytes).map .bytes))] := by
  unfold bencodeFile
  rw [SortedMap.of_list_of_sorted]
  · simp [Function.comp_def]
  · simp only [SortedMap.Sorted, pairwise_cons, mem_singleton, forall_eq,
      not_mem_nil, false_imp_iff, implies_true, List.Pairwise.nil, and_true]
    decide

theorem layout_multi (pieceLength : UInt64) (pieces : Bytes) (name : Bytes)
    (files : List (UInt64 × List Str)) :
    insertFiles (SortedMap.insert piecesKey (.bytes pieces)
        (SortedMap.insert pieceLengthKey (.int pieceLength.toInt64) [])) name files =
      multiEntries name pieceLength.toInt64 pieces
        (files.map fun file => (file.1.toInt64, file.2.map Str.bytes)) := by
  have list : files.map bencodeFile = (files.map fun file =>
      (file.1.toInt64, file.2.map Str.bytes)).map fun file =>
        .dict [(lengthKey, .int file.1), (pathKey, .list (file.2.map .bytes))] := by
    rw [map_map]
    exact map_congr_left fun file _ => bencode_file_eq file
  simp +decide [insertFiles, SortedMap.insert, multiEntries, list]

theorem layout_single (pieceLength length : UInt64) (pieces name : Bytes) :
    SortedMap.insert nameKey (.bytes name) (SortedMap.insert lengthKey (.int length.toInt64)
      (SortedMap.insert piecesKey (.bytes pieces)
        (SortedMap.insert pieceLengthKey (.int pieceLength.toInt64) []))) =
      singleEntries length.toInt64 name pieceLength.toInt64 pieces := by
  simp +decide [SortedMap.insert, singleEntries]

/-- The dictionary that is built from a parsed one. -/
def rebuilt (repair : Bytes → Str) (info : Info) : Outcome ε Dict :=
  insertLayout (SortedMap.insert piecesKey (.bytes (mapPiecesList info.pieces))
      (SortedMap.insert pieceLengthKey (.int info.pieceLen.toInt64) []))
    (info.fileDirectory.map (toStringLossy repair))
    (collectFiles repair (intoAccessor info).metadata)

theorem to_bytes_eq (info : Info) : (Info.toBytes repair info : Outcome ε Bytes) = (do
    let _ ← totalFilesLen 0 (collectFiles repair (intoAccessor info).metadata)
    allocate info.pieceLen.toNat
    let full ← rebuilt repair info
    allocate (encode (.dict full)).length
    return encode (.dict full)) := by
  have swapped : (info.pieces.zipIdx.map Prod.swap).map Prod.snd = info.pieces := by
    rw [map_map]
    exact zipIdx_map_fst 0 info.pieces
  unfold Info.toBytes InfoBuilder.build buildWithAccessor
  rw [private_flag_lost]
  apply bind_congr rfl
  intro total _
  unfold allocate startHasherWorkers
  by_cases small : info.pieceLen.toNat ≤ isizeMax
  · simp only [InfoBuilder.setPieceLength, allocate, small, Nat.zero_lt_one, ↓reduceIte,
      ok_bind, pure_eq]
    change (insertLayout (SortedMap.insert piecesKey (.bytes (mapPiecesList
      ((info.pieces.zipIdx.map Prod.swap).map Prod.snd))) _) _ _ >>= _) = _
    rw [swapped]
    rfl
  · simp [InfoBuilder.setPieceLength, allocate, small]

theorem allocate_ok_iff {size : Nat} {u : Unit} :
    (allocate size : Outcome ε Unit) = .ok u ↔ size ≤ isizeMax := by
  unfold allocate
  split <;> simp [*]

theorem to_bytes_ok_iff {info : Info} {out : Bytes} :
    (Info.toBytes repair info : Outcome ε Bytes) = .ok out ↔
      totalLength (collectFiles repair (intoAccessor info).metadata) < UInt64.size ∧
      info.pieceLen.toNat ≤ isizeMax ∧ out.length ≤ isizeMax ∧
      ∃ full, (rebuilt repair info : Outcome ε Dict) = .ok full ∧ out = encode (.dict full) := by
  have total := total_ok_iff (ε := ε) (collectFiles repair (intoAccessor info).metadata)
    (show 0 < UInt64.size by decide)
  rw [Nat.zero_add] at total
  rw [to_bytes_eq, ← total]
  constructor
  · intro written
    obtain ⟨sum, isSum, written⟩ := bind_eq_ok.mp written
    obtain ⟨_, buffers, written⟩ := bind_eq_ok.mp written
    obtain ⟨full, layout, written⟩ := bind_eq_ok.mp written
    obtain ⟨_, fits, written⟩ := bind_eq_ok.mp written
    cases written
    exact ⟨⟨sum, isSum⟩, allocate_ok_iff.mp buffers, allocate_ok_iff.mp fits, full, layout, rfl⟩
  · rintro ⟨⟨sum, isSum⟩, buffers, fits, full, layout, rfl⟩
    rw [isSum, ok_bind, allocate_ok_iff (u := ()) |>.mpr buffers, ok_bind, layout,
      ok_bind, allocate_ok_iff (u := ()) |>.mpr fits]
    rfl

end Shape

end MetainfoBuilder
