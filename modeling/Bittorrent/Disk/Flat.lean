import Mathlib.Data.List.Nodup
import Mathlib.Logic.Function.Basic
import Bittorrent.Disk.Checker

/-!
The files of a torrent, one behind the other, are one array of bytes: what `write_piece` and
`read_piece` do is to overwrite and to read a range of it. The file system is any one whose reads
and writes move all the bytes they are asked to.
-/
namespace DiskFlat
open Rust Action MetainfoInfo ListPatch DiskAccessor DiskChecker

/-- Zeroes up to a position behind the end. -/
def fill (bytes : Bytes) (size : Nat) : Bytes := bytes ++ List.replicate (size - bytes.length) 0

theorem fill_inside {bytes : Bytes} {size : Nat} (inside : size ≤ bytes.length) :
    fill bytes size = bytes := by simp [fill, Nat.sub_eq_zero_of_le inside]

/-- Which file a path and a handle stand for, what the files hold, and that no transfer is cut
    short. -/
structure Transfers {σ φ ε : Type} (κ : Type) [DecidableEq κ] (fs : FileSystem σ φ ε) where
  keyOf : Path → κ
  fileOf : φ → κ
  contents : σ → κ → Bytes
  openable : Path → Prop
  open_ok : ∀ c path, openable path →
    Runs False (fun s => contents s = c) (fs.openFile path)
      fun file s => fileOf file = keyOf path ∧ contents s = c
  size_ok : ∀ c file, Runs False (fun s => contents s = c) (fs.fileSize file)
    fun size s => size = (c (fileOf file)).length ∧ contents s = c
  read_ok : ∀ c file offset count, offset + count ≤ (c (fileOf file)).length →
    Runs False (fun s => contents s = c) (fs.readFile file offset count)
      fun data s => data = range (c (fileOf file)) offset count ∧ contents s = c
  write_ok : ∀ c file offset data,
    Runs False (fun s => contents s = c) (fs.writeFile file offset data)
      fun written s => written = data.length ∧ contents s =
        Function.update c (fileOf file) (patch (fill (c (fileOf file)) offset) offset data)

section Regions
variable {σ φ ε β : Type} (fs : FileSystem σ φ ε)

def totalLength (files : List File) : Nat := (files.map fun file => file.len.toNat).sum

theorem total_length_cons (file : File) (rest : List File) :
    totalLength (file :: rest) = file.len.toNat + totalLength rest := rfl

/-- A part of one file, and where it stands in the buffer. -/
structure Region where
  path : Path
  offset : Nat
  start : Nat
  stop : Nat

/-- The parts of the files that a block of this length covers behind the bytes to skip. -/
def regions (dir : Option Path) (length : Nat) : List File → Nat → Nat → List Region
  | [], _, _ => []
  | file :: rest, skip, accessed =>
    if skip < file.len.toNat ∧ accessed < length then
      let stop := accessed + min (length - accessed) (file.len.toNat - skip)
      ⟨buildPath dir file, skip, accessed, stop⟩ :: regions dir length rest 0 stop
    else regions dir length rest (skip - file.len.toNat) accessed

def walk (callback : φ → Nat → Nat → Nat → β → Action σ ε β) : List Region → β → Action σ ε β
  | [], acc => pure acc
  | region :: rest, acc => do
    let file ← fs.openFile region.path
    let acc ← callback file region.offset region.start region.stop acc
    walk callback rest acc

theorem file_regions_walk (info : Info) (callback : φ → Nat → Nat → Nat → β → Action σ ε β)
    (length : Nat) (files : List File) : ∀ (skip accessed : Nat) (acc : β),
    fileRegions fs info callback length files skip accessed acc =
      walk fs callback (regions info.fileDirectory length files skip accessed) acc := by
  induction files with
  | nil => exact fun _ _ _ => rfl
  | cons file rest ih =>
    intro skip accessed acc
    simp only [fileRegions, regions]
    by_cases inside : skip < file.len.toNat
    · rw [Nat.min_eq_left (Nat.le_of_lt inside), Nat.sub_self]
      by_cases more : accessed < length
      · have offset : file.len.toNat - (file.len.toNat - skip) = skip := by omega
        rw [if_pos ⟨by omega, more⟩, if_pos ⟨inside, more⟩, walk, offset]
        simp only [ih]
      · rw [if_neg (by omega), if_neg (by omega), ih, Nat.sub_eq_zero_of_le (Nat.le_of_lt inside)]
    · rw [Nat.min_eq_right (Nat.le_of_not_lt inside), if_neg (by omega), if_neg (by omega), ih]

/-- The region lies in one of the files, and so many bytes of all files stand before it. -/
def Lies (dir : Option Path) (files : List File) (pos : Nat) (region : Region) : Prop :=
  ∃ front file back, files = front ++ file :: back ∧ region.path = buildPath dir file ∧
    pos = totalLength front + region.offset ∧
    region.offset + (region.stop - region.start) ≤ file.len.toNat

/-- The regions lie one behind the other, in the files from a position on and in the buffer from one
    position to another. -/
def Tiled (dir : Option Path) (files : List File) : List Region → Nat → Nat → Nat → Prop
  | [], _, start, stop => start = stop
  | region :: rest, pos, start, stop => Lies dir files pos region ∧ region.start = start ∧
      start < region.stop ∧ Tiled dir files rest (pos + (region.stop - start)) region.stop stop

variable {dir : Option Path} {files : List File}

theorem tiled_le (list : List Region) : ∀ {pos start stop : Nat}, Tiled dir files list pos start stop →
    start ≤ stop := by
  induction list with
  | nil => exact fun tiled => Nat.le_of_eq tiled
  | cons region rest ih =>
    rintro pos start stop ⟨_, _, less, tiled⟩
    exact Nat.le_trans (Nat.le_of_lt less) (ih tiled)

theorem tiled_later (file : File) (list : List Region) : ∀ {pos start stop : Nat},
    Tiled dir files list pos start stop → Tiled dir (file :: files) list (file.len.toNat + pos) start stop := by
  induction list with
  | nil => exact fun tiled => tiled
  | cons region rest ih =>
    rintro pos start stop ⟨⟨front, own, back, rfl, path, rfl, inside⟩, first, less, tiled⟩
    refine ⟨⟨file :: front, own, back, rfl, path, ?_, inside⟩, first, less, ?_⟩
    · rw [total_length_cons, Nat.add_assoc]
    · rw [Nat.add_assoc]
      exact ih tiled

theorem regions_done (length : Nat) (files : List File) : ∀ skip : Nat,
    regions dir length files skip length = [] := by
  induction files with
  | nil => exact fun _ => rfl
  | cons file rest ih =>
    intro skip
    rw [regions, if_neg (by omega)]
    exact ih _

theorem regions_tiled (dir : Option Path) (length : Nat) (files : List File) :
    ∀ (skip accessed : Nat), accessed ≤ length → Tiled dir files (regions dir length files skip accessed) skip
      accessed (accessed + min (length - accessed) (totalLength files - skip)) := by
  induction files with
  | nil =>
    intro skip accessed _
    simp [regions, Tiled, totalLength]
  | cons file rest ih =>
    intro skip accessed within
    by_cases done : accessed = length
    · rw [done, regions_done, Nat.sub_self, Nat.zero_min]
      rfl
    rw [total_length_cons, regions]
    by_cases behind : file.len.toNat ≤ skip
    · -- the whole file lies before the block
      rw [if_neg (by omega)]
      convert tiled_later file _ (ih (skip - file.len.toNat) accessed within) using 1 <;> omega
    · -- the block begins in this file, or goes on at its beginning
      rw [if_pos ⟨by omega, by omega⟩]
      generalize taken : min (length - accessed) (file.len.toNat - skip) = here
      refine ⟨⟨[], file, rest, rfl, rfl, (Nat.zero_add _).symm, ?_⟩, rfl, ?_, ?_⟩
      · dsimp only
        omega
      · dsimp only
        omega
      rw [Nat.add_sub_cancel_left]
      by_cases full : skip + here = file.len.toNat
      · convert tiled_later file _ (ih 0 (accessed + here) (by omega)) using 1 <;> omega
      · rw [show accessed + here = length by omega, regions_done]
        change length = _
        omega

end Regions

section Flat
variable {σ φ ε κ : Type} [DecidableEq κ] {fs : FileSystem σ φ ε} (t : Transfers κ fs)
  (info : Info)

def fileKey (file : File) : κ := t.keyOf (buildPath info.fileDirectory file)

def flat (c : κ → Bytes) (files : List File) : Bytes :=
  files.flatMap fun file => c (fileKey t info file)

/-- The files are distinct, can be opened, and have the length that the torrent says. -/
structure Laid (c : κ → Bytes) (files : List File) : Prop where
  distinct : (files.map (fileKey t info)).Nodup
  openable : ∀ file ∈ files, t.openable (buildPath info.fileDirectory file)
  sized : ∀ file ∈ files, (c (fileKey t info file)).length = file.len.toNat

variable {t info}
variable {files : List File} {c : κ → Bytes}

theorem flat_length (sized : ∀ file ∈ files, (c (fileKey t info file)).length = file.len.toNat) :
    (flat t info c files).length = totalLength files := by
  rw [flat, List.length_flatMap, totalLength, List.map_congr_left sized]

variable {data : Bytes}

theorem laid_update {key : κ} (laid : Laid t info c files) (size : data.length = (c key).length) :
    Laid t info (Function.update c key data) files where
  distinct := laid.distinct
  openable := laid.openable
  sized := by
    intro file member
    by_cases same : fileKey t info file = key
    · rw [same, Function.update_self, size, ← same]
      exact laid.sized file member
    · rw [Function.update_of_ne same]
      exact laid.sized file member

variable (t info)

/-- What a write leaves: the range is overwritten, and files outside the list are untouched. -/
structure Written (c c' : κ → Bytes) (files : List File) (pos : Nat) (data : Bytes) : Prop where
  range : flat t info c' files = patch (flat t info c files) pos data
  laid : Laid t info c' files
  apart : ∀ key, key ∉ files.map (fileKey t info) → c' key = c key

variable {t info}

theorem written_one {front back : List File} {file : File} {offset : Nat}
    (laid : Laid t info c (front ++ file :: back))
    (inside : offset + data.length ≤ file.len.toNat) :
    Written t info c (Function.update c (fileKey t info file) (patch (c (fileKey t info file)) offset data))
      (front ++ file :: back) (totalLength front + offset) data := by
  have size := laid.sized file (by simp)
  have before : (flat t info c front).length = totalLength front :=
    flat_length fun other member => laid.sized other (by simp [member])
  have distinct := laid.distinct
  rw [List.map_append, List.map_cons, List.nodup_middle, List.nodup_cons] at distinct
  have others : ∀ list : List File, (∀ other ∈ list, other ∈ front ++ back) →
      flat t info (Function.update c (fileKey t info file) (patch (c (fileKey t info file)) offset data)) list =
        flat t info c list := by
    intro list among
    refine List.flatMap_congr fun other member => Function.update_of_ne ?_ ..
    intro same
    rw [← same, ← List.map_append] at distinct
    exact distinct.1 (List.mem_map_of_mem (among other member))
  refine ⟨?_, laid_update laid (patch_length (size ▸ inside)), fun key outside => Function.update_of_ne ?_ ..⟩
  · have split : ∀ c : κ → Bytes, flat t info c (front ++ file :: back) =
        flat t info c front ++ (c (fileKey t info file) ++ flat t info c back) := by
      intro c
      simp [flat]
    have within := @patch_across _ offset _ (flat t info c back) data [] (size ▸ inside) (.inl rfl)
    rw [List.append_nil, patch_nil] at within
    rw [split, split, others front (by simp +contextual), others back (by simp +contextual),
      Function.update_self, patch_behind _ _ (by omega), before, Nat.add_sub_cancel_left, within]
  · rintro rfl
    exact outside (List.mem_map_of_mem (by simp))

theorem written_trans {c₁ c₂ : κ → Bytes} {pos : Nat} {more : Bytes} (laid : Laid t info c files)
    (first : Written t info c c₁ files pos data)
    (second : Written t info c₁ c₂ files (pos + data.length) more)
    (inside : pos + data.length + more.length ≤ totalLength files) :
    Written t info c c₂ files pos (data ++ more) where
  range := by
    rw [second.range, first.range, patch_append_data]
    rw [flat_length laid.sized]
    exact inside
  laid := second.laid
  apart key outside := (second.apart key outside).trans (first.apart key outside)

theorem range_one {front back : List File} {file : File} {offset count : Nat}
    (laid : Laid t info c (front ++ file :: back)) (inside : offset + count ≤ file.len.toNat) :
    range (flat t info c (front ++ file :: back)) (totalLength front + offset) count =
      range (c (fileKey t info file)) offset count := by
  have size := laid.sized file (by simp)
  have before : (flat t info c front).length = totalLength front :=
    flat_length fun other member => laid.sized other (by simp [member])
  have split : flat t info c (front ++ file :: back) =
      flat t info c front ++ (c (fileKey t info file) ++ flat t info c back) := by simp [flat]
  have within := @range_across _ offset _ count (flat t info c back) 0 (size ▸ inside) (.inl rfl)
  rw [Nat.add_zero, range_zero, List.append_nil] at within
  rw [split, range_behind _ _ (by omega), before, Nat.add_sub_cancel_left, within]

end Flat

section Walks
variable {σ φ ε κ : Type} [DecidableEq κ] {fs : FileSystem σ φ ε} {t : Transfers κ fs} {info : Info}
  {files : List File} {buffer : Bytes}

theorem range_parts {start middle stop : Nat} (first : start ≤ middle) (second : middle ≤ stop) :
    range buffer start (stop - start) =
      range buffer start (middle - start) ++ range buffer middle (stop - middle) := by
  rw [show stop - start = middle - start + (stop - middle) by omega, range_add]
  congr 2
  omega

variable {c : κ → Bytes}

theorem runs_write_region {file : φ} {offset start stop : Nat} (ordered : start ≤ stop)
    (filled : stop ≤ buffer.length) (inside : offset ≤ (c (t.fileOf file)).length) :
    Runs False (fun s => t.contents s = c) (writeRegion fs buffer file offset start stop ())
      fun _ s => t.contents s = Function.update c (t.fileOf file)
        (patch (c (t.fileOf file)) offset (range buffer start (stop - start))) := by
  apply runs_lift_bind (slice_ok ordered filled)
  apply runs_bind (t.write_ok c file offset (range buffer start (stop - start)))
  intro written s after
  obtain ⟨count, contents⟩ := after
  have size : (range buffer start (stop - start)).length = stop - start := range_length (by omega)
  rw [fill_inside inside] at contents
  exact .inl ⟨(), s, by simp [Action.lift, assertCount, count, size], contents⟩

theorem runs_read_region {file : φ} {offset start stop : Nat} (ordered : start ≤ stop)
    (room : stop ≤ buffer.length) (inside : offset + (stop - start) ≤ (c (t.fileOf file)).length) :
    Runs False (fun s => t.contents s = c) (readRegion fs file offset start stop buffer)
      fun acc s => acc = patch buffer start (range (c (t.fileOf file)) offset (stop - start)) ∧
        t.contents s = c := by
  apply runs_lift_bind (slice_ok ordered room)
  apply runs_bind_fact (t.read_ok c file offset (stop - start) inside)
  rintro data rfl
  have size := range_length inside
  apply runs_lift_bind (a := ())
  · simp [assertCount, size]
  · exact runs_pure fun _ same => ⟨rfl, same⟩

theorem runs_write_walk (list : List Region) : ∀ {c : κ → Bytes} {pos start stop : Nat},
    Laid t info c files → Tiled info.fileDirectory files list pos start stop → stop ≤ buffer.length →
    pos + (stop - start) ≤ totalLength files →
    Runs False (fun s => t.contents s = c) (walk fs (writeRegion fs buffer) list ())
      fun _ s => Written t info c (t.contents s) files pos (range buffer start (stop - start)) := by
  induction list with
  | nil =>
    rintro c pos start _ laid rfl _ _
    rw [Nat.sub_self, range_zero]
    refine runs_pure ?_
    rintro s rfl
    exact ⟨(patch_nil _ _).symm, laid, fun _ _ => rfl⟩
  | cons region rest ih =>
    rintro c _ _ stop laid ⟨⟨front, file, back, rfl, path, rfl, within⟩, rfl, less, tiled⟩ filled inside
    have after := tiled_le rest tiled
    have size := laid.sized file (by simp)
    have part : (range buffer region.start (region.stop - region.start)).length = region.stop - region.start :=
      range_length (by omega)
    have more : (range buffer region.stop (stop - region.stop)).length = stop - region.stop :=
      range_length (by omega)
    rw [walk, path]
    apply runs_bind_fact (t.open_ok c _ (laid.openable file (by simp)))
    intro fsFile key
    have own : t.fileOf fsFile = fileKey t info file := key
    apply runs_bind (runs_write_region (Nat.le_of_lt less) (Nat.le_trans after filled) (by rw [own]; omega))
    intro _
    rw [own]
    have first := @written_one _ _ _ _ _ _ _ _ _
      (range buffer region.start (region.stop - region.start)) _ _ _ region.offset laid (by omega)
    refine runs_post (ih first.laid tiled filled (by omega)) fun _ s later => ?_
    rw [range_parts (Nat.le_of_lt less) after]
    exact written_trans laid first (part.symm ▸ later) (by omega)

theorem runs_read_walk (laid : Laid t info c files) (list : List Region) :
    ∀ {buffer : Bytes} {pos start stop : Nat}, Tiled info.fileDirectory files list pos start stop →
    stop ≤ buffer.length → pos + (stop - start) ≤ totalLength files →
    Runs False (fun s => t.contents s = c) (walk fs (readRegion fs) list buffer)
      fun acc s => acc = patch buffer start (range (flat t info c files) pos (stop - start)) ∧
        t.contents s = c := by
  induction list with
  | nil =>
    rintro buffer pos start _ rfl _ _
    rw [Nat.sub_self, range_zero, patch_nil]
    exact runs_pure fun _ same => ⟨rfl, same⟩
  | cons region rest ih =>
    rintro buffer _ _ stop ⟨⟨front, file, back, rfl, path, rfl, within⟩, rfl, less, tiled⟩ room inside
    have after := tiled_le rest tiled
    have size := laid.sized file (by simp)
    have whole := flat_length laid.sized
    rw [walk, path]
    apply runs_bind_fact (t.open_ok c _ (laid.openable file (by simp)))
    intro fsFile key
    have own : t.fileOf fsFile = fileKey t info file := key
    apply runs_bind_fact (runs_read_region (Nat.le_of_lt less) (Nat.le_trans after room) (by rw [own]; omega))
    rintro acc rfl
    rw [own, ← range_one laid within]
    generalize part : range (flat t info c (front ++ file :: back)) (totalLength front + region.offset)
      (region.stop - region.start) = data
    have taken : data.length = region.stop - region.start := part ▸ range_length (by omega)
    have kept : (patch buffer region.start data).length = buffer.length := patch_length (by omega)
    refine runs_post (ih tiled (by omega) (by omega)) ?_
    rintro acc s ⟨rfl, same⟩
    refine ⟨?_, same⟩
    have rest_length := @range_length _ (flat t info c (front ++ file :: back))
      (totalLength front + region.offset + (region.stop - region.start)) (stop - region.stop) (by omega)
    rw [show stop - region.start = region.stop - region.start + (stop - region.stop) by omega, range_add, part,
      ← patch_append_data (by omega), taken, show region.start + (region.stop - region.start) = region.stop by omega]

end Walks

section Refinement
variable {σ φ ε κ : Type} [DecidableEq κ] {fs : FileSystem σ φ ε}

def startOf (info : Info) (message : BlockMetadata) : Nat :=
  message.pieceIndex.toNat * info.pieceLen.toNat + message.blockOffset.toNat

/-- The block lies in the array, and its first position is a `u64`. -/
structure InRange (info : Info) (message : BlockMetadata) : Prop where
  inside : startOf info message + message.blockLength.toNat ≤ totalLength info.files
  fits : startOf info message ≤ u64Max

variable {message : BlockMetadata} {info : Info}

theorem block_tiled (block : InRange info message) :
    Tiled info.fileDirectory info.files (regions info.fileDirectory message.blockLength.toNat info.files
      (startOf info message) 0) (startOf info message) 0 message.blockLength.toNat := by
  have inside := block.inside
  convert regions_tiled info.fileDirectory message.blockLength.toNat info.files (startOf info message) 0
    (Nat.zero_le _) using 1
  omega

theorem runs_write_piece {t : Transfers κ fs} {c : κ → Bytes} (laid : Laid t info c info.files)
    (block : InRange info message) {buffer : Bytes}
    (filled : message.blockLength.toNat ≤ buffer.length) :
    Runs False (fun s => t.contents s = c) (writePiece fs info buffer message)
      fun _ s => Written t info c (t.contents s) info.files (startOf info message)
        (buffer.take message.blockLength.toNat) := by
  apply runs_lift_bind (if_pos block.fits)
  rw [file_regions_walk]
  exact runs_write_walk _ laid (block_tiled block) filled block.inside

theorem runs_read_piece {t : Transfers κ fs} {c : κ → Bytes} (laid : Laid t info c info.files)
    (block : InRange info message) {buffer : Bytes}
    (room : message.blockLength.toNat ≤ buffer.length) :
    Runs False (fun s => t.contents s = c) (readPiece fs info buffer message)
      fun acc s => acc = patch buffer 0 (range (flat t info c info.files) (startOf info message)
        message.blockLength.toNat) ∧ t.contents s = c := by
  apply runs_lift_bind (if_pos block.fits)
  rw [file_regions_walk]
  exact runs_read_walk laid _ (block_tiled block) room block.inside

/-- `write_piece` overwrites exactly its range of the array, and then every block is read as it
    stands there. -/
theorem write_read_flat (t : Transfers κ fs) (info : Info) (s : σ)
    (laid : Laid t info (t.contents s) info.files) (message : BlockMetadata)
    (block : InRange info message) (buffer : Bytes)
    (filled : message.blockLength.toNat ≤ buffer.length) :
    ∃ s', writePiece fs info buffer message s = (.ok (), s') ∧
      Written t info (t.contents s) (t.contents s') info.files (startOf info message)
        (buffer.take message.blockLength.toNat) ∧
      ∀ other target, InRange info other → target.length = other.blockLength.toNat →
        ∃ s'', readPiece fs info target other s' = (.ok (range (flat t info (t.contents s') info.files)
          (startOf info other) other.blockLength.toNat), s'') ∧ t.contents s'' = t.contents s' := by
  obtain ⟨_, s', ended, written⟩ :=
    runs_returns (runs_write_piece laid block filled) (s := s) rfl
  refine ⟨s', ended, written, ?_⟩
  intro other target inRange room
  obtain ⟨acc, s'', read, value, same⟩ :=
    runs_returns (runs_read_piece written.laid inRange (Nat.le_of_eq room.symm)) (s := s') rfl
  refine ⟨s'', ?_, same⟩
  have size : (range (flat t info (t.contents s') info.files) (startOf info other)
      other.blockLength.toNat).length = target.length := by
    rw [room]
    apply range_length
    rw [flat_length written.laid.sized]
    exact inRange.inside
  rw [read, value]
  simp [patch, size]

end Refinement

section Memory

def memory : FileSystem (Path → Bytes) Path Unit where
  openFile path := pure path
  fileSize file := fun s => (.ok (s file).length, s)
  readFile file offset count := fun s => (.ok (range (s file) offset count), s)
  writeFile file offset data := fun s =>
    (.ok data.length, Function.update s file (patch (fill (s file) offset) offset data))

def memoryTransfers : Transfers Path memory where
  keyOf := id
  fileOf := id
  contents := id
  openable := fun _ => True
  open_ok := fun _ path _ => runs_pure fun _ same => ⟨rfl, same⟩
  size_ok := by
    rintro c file s rfl
    exact .inl ⟨_, s, rfl, rfl, rfl⟩
  read_ok := by
    rintro c file offset count _ s rfl
    exact .inl ⟨_, s, rfl, rfl, rfl⟩
  write_ok := by
    rintro c file offset data s rfl
    exact .inl ⟨_, _, rfl, rfl, rfl⟩

def infoOf (pieceLen : UInt64) (files : List (UInt64 × Path)) : Info where
  infoHash := ⟨Vector.replicate 20 0⟩
  files := files.map fun file => ⟨file.1, file.2, none⟩
  pieces := []
  pieceLen := pieceLen
  isPrivate := none
  fileDirectory := none

/-- Two, none and three bytes; the block goes from the second byte of the first file over the empty
    one into the third. -/
def threeFiles : Info := infoOf 4 [(2, [97]), (0, [98]), (3, [99])]

theorem three_files_laid : Laid memoryTransfers threeFiles
    (fun path => if path = [97] then [1, 2] else if path = [98] then [] else [3, 4, 5])
    threeFiles.files where
  distinct := by decide
  openable := fun _ _ => trivial
  sized := by decide

theorem write_read_three_files :
    ∃ s', writePiece memory threeFiles [7, 8, 9] (.withDefaultHash 0 1 3)
        (fun path => if path = [97] then [1, 2] else if path = [98] then [] else [3, 4, 5]) =
        (.ok (), s') ∧ flat memoryTransfers threeFiles s' threeFiles.files = [1, 7, 8, 9, 5] := by
  obtain ⟨s', ended, written, _⟩ := write_read_flat memoryTransfers threeFiles _ three_files_laid
    (.withDefaultHash 0 1 3) ⟨by decide, by decide⟩ [7, 8, 9] (by decide)
  exact ⟨s', ended, written.range⟩

def hugeFiles : Info := infoOf 4611686018427387904
  [(9223372036854775808, [97]), (9223372036854775808, [98]), (9223372036854775808, [99])]

/-- The fifth piece lies inside the files, but its position is no `u64`. -/
theorem write_piece_overflows :
    Laid memoryTransfers hugeFiles (fun _ => List.replicate (2 ^ 63) 0) hugeFiles.files ∧
      startOf hugeFiles (.withDefaultHash 4 0 1) + 1 ≤ totalLength hugeFiles.files ∧
      (writePiece memory hugeFiles [7] (.withDefaultHash 4 0 1)
        (fun _ => List.replicate (2 ^ 63) 0)).1 = .panic := by
  refine ⟨⟨by decide, fun _ _ => trivial, ?_⟩, by decide, ?_⟩
  · intro file member
    rw [List.length_replicate]
    revert file
    decide
  · have overflows : (bytesToSkip hugeFiles (.withDefaultHash 4 0 1) : Outcome Unit Nat) = .panic := by
      decide
    unfold writePiece runWithFileRegions
    rw [overflows]
    rfl

end Memory

section Create
open List hiding range
variable {σ φ ε κ : Type} [DecidableEq κ] {fs : FileSystem σ φ ε} {t : Transfers κ fs} {info : Info}
  {c : κ → Bytes}

/-- Without errors their conversion makes no difference. -/
theorem runs_wrapped {α : Type} {P : σ → Prop} {m : Action σ ε α} {Q : α → σ → Prop}
    (main : Runs False P m Q) :
    Runs False P (converted m) Q ∧ Runs False P (expected m) Q := by
  constructor <;>
  · intro s holds
    obtain ⟨a, s', ended, value⟩ := runs_returns main holds
    exact .inl ⟨a, s', by simp [converted, expected, ended], value⟩

/-- One byte at the last position gives an empty file its size. -/
theorem last_byte_fills {size : Nat} (some : size ≠ 0) :
    patch (fill [] (size - 1)) (size - 1) [0] = fill [] size := by
  obtain ⟨size, rfl⟩ := Nat.exists_eq_succ_of_ne_zero some
  simp [patch, fill, replicate_succ']

variable (t info c) in
/-- The file is missing or empty, or it has its size. -/
def Fits (file : File) : Prop :=
  (c (fileKey t info file)).length = 0 ∨ (c (fileKey t info file)).length = file.len.toNat

theorem runs_validate {file : File} (openable : t.openable (buildPath info.fileDirectory file))
    (fits : Fits t info c file) :
    Runs False (fun s => t.contents s = c) (validateFileSize fs info file) fun _ s =>
      t.contents s = Function.update c (fileKey t info file)
        (fill (c (fileKey t info file)) file.len.toNat) := by
  apply runs_bind_fact (runs_wrapped (t.open_ok c _ openable)).1
  intro handle key
  have own : t.fileOf handle = fileKey t info file := key
  apply runs_bind_fact (runs_wrapped (t.size_ok c handle)).1
  rintro _ rfl
  rw [own]
  apply runs_ite
  · rintro ⟨short, nothing⟩
    apply runs_bind (runs_wrapped (t.write_ok c handle (file.len.toNat - 1) [0])).2
    intro _
    refine runs_pure fun s after => ?_
    rw [after.2, own, length_eq_zero_iff.mp nothing, last_byte_fills (by omega)]
  · intro kept
    have right : (c (fileKey t info file)).length = file.len.toNat := by rcases fits <;> omega
    apply runs_ite
    · exact fun wrong => absurd right wrong
    · refine fun _ => runs_pure fun s same => ?_
      rw [fill_inside (Nat.le_of_eq right.symm), Function.update_eq_self, same]

/-- The loop fills every file up, each for itself. -/
theorem runs_validate_all (files : List File) : ∀ {c : κ → Bytes},
    (files.map (fileKey t info)).Nodup →
    (∀ file ∈ files, t.openable (buildPath info.fileDirectory file) ∧ Fits t info c file) →
    Runs False (fun s => t.contents s = c) (forEach (validateFileSize fs info) files) fun _ s =>
      (∀ file ∈ files, t.contents s (fileKey t info file) =
        fill (c (fileKey t info file)) file.len.toNat) ∧
      ∀ key, key ∉ files.map (fileKey t info) → t.contents s key = c key := by
  induction files with
  | nil =>
    intro c _ _
    refine runs_pure ?_
    rintro s rfl
    exact ⟨by simp, fun _ _ => rfl⟩
  | cons file rest ih =>
    intro c distinct ready
    obtain ⟨fresh, others⟩ := nodup_cons.mp distinct
    obtain ⟨⟨openable, fits⟩, later⟩ := forall_mem_cons.mp ready
    have apart : ∀ other ∈ rest, fileKey t info other ≠ fileKey t info file :=
      fun other member same => fresh (same ▸ mem_map_of_mem member)
    apply runs_bind (runs_validate openable fits)
    intro _
    refine runs_post (ih others fun other member => ?_) fun _ s ⟨filled, kept⟩ => ⟨?_, ?_⟩
    · rw [Fits, Function.update_of_ne (apart other member)]
      exact later other member
    · intro other member
      rcases mem_cons.mp member with rfl | more
      · rw [kept _ fresh, Function.update_self]
      · rw [filled other more, Function.update_of_ne (apart other more)]
    · intro key outside
      rw [map_cons, mem_cons, not_or] at outside
      rw [kept key outside.2, Function.update_of_ne outside.1]

/-- What can be added: there is a last piece, the files are distinct and can be opened, and none has
    a size that is wrong. -/
structure Addable (t : Transfers κ fs) (info : Info) (c : κ → Bytes) : Prop where
  positive : info.pieceLen ≠ 0
  small : totalLength info.files ≤ u64Max
  distinct : (info.files.map (fileKey t info)).Nodup
  ready : ∀ file ∈ info.files, t.openable (buildPath info.fileDirectory file) ∧ Fits t info c file

/-- A torrent that can be added is added: what its files hold is kept, the missing ones are filled with
    zeroes, and no other file is touched. -/
theorem torrent_added (t : Transfers κ fs) (info : Info) (s : σ) (addable : Addable t info (t.contents s)) :
    ∃ s', initStateChecker fs info s =
        (.ok (.new info.pieces.length (totalLength info.files % info.pieceLen.toNat)), s') ∧
      Laid t info (t.contents s') info.files ∧
      (∀ file ∈ info.files, t.contents s' (fileKey t info file) =
        fill (t.contents s (fileKey t info file)) file.len.toNat) ∧
      ∀ key, key ∉ info.files.map (fileKey t info) → t.contents s' key = t.contents s key := by
  have last : (lastPieceSize info : Outcome (TorrentError ε) Nat) =
      .ok (totalLength info.files % info.pieceLen.toNat) := by
    rw [lastPieceSize, show totalBytes info = .ok (totalLength info.files) from if_pos addable.small]
    exact if_neg addable.positive
  obtain ⟨_, s', ended, filled, kept⟩ :=
    runs_returns (runs_validate_all info.files addable.distinct addable.ready) (s := s) rfl
  refine ⟨s', ?_, ⟨addable.distinct, fun file member => (addable.ready file member).1,
    fun file member => ?_⟩, filled, kept⟩
  · rw [initStateChecker, last]
    exact bind_run ended
  · rw [filled file member, fill, length_append, length_replicate]
    rcases (addable.ready file member).2 <;> omega

/-- The third file is there already, the others are not. -/
theorem three_files_added : ∃ s',
    initStateChecker memory threeFiles (fun path => if path = [99] then [3, 4, 5] else []) = (.ok (.new 0 1), s') ∧
      s' [97] = [0, 0] ∧ s' [99] = [3, 4, 5] := by
  obtain ⟨s', ended, _, filled, _⟩ := torrent_added memoryTransfers threeFiles
    (fun path => if path = [99] then [3, 4, 5] else [])
    ⟨by decide, by decide, by decide, by simp [Fits, memoryTransfers, threeFiles, infoOf]; decide⟩
  exact ⟨s', ended, filled ⟨2, [97], none⟩ (by decide), filled ⟨3, [99], none⟩ (by decide)⟩

end Create

end DiskFlat
