import Bittorrent.Disk.Flat
import Bittorrent.Disk.Tasks
import Bittorrent.Lib.Mirror

/-!
What the disk manager acknowledges. `run_with_file_regions` is a walk over the regions of the block, and the
part of a block behind the end of the torrent has none; so a block can be acknowledged although nothing was
moved. The file system is any one; what it has moved is recorded beside its state.
-/
namespace DiskHonest
open Rust Action UtilSha MetainfoInfo ListPatch DiskAccessor DiskChecker DiskFlat DiskTasks
  ActionMirror
open List hiding range range_zero

section Places
variable {dir : Option Path} {files : List File}

/-- Bytes that were moved to or from a file. -/
structure Access where
  path : Path
  offset : Nat
  data : Bytes

def Access.spots (access : Access) : List (Path × Nat × UInt8) :=
  access.data.mapIdx fun i byte => (access.path, access.offset + i, byte)

/-- The place of a byte of the torrent in its files. -/
def place (dir : Option Path) : List File → Nat → Option (Path × Nat)
  | [], _ => none
  | file :: rest, pos =>
    if pos < file.len.toNat then some (buildPath dir file, pos) else place dir rest (pos - file.len.toNat)

/-- The bytes with their places, from a position on; behind the end of the torrent there is no place. -/
def placed (dir : Option Path) (files : List File) (start : Nat) (data : Bytes) :
    List (Option (Path × Nat × UInt8)) :=
  data.mapIdx fun i byte => (place dir files (start + i)).map fun p => (p.1, p.2, byte)

theorem placed_append (dir : Option Path) (files : List File) (start : Nat) (data more : Bytes) :
    placed dir files start (data ++ more) =
      placed dir files start data ++ placed dir files (start + data.length) more := by
  simp only [placed, mapIdx_append]
  congr 2
  funext i byte
  rw [Nat.add_assoc, Nat.add_comm data.length]

variable {file : File}

theorem placed_skip {rest : List File} {start : Nat} (behind : file.len.toNat ≤ start)
    (data : Bytes) :
    placed dir (file :: rest) start data = placed dir rest (start - file.len.toNat) data := by
  unfold placed
  congr 1
  funext i byte
  rw [place, if_neg (by omega), show start + i - file.len.toNat = start - file.len.toNat + i by omega]

variable {data : Bytes}

theorem placed_here {rest : List File} {start : Nat}
    (inside : start + data.length ≤ file.len.toNat) :
    placed dir (file :: rest) start data =
      (Access.spots ⟨buildPath dir file, start, data⟩).map some := by
  apply ext_getElem
  · simp [placed, Access.spots]
  · intro i within _
    simp only [placed, length_mapIdx] at within
    have here : start + i < file.len.toNat := by omega
    simp [placed, Access.spots, place, here]

def Region.access (data : Bytes) (region : Region) : Access :=
  ⟨region.path, region.offset, range data region.start (region.stop - region.start)⟩

theorem placed_lies (front back : List File) {offset : Nat}
    (inside : offset + data.length ≤ file.len.toNat) :
    placed dir (front ++ file :: back) (totalLength front + offset) data =
      (Access.spots ⟨buildPath dir file, offset, data⟩).map some := by
  induction front with
  | nil =>
    rw [totalLength, map_nil, sum_nil, Nat.zero_add]
    exact placed_here inside
  | cons first rest ih =>
    rw [total_length_cons, cons_append, placed_skip (by omega), ← ih]
    congr 1
    omega

theorem tiled_placed (list : List Region) : ∀ {pos start stop : Nat},
    Tiled dir files list pos start stop → stop ≤ data.length →
    ((list.map (Region.access data)).flatMap Access.spots).map some =
      placed dir files pos (range data start (stop - start)) := by
  induction list with
  | nil =>
    rintro pos start _ rfl _
    rw [Nat.sub_self, range_zero]
    rfl
  | cons region rest ih =>
    rintro _ _ stop ⟨⟨front, file, back, rfl, path, rfl, inside⟩, rfl, less, tiled⟩ room
    have after := tiled_le rest tiled
    have size : (range data region.start (region.stop - region.start)).length = region.stop - region.start :=
      range_length (by omega)
    simp only [map_cons, flatMap_cons, map_append]
    rw [ih tiled room, range_parts (Nat.le_of_lt less) after, placed_append, size, placed_lies _ _ (by omega),
      Region.access, path]

theorem spots_length (accesses : List Access) :
    (accesses.flatMap Access.spots).length = (accesses.map fun access => access.data.length).sum := by
  simp [length_flatMap, Access.spots]

end Places

section Recording
variable {σ φ ε : Type} (fs : FileSystem σ φ ε)

/-- The file system with a record of the bytes it said it moved. -/
def recorded : FileSystem (σ × List Access) (Path × φ) ε where
  openFile path := do
    let file ← (beside fs).openFile path
    return (path, file)
  fileSize file := (beside fs).fileSize file.2
  readFile file offset count := do
    let data ← (beside fs).readFile file.2 offset count
    Action.modify fun s => (s.1, s.2 ++ [⟨file.1, offset, data⟩])
    return data
  writeFile file offset data := do
    let written ← (beside fs).writeFile file.2 offset data
    Action.modify fun s => (s.1, s.2 ++ [⟨file.1, offset, data.take written⟩])
    return written

/-- The accesses to the regions of a block, one after the other. An error ends them; a transfer that is cut
    short, or one outside the buffer, is a crash. -/
def transferAll (transfer : φ → Region → Action σ ε Nat) (size : Nat) : List Region → Action σ ε Unit
  | [] => pure ()
  | region :: rest => do
    let file ← fs.openFile region.path
    if region.stop ≤ size then
      let moved ← transfer file region
      if moved = region.stop - region.start then transferAll transfer size rest else Action.abort
    else Action.abort

def writing (data : Bytes) (file : φ) (region : Region) : Action σ ε Nat :=
  fs.writeFile file region.offset (range data region.start (region.stop - region.start))

def reading (file : φ) (region : Region) : Action σ ε Nat := do
  let data ← fs.readFile file region.offset (region.stop - region.start)
  return data.length

variable {fs} {path : Path} {file : φ} {offset start stop : Nat}

/-- The file system does something, and the record takes it down. -/
theorem recorded_after {α β : Type} {m : Action σ ε α} {rest : α → Action (σ × List Access) ε β}
    {t : σ × List Access} {Q : β → α → σ × List Access → Prop} (noted : ∀ a t₁, t₁.2 = t.2 →
      ∃ b t₂, rest a t₁ = (.ok b, t₂) ∧ t₂.1 = t₁.1 ∧ Q b a t₂) :
    Mirrors Prod.fst t (Action.zoom Prod.fst (fun s disk => (disk, s.2)) m >>= rest) m Q
      fun t' => t'.2 = t.2 := by
  refine mirrors_post (mirrors_after (mirrors_zoom m fun _ => rfl) ?_) (fun _ _ _ holds => holds) ?_
  · rintro a _ _ ⟨rfl, s, rfl⟩
    exact noted a _ rfl
  · rintro _ ⟨s, rfl⟩
    rfl

theorem beside_within {τ υ α β : Type} {m : Action (σ × τ) ε α} {m' : Action σ ε β}
    {Q : α → β → σ × τ → Prop} {X : σ × τ → Prop} {u : (σ × τ) × υ} (main : Mirrors Prod.fst u.1 m m' Q X) :
    Mirrors (fun u : (σ × τ) × υ => u.1.1) u (Action.zoom Prod.fst (fun s disk => (disk, s.2)) m) m'
      (fun a b u' => ∃ t', u' = (t', u.2) ∧ Q a b t') fun u' => ∃ t', u' = (t', u.2) ∧ X t' :=
  mirrors_within (fun _ => rfl) main

theorem recorded_open (t : σ × List Access) : Mirrors Prod.fst t ((recorded fs).openFile path)
    (fs.openFile path) (fun a b t' => a = (path, b) ∧ t'.2 = t.2) fun t' => t'.2 = t.2 :=
  recorded_after fun _ t₁ same => ⟨_, t₁, rfl, rfl, rfl, same⟩

theorem recorded_write (data : Bytes) (t : σ × List Access) :
    Mirrors Prod.fst t ((recorded fs).writeFile (path, file) offset data) (fs.writeFile file offset data)
      (fun a b t' => a = b ∧ t'.2 = t.2 ++ [⟨path, offset, data.take b⟩]) fun t' => t'.2 = t.2 :=
  recorded_after fun _ _ same => ⟨_, _, rfl, rfl, rfl, by rw [← same]⟩

theorem recorded_read (count : Nat) (t : σ × List Access) :
    Mirrors Prod.fst t ((recorded fs).readFile (path, file) offset count) (fs.readFile file offset count)
      (fun a b t' => a = b ∧ t'.2 = t.2 ++ [⟨path, offset, b⟩]) fun t' => t'.2 = t.2 :=
  recorded_after fun _ _ same => ⟨_, _, rfl, rfl, rfl, by rw [← same]⟩

end Recording

section Walks
variable {σ φ ε : Type} {fs : FileSystem σ φ ε} {dir : Option Path} {files : List File}
variable {data : Bytes} {start : Nat}

theorem slice_outside {stop : Nat} (outside : ¬ stop ≤ data.length) :
    (slice data start stop : Outcome ε SubSlice) = .panic := by
  simp [slice, outside]

theorem write_walk_mirrors (data : Bytes) (list : List Region) :
    ∀ {pos start stop : Nat} (t : σ × List Access), Tiled dir files list pos start stop →
      Mirrors Prod.fst t (walk (recorded fs) (writeRegion (recorded fs) data) list ())
        (transferAll fs (writing fs data) data.length list)
        (fun _ _ t' => t'.2 = t.2 ++ list.map (Region.access data)) fun _ => True := by
  induction list with
  | nil =>
    intro _ _ _ t _
    exact mirrors_pure (by simp)
  | cons region rest ih =>
    rintro _ _ stop t ⟨_, rfl, less, tiled⟩
    refine mirrors_bind (mirrors_post (recorded_open t) (fun _ _ _ h => h) fun _ _ => trivial) ?_
    rintro _ file t₁ ⟨rfl, same⟩
    by_cases room : region.stop ≤ data.length
    · have part : (slice data region.start region.stop : Outcome ε SubSlice) =
          .ok ⟨region.start, range data region.start (region.stop - region.start)⟩ :=
        slice_ok (Nat.le_of_lt less) room
      have size : (range data region.start (region.stop - region.start)).length =
          region.stop - region.start := range_length (by omega)
      rw [if_pos room, writeRegion, part, bind_assoc]
      refine mirrors_given ?_
      rw [bind_assoc]
      refine mirrors_bind (mirrors_post (recorded_write _ t₁) (fun _ _ _ h => h) fun _ _ => trivial) ?_
      rintro moved _ t₂ ⟨rfl, log⟩
      by_cases whole : moved = region.stop - region.start
      · rw [assertCount, if_pos whole, if_pos whole]
        refine mirrors_given (mirrors_post (ih t₂ tiled) ?_ fun _ _ => trivial)
        intro _ _ t' later
        rw [later, log, same, whole, take_of_length_le (Nat.le_of_eq size), map_cons,
          append_assoc]
        rfl
      · rw [assertCount, if_neg whole, if_neg whole]
        exact mirrors_panic
    · rw [if_neg room, writeRegion, slice_outside room, bind_assoc]
      exact mirrors_panic

theorem range_of_take {data' : Bytes} {stop : Nat} (same : data'.take stop = data.take stop)
    (start : Nat) : range data' start (stop - start) = range data start (stop - start) := by
  have cut : ∀ list : Bytes, range list start (stop - start) = (list.take stop).drop start := by
    intro list
    rw [range, drop_take]
  rw [cut, cut, same]

theorem patched_range {part : Bytes} (inside : start ≤ data.length) :
    range (patch data start part) start part.length = part := by
  have front : (data.take start).length = start := by
    rw [length_take]
    omega
  rw [range, patch, append_assoc, drop_left' front, take_left' rfl]

theorem patched_front {part : Bytes} (inside : start ≤ data.length) :
    (patch data start part).take start = data.take start := by
  have front : (data.take start).length = start := by
    rw [length_take]
    omega
  rw [patch, append_assoc, take_left' front]

/-- Some bytes less than these have been recorded. -/
def Fewer (log : List Access) (count : Nat) (log' : List Access) : Prop :=
  ∃ more, log' = log ++ more ∧ (more.map fun access => access.data.length).sum < count

theorem read_walk_mirrors (size : Nat) (list : List Region) :
    ∀ {pos start stop : Nat} (t : (σ × List Access) × Bytes), t.2.length = size →
      Tiled dir files list pos start stop →
      Mirrors (fun t : (σ × List Access) × Bytes => t.1.1) t
        (walk (beside (recorded fs)) (readRegionInto (recorded fs)) list ())
        (transferAll fs (reading fs) size list)
        (fun _ _ t' => t'.2.length = size ∧ t'.2.take start = t.2.take start ∧
          t'.1.2 = t.1.2 ++ list.map (Region.access t'.2))
        fun t' => t'.2.length = size ∧ Fewer t.1.2 (stop - start) t'.1.2 := by
  induction list with
  | nil =>
    intro _ _ _ t sized _
    exact mirrors_pure ⟨sized, rfl, by simp⟩
  | cons region rest ih =>
    rintro _ _ stop t sized ⟨_, rfl, less, tiled⟩
    have after := tiled_le rest tiled
    have nothing : ∀ {log : List Access}, log = t.1.2 → Fewer t.1.2 (stop - region.start) log := by
      rintro log rfl
      refine ⟨[], by simp, ?_⟩
      simp only [map_nil, sum_nil]
      omega
    have opens : Mirrors (fun t : (σ × List Access) × Bytes => t.1.1) t
        ((beside (recorded fs)).openFile region.path) (fs.openFile region.path) _ _ :=
      beside_within (recorded_open t.1)
    refine mirrors_bind (mirrors_post opens (fun _ _ _ h => h) ?_) ?_
    · rintro _ ⟨t', rfl, same⟩
      exact ⟨sized, nothing same⟩
    rintro _ file t₁ ⟨t', rfl, rfl, same⟩
    rw [readRegionInto, bind_assoc]
    refine mirrors_get ?_
    rw [bind_assoc]
    by_cases room : region.stop ≤ size
    · have part : (slice t.2 region.start region.stop : Outcome ε SubSlice) = .ok _ :=
        slice_ok (Nat.le_of_lt less) (by omega)
      rw [if_pos room, part]
      refine mirrors_given ?_
      rw [reading, bind_assoc, bind_assoc]
      have reads : Mirrors (fun t : (σ × List Access) × Bytes => t.1.1) (t', t.2)
          ((beside (recorded fs)).readFile (region.path, file) region.offset (region.stop - region.start))
          (fs.readFile file region.offset (region.stop - region.start)) _ _ :=
        beside_within (recorded_read _ t')
      refine mirrors_bind (mirrors_post reads (fun _ _ _ h => h) ?_) ?_
      · rintro _ ⟨t'', rfl, same'⟩
        exact ⟨sized, nothing (same'.trans same)⟩
      rintro data _ t₂ ⟨t'', rfl, rfl, log⟩
      change Mirrors _ _ _ (if data.length = region.stop - region.start then _ else _) _ _
      rw [bind_assoc]
      by_cases whole : data.length = region.stop - region.start
      · rw [assertCount, if_pos whole, if_pos whole]
        refine mirrors_given ?_
        have length : (patch t.2 region.start data).length = size := by
          rw [patch_length (by omega), sized]
        refine mirrors_post (ih (t'', patch t.2 region.start data) length tiled) ?_ ?_
        · rintro _ _ t₃ ⟨sized', front, later⟩
          have own : range t₃.2 region.start (region.stop - region.start) = data := by
            rw [range_of_take front region.start, ← whole]
            exact patched_range (by omega)
          refine ⟨sized', ?_, ?_⟩
          · have shorter := congrArg (List.take region.start) front
            rw [take_take, take_take, Nat.min_eq_left (Nat.le_of_lt less)] at shorter
            rw [shorter]
            exact patched_front (by omega)
          · rw [later, map_cons, Region.access, own]
            rw [log, same, append_assoc]
            rfl
        · rintro t₃ ⟨sized', more, later, short⟩
          refine ⟨sized', ⟨region.path, region.offset, data⟩ :: more, ?_, ?_⟩
          · rw [later]
            rw [log, same, append_assoc]
            rfl
          · simp only [map_cons, sum_cons]
            omega
      · rw [assertCount, if_neg whole, if_neg whole]
        exact mirrors_panic
    · have outside : ¬ region.stop ≤ t.2.length := by omega
      rw [if_neg room, slice_outside outside]
      exact mirrors_panic

end Walks

section Honest
variable {σ φ ε : Type} (fs : FileSystem σ φ ε) (man : DiskManager (σ × List Access)) (block : Block)

/-- The data has the length of the block, and exactly its bytes were moved in the task, one after the other,
    each at its place in the files of the torrent. -/
def AllMoved (after : DiskManager (σ × List Access)) (block : Block) : Prop :=
  block.blockData.length = block.metadata.blockLength.toNat ∧
  ∃ torrent accesses, man.torrents.get block.metadata.infoHash = some torrent ∧
    after.disk.2 = man.disk.2 ++ accesses ∧
    (accesses.flatMap Access.spots).map some = placed torrent.file.fileDirectory torrent.file.files
      (startOf torrent.file block.metadata) block.blockData

/-- A block that is acknowledged is written, and otherwise the error is sent. -/
def ProcessHonest : Prop :=
  let after := (executeProcessBlock (recorded fs) block man).2
  after.sent = man.sent ++ [.processBlockError block (.infoHashNotFound block.metadata.infoHash)] ∨
    after.sent = man.sent ++ [.blockProcessed block] ∧ AllMoved man after block

/-- A block that is given out is read, and otherwise the error is sent. -/
def LoadHonest : Prop :=
  let after := (executeLoadBlock (recorded fs) block man).2
  after.sent = man.sent ++ [.loadBlockError block (.infoHashNotFound block.metadata.infoHash)] ∨
    ∃ data, after.sent = man.sent ++ [.blockLoaded ⟨block.metadata, data⟩] ∧
      AllMoved man after ⟨block.metadata, data⟩

def blockRegions (info : Info) (message : BlockMetadata) : List Region :=
  regions info.fileDirectory message.blockLength.toNat info.files (startOf info message) 0

/-- The data has the length of the block, which is not longer than what the torrent has from there on. -/
def Covered (info : Info) (block : Block) : Prop :=
  block.blockData.length = block.metadata.blockLength.toNat ∧
    block.metadata.blockLength.toNat ≤ totalLength info.files - startOf info block.metadata

/-- The lock of the torrent is not poisoned, and the position of the block is a number of 64 bits. -/
def Reachable (torrent : MetainfoState) (message : BlockMetadata) : Prop :=
  torrent.poisoned = false ∧ startOf torrent.file message ≤ u64Max

/-- An access to the regions of the block is refused, or all are complete and the block lies inside the
    torrent. -/
def Writable (s : σ) (torrent : MetainfoState) : Prop :=
  let ended := (transferAll fs (writing fs block.blockData) block.blockData.length
    (blockRegions torrent.file block.metadata) s).1
  Reachable torrent block.metadata ∧ ((∃ e, ended = .err e) ∨ ended = .ok () ∧ Covered torrent.file block)

/-- All accesses to the regions of the block are complete, and it lies inside the torrent. -/
def Readable (s : σ) (torrent : MetainfoState) : Prop :=
  Reachable torrent block.metadata ∧
    (transferAll fs (reading fs) block.blockData.length (blockRegions torrent.file block.metadata) s).1 =
      .ok () ∧ Covered torrent.file block

variable {fs} {man} {block}

theorem block_regions_tiled (info : Info) (message : BlockMetadata) :
    Tiled info.fileDirectory info.files (blockRegions info message) (startOf info message) 0
      (min message.blockLength.toNat (totalLength info.files - startOf info message)) := by
  have tiled := regions_tiled info.fileDirectory message.blockLength.toNat info.files
    (startOf info message) 0 (Nat.zero_le _)
  rwa [Nat.zero_add, Nat.sub_zero] at tiled

/-- The accesses to the regions are those of all bytes of the data exactly if there are as many. -/
theorem accesses_placed (info : Info) (message : BlockMetadata) (data : Bytes)
    (room : min message.blockLength.toNat (totalLength info.files - startOf info message) ≤ data.length) :
    ((((blockRegions info message).map (Region.access data)).flatMap Access.spots).map some =
      placed info.fileDirectory info.files (startOf info message) data) ↔
    min message.blockLength.toNat (totalLength info.files - startOf info message) = data.length := by
  have all := tiled_placed _ (block_regions_tiled info message) room
  rw [all, Nat.sub_zero]
  constructor
  · intro same
    have lengths := congrArg List.length same
    simpa [placed, range, room] using lengths
  · intro whole
    rw [whole, range, drop_zero, take_length]

theorem transfer_all_room {dir : Option Path} {files : List File} {transfer : φ → Region → Action σ ε Nat} {size : Nat} (list : List Region) :
    ∀ {pos start stop : Nat} {s s' : σ}, Tiled dir files list pos start stop → start ≤ size →
      transferAll fs transfer size list s = (.ok (), s') → stop ≤ size := by
  induction list with
  | nil =>
    rintro pos start _ s s' rfl room _
    exact room
  | cons region rest ih =>
    rintro pos start stop s s' ⟨_, rfl, less, tiled⟩ _ ended
    obtain ⟨file, s₁, _, ended⟩ := bind_ok ended
    split at ended
    · rename_i room
      obtain ⟨moved, s₂, _, ended⟩ := bind_ok ended
      split at ended
      · exact ih tiled room ended
      · cases ended
    · cases ended

variable {callback : φ → Nat → Nat → Nat → Unit → Action σ ε Unit}

theorem run_walk {info : Info} {message : BlockMetadata}
    (fits : startOf info message ≤ u64Max) :
    runWithFileRegions fs info message callback () = walk fs callback (blockRegions info message) () := by
  have start : (bytesToSkip info message : Outcome ε Nat) = .ok (startOf info message) := if_pos fits
  rw [runWithFileRegions, start]
  exact file_regions_walk fs info callback message.blockLength.toNat info.files (startOf info message) 0 ()

theorem run_far {info : Info} {message : BlockMetadata}
    (far : ¬ startOf info message ≤ u64Max) (s : σ) :
    runWithFileRegions fs info message callback () s = (.panic, s) := by
  have start : (bytesToSkip info message : Outcome ε Nat) = .panic := if_neg far
  rw [runWithFileRegions, start]
  rfl

/-- What a task leaves that has sent a message at its end, if there is a receiver. -/
def Sends (man : DiskManager (σ × List Access)) (message : Output)
    (after : DiskManager (σ × List Access)) : Prop :=
  after.sent = if man.listens man.sent.length then man.sent ++ [message] else man.sent

theorem send_out_sends {man' : DiskManager (σ × List Access)} (message : Output)
    (sent : man'.sent = man.sent) (listens : man'.listens = man.listens) :
    Sends man message (sendOut message man').2 ∧ (sendOut message man').2.disk = man'.disk := by
  unfold sendOut Sends
  rw [sent, listens]
  split
  · exact ⟨rfl, rfl⟩
  · exact ⟨sent, rfl⟩

variable {after : DiskManager (σ × List Access)}

theorem sends_iff {message : Output} (sends : Sends man message after) (other : Output) :
    after.sent = man.sent ++ [other] ↔ man.listens man.sent.length = true ∧ message = other := by
  rw [sends]
  by_cases listening : man.listens man.sent.length = true
  · simp [listening]
  · simp [listening]

theorem unsent (same : after.sent = man.sent) (message : Output) :
    after.sent ≠ man.sent ++ [message] := by
  rw [same]
  simp

theorem moved_iff_covered {torrent : MetainfoState} {data : Bytes}
    (found : man.torrents.get block.metadata.infoHash = some torrent)
    (log : after.disk.2 = man.disk.2 ++ (blockRegions torrent.file block.metadata).map (Region.access data))
    (room : min block.metadata.blockLength.toNat
      (totalLength torrent.file.files - startOf torrent.file block.metadata) ≤ data.length) :
    AllMoved man after ⟨block.metadata, data⟩ ↔ Covered torrent.file ⟨block.metadata, data⟩ := by
  have placed := accesses_placed torrent.file block.metadata data room
  constructor
  · rintro ⟨size, torrent', accesses, found', same, moved⟩
    rw [found] at found'
    cases found'
    rw [log] at same
    rw [← append_cancel_left same] at moved
    have whole := placed.mp moved
    refine ⟨size, ?_⟩
    dsimp only at size ⊢
    omega
  · rintro ⟨size, inside⟩
    refine ⟨size, torrent, _, found, log, placed.mpr ?_⟩
    dsimp only at size inside
    omega

/-- Where fewer bytes were moved than the block has inside the torrent, not all were. -/
theorem fewer_not_moved {torrent : MetainfoState} {data : Bytes}
    (fewer : Fewer man.disk.2 (min block.metadata.blockLength.toNat
      (totalLength torrent.file.files - startOf torrent.file block.metadata)) after.disk.2) :
    ¬ AllMoved man after ⟨block.metadata, data⟩ := by
  rintro ⟨size, torrent', accesses, _, same, moved⟩
  obtain ⟨more, log, short⟩ := fewer
  rw [log] at same
  have lengths := congrArg List.length moved
  rw [length_map, spots_length, ← append_cancel_left same] at lengths
  simp only [placed, length_mapIdx] at lengths
  dsimp only at size
  omega

section Process

theorem process_unknown (missing : man.torrents.get block.metadata.infoHash = none) :
    executeProcessBlock (recorded fs) block man =
      sendOut (.processBlockError block (.infoHashNotFound block.metadata.infoHash)) man := by
  rw [executeProcessBlock, bind_run (use_unknown missing)]

variable {torrent : MetainfoState}

theorem add_pending_known {hash : ShaHash} {message : BlockMetadata}
    (found : man.torrents.get hash = some torrent) (clean : torrent.poisoned = false) :
    ∃ result man', updateTorrentContext hash (fun _ =>
        (update fun c => addPendingBlock c message : Action (Torrent (σ × List Access)) Empty Unit)) man =
      (.ok result, man') ∧ man'.sent = man.sent ∧ man'.listens = man.listens ∧ man'.disk = man.disk := by
  rw [updateTorrentContext, found]
  dsimp only
  rw [clean]
  exact ⟨_, _, rfl, append_nil _, rfl, rfl⟩

theorem process_known {outcome : Outcome ε Unit} {t : σ × List Access}
    (found : man.torrents.get block.metadata.infoHash = some torrent)
    (clean : torrent.poisoned = false)
    (ran : writePiece (recorded fs) torrent.file block.blockData block.metadata man.disk = (outcome, t)) :
    match outcome with
    | .ok _ => Sends man (.blockProcessed block) (executeProcessBlock (recorded fs) block man).2 ∧
        (executeProcessBlock (recorded fs) block man).2.disk = t
    | .err _ => Sends man (.processBlockError block (.infoHashNotFound block.metadata.infoHash))
        (executeProcessBlock (recorded fs) block man).2
    | _ => (executeProcessBlock (recorded fs) block man).2.sent = man.sent := by
  have wrote := on_files_ended ran
  unfold executeProcessBlock
  cases outcome with
  | ok value =>
    obtain ⟨result, man', added, sent, listens, disk⟩ :=
      @add_pending_known _ { man with disk := t } torrent block.metadata.infoHash block.metadata found clean
    obtain ⟨sends, same⟩ := send_out_sends (.blockProcessed block) sent listens
    rw [use_then found clean wrote]
    dsimp only
    rw [bind_run added]
    exact ⟨sends, same.trans disk⟩
  | err e =>
    rw [use_then found clean wrote]
    exact (@send_out_sends _ man { man with disk := t } _ rfl rfl).1
  | panic | unfinished => rw [use_then found clean wrote]

theorem process_honest_known (found : man.torrents.get block.metadata.infoHash = some torrent) :
    ProcessHonest fs man block ↔
      man.listens man.sent.length = true ∧ Writable fs block man.disk.1 torrent := by
  unfold ProcessHonest Writable
  dsimp only
  by_cases reachable : Reachable torrent block.metadata
  · obtain ⟨clean, fits⟩ := reachable
    have mirrors := @write_walk_mirrors _ _ _ fs _ _ block.blockData _ _ _ _ man.disk
      (block_regions_tiled torrent.file block.metadata)
    rw [← run_walk fits] at mirrors
    unfold Mirrors at mirrors
    rcases ended : transferAll fs (writing fs block.blockData) block.blockData.length
      (blockRegions torrent.file block.metadata) man.disk.1 with ⟨outcome, s⟩
    rw [ended] at mirrors
    cases outcome with
    | ok value =>
      obtain ⟨_, t, ran, _, log⟩ := mirrors
      obtain ⟨sends, disk⟩ := process_known found clean ran
      have room := transfer_all_room _ (block_regions_tiled torrent.file block.metadata) (Nat.zero_le _) ended
      rw [sends_iff sends, sends_iff sends, moved_iff_covered found (by rw [disk, log]) room]
      simp [Reachable, clean, fits]
    | err e =>
      obtain ⟨t, ran, _⟩ := mirrors
      have sends := process_known found clean ran
      rw [sends_iff sends, sends_iff sends]
      simp [Reachable, clean, fits]
    | panic | unfinished =>
      obtain ⟨t, ran, _⟩ := mirrors
      simp [unsent (process_known found clean ran)]
  · have silent : (executeProcessBlock (recorded fs) block man).2.sent = man.sent := by
      cases clean : torrent.poisoned with
      | true => rw [executeProcessBlock, use_poisoned found clean]
      | false =>
        have far : ¬ startOf torrent.file block.metadata ≤ u64Max := fun fits => reachable ⟨clean, fits⟩
        exact process_known found clean (run_far far man.disk)
    simp [unsent silent, reachable]

theorem process_honest_unknown (missing : man.torrents.get block.metadata.infoHash = none) :
    ProcessHonest fs man block ↔ man.listens man.sent.length = true := by
  have sends := (@send_out_sends _ man man
    (.processBlockError block (.infoHashNotFound block.metadata.infoHash)) rfl rfl).1
  unfold ProcessHonest
  dsimp only
  rw [process_unknown missing, sends_iff sends, sends_iff sends]
  simp

end Process

section Load

theorem load_unknown (missing : man.torrents.get block.metadata.infoHash = none) :
    executeLoadBlock (recorded fs) block man =
      sendOut (.loadBlockError block (.infoHashNotFound block.metadata.infoHash)) man := by
  rw [executeLoadBlock, bind_run (use_unknown missing)]

theorem load_known {torrent : MetainfoState} {outcome : Outcome ε Unit}
    {t : (σ × List Access) × Bytes}
    (found : man.torrents.get block.metadata.infoHash = some torrent) (clean : torrent.poisoned = false)
    (ran : readPieceInto (recorded fs) torrent.file block.metadata (man.disk, block.blockData) =
      (outcome, t)) :
    match outcome with
    | .panic => (executeLoadBlock (recorded fs) block man).2.sent = man.sent
    | .unfinished => (executeLoadBlock (recorded fs) block man).2.sent = man.sent
    | _ => Sends man (.blockLoaded ⟨block.metadata, t.2⟩) (executeLoadBlock (recorded fs) block man).2 ∧
        (executeLoadBlock (recorded fs) block man).2.disk = t.1 := by
  have read : readBlock (recorded fs) torrent.file block man = match outcome with
      | .panic => (.panic, { man with disk := t.1 })
      | .unfinished => (.unfinished, { man with disk := t.1 })
      | _ => (.ok t.2, { man with disk := t.1 }) := by
    cases outcome <;> simp [readBlock, ran]
  unfold executeLoadBlock
  cases outcome with
  | ok value | err e =>
    rw [use_then found clean read]
    exact @send_out_sends _ man { man with disk := t.1 } _ rfl rfl
  | panic | unfinished => rw [use_then found clean read]

theorem load_honest_known {torrent : MetainfoState}
    (found : man.torrents.get block.metadata.infoHash = some torrent) : LoadHonest fs man block ↔
      man.listens man.sent.length = true ∧ Readable fs block man.disk.1 torrent := by
  unfold LoadHonest Readable
  by_cases reachable : Reachable torrent block.metadata
  · obtain ⟨clean, fits⟩ := reachable
    have tiled := block_regions_tiled torrent.file block.metadata
    have mirrors := @read_walk_mirrors _ _ _ fs _ _ block.blockData.length _ _ _ _ (man.disk, block.blockData) rfl
      tiled
    rw [← run_walk fits] at mirrors
    unfold Mirrors at mirrors
    rcases ended : transferAll fs (reading fs) block.blockData.length
      (blockRegions torrent.file block.metadata) man.disk.1 with ⟨outcome, s⟩
    rw [ended] at mirrors
    cases outcome with
    | ok value =>
      obtain ⟨_, t, ran, _, size, _, log⟩ := mirrors
      obtain ⟨sends, disk⟩ := load_known found clean ran
      have room := transfer_all_room _ tiled (Nat.zero_le _) ended
      have moved := moved_iff_covered found (by rw [disk]; exact log) (size.symm ▸ room)
      simp only [sends_iff sends]
      simp [Reachable, clean, fits, moved, Covered, size]
    | err e =>
      obtain ⟨t, ran, _, _, fewer⟩ := mirrors
      obtain ⟨sends, disk⟩ := load_known found clean ran
      have lacking := fun data => @fewer_not_moved _ man block _ torrent data (by
        rw [disk]
        exact fewer)
      simp [sends_iff sends, lacking]
    | panic | unfinished =>
      obtain ⟨t, ran, _⟩ := mirrors
      simp [unsent (load_known found clean ran)]
  · have silent : (executeLoadBlock (recorded fs) block man).2.sent = man.sent := by
      cases clean : torrent.poisoned with
      | true => rw [executeLoadBlock, use_poisoned found clean]
      | false =>
        have far : ¬ startOf torrent.file block.metadata ≤ u64Max := fun fits => reachable ⟨clean, fits⟩
        exact load_known found clean (run_far far (man.disk, block.blockData))
    simp [unsent silent, reachable]

theorem load_honest_unknown (missing : man.torrents.get block.metadata.infoHash = none) :
    LoadHonest fs man block ↔ man.listens man.sent.length = true := by
  have sends := (@send_out_sends _ man man
    (.loadBlockError block (.infoHashNotFound block.metadata.infoHash)) rfl rfl).1
  unfold LoadHonest
  simp [load_unknown missing, sends_iff sends]

end Load

/-- For every manager, every block and everything a file system can do: what is acknowledged was written, and
    what is given out was read, exactly if somebody receives the message and, where the torrent is known,
    its lock is clean, the position of the block is a number of 64 bits, and the accesses to the block end
    as they should. -/
theorem acknowledgements_honest_iff (fs : FileSystem σ φ ε) (man : DiskManager (σ × List Access))
    (block : Block) :
    (ProcessHonest fs man block ↔ man.listens man.sent.length = true ∧
      ∀ torrent, man.torrents.get block.metadata.infoHash = some torrent →
        Writable fs block man.disk.1 torrent) ∧
    (LoadHonest fs man block ↔ man.listens man.sent.length = true ∧
      ∀ torrent, man.torrents.get block.metadata.infoHash = some torrent →
        Readable fs block man.disk.1 torrent) := by
  cases found : man.torrents.get block.metadata.infoHash with
  | none =>
    rw [process_honest_unknown found, load_honest_unknown found]
    simp
  | some torrent =>
    rw [process_honest_known found, load_honest_known found]
    simp

def refusing : FileSystem Unit Unit Unit where
  openFile _ := Action.fail ()
  fileSize _ := Action.fail ()
  readFile _ _ _ := Action.fail ()
  writeFile _ _ _ := Action.fail ()

def oneByte : Info := infoOf 1 [(1, [97])]

def oneTorrent : DiskManager (Unit × List Access) :=
  ⟨.single oneByte.infoHash ⟨oneByte, .new 1 0, false⟩, ((), []), [], fun _ => true, [], fun _ => true⟩

def blockAt (index : UInt64) : Block := ⟨⟨oneByte.infoHash, index, 0, 1⟩, [7]⟩

/-- A block behind the end of the torrent is acknowledged as written, and one that could not be read is given
    out as loaded; no byte was moved. -/
theorem unmoved_block_acknowledged :
    let processed := (executeProcessBlock (recorded refusing) (blockAt 1) oneTorrent).2
    let loaded := (executeLoadBlock (recorded refusing) (blockAt 0) oneTorrent).2
    processed.sent = [.blockProcessed (blockAt 1)] ∧ processed.disk.2.isEmpty = true ∧
      loaded.sent = [.blockLoaded (blockAt 0)] ∧ loaded.disk.2.isEmpty = true := by
  decide +kernel

end Honest

end DiskHonest
