import Bittorrent.Disk.Filling
import Bittorrent.Disk.Honest

/-!
The checks of a torrent do not panic, whatever blocks came in before, as long as each block lies at one of
the pieces the torrent has. The write path also takes blocks behind the end, where it writes nothing; the
next check looks for the hash of such a piece and panics with the lock in its hands.
-/
namespace DiskUncrashed
open Rust Outcome Action UtilSha MetainfoInfo ListPatch HashTables HashTable DiskAccessor DiskChecker
  DiskMerging DiskFlat DiskFilling DiskTasks DiskHonest
open Rust (Path)

section Merging
variable {ε : Type} {info : Info}

/-- A block that the checks can cope with: its end and its position are numbers of 64 bits, and it belongs to
    a piece of the torrent, or it is the empty block that `fill_checker_state` puts behind the last piece. -/
structure Tame (info : Info) (message : BlockMetadata) : Prop where
  stop : message.blockOffset.toNat + message.blockLength.toNat ≤ u64Max
  start : startOf info message ≤ u64Max
  piece : message.pieceIndex.toNat < info.pieces.length ∨ message.blockOffset = 0 ∧ message.blockLength = 0

def AllTame (info : Info) (pending : Pending) : Prop :=
  ∀ entry ∈ pending, ∀ message ∈ entry.2, Tame info message

end Merging

section Filling
variable {ε : Type} {info : Info} {checker : PieceStateChecker}

/-- At least one byte, and a hash for each piece. -/
structure Shaped (info : Info) : Prop where
  positive : 1 ≤ info.pieceLen.toNat
  some : 1 ≤ totalLength info.files
  hashes : info.pieces.length = (totalLength info.files + info.pieceLen.toNat - 1) / info.pieceLen.toNat

section
variable (shaped : Shaped info)
include shaped

theorem some_piece : 0 < info.pieces.length := by
  have positive := shaped.positive
  have some := shaped.some
  rw [shaped.hashes]
  exact Nat.div_pos (by omega) positive

end

end Filling

variable {buffer : Bytes}

section Reading
variable {σ φ ε : Type} {fs : FileSystem σ φ ε} {info : Info} {J : σ → Prop}

/-- While `J` holds, an open of a file of the torrent returns, and so does a read inside the file, with as
    many bytes as it was asked for or with an error; and `J` goes on to hold. -/
def FullReads (fs : FileSystem σ φ ε) (info : Info) (J : σ → Prop) : Prop :=
  ∀ file ∈ info.files, Survives J (fs.openFile (buildPath info.fileDirectory file)) fun handle =>
    ∀ offset count, offset + count ≤ file.len.toNat →
      Survives J (fs.readFile handle offset count) fun data => data.length = count

end Reading

section Checking
variable {σ φ ε : Type} {sha : Bytes → ShaHash} {fs : FileSystem σ φ ε} {info : Info} {J : σ → Prop}

/-- The checker of a torrent whose waiting blocks are all tame. -/
structure Fit (info : Info) (checker : PieceStateChecker) : Prop where
  pieces : checker.totalPieces = info.pieces.length
  size : checker.lastBlockSize = totalLength info.files % info.pieceLen.toNat
  tame : AllTame info checker.pendingBlocks

/-- A torrent as a check meets it, with somebody who receives what the check reports. -/
structure Ready (info : Info) (J : σ → Prop) (t : Torrent σ) : Prop where
  fit : Fit info t.checker
  disk : J t.disk
  heard : ∀ k, t.listens k = true

variable {message : BlockMetadata}

section
variable (shaped : Shaped info)
include shaped

section
variable (full : FullReads fs info J)
include full

end

end

end Checking

section Runs
variable {σ φ ε : Type} (sha : Bytes → ShaHash) (fs : FileSystem σ φ ε)

/-- No section that changes the torrent has panicked, and the next check will not either. -/
structure Intact (torrent : MetainfoState) : Prop where
  clean : torrent.poisoned = false
  shaped : Shaped torrent.file
  total : totalLength torrent.file.files ≤ u64Max
  fit : Fit torrent.file torrent.state

/-- What a check of the torrent needs from outside: a buffer for a piece can be had, the reports are received,
    and reads inside the files are not cut short. -/
structure Checkable (man : DiskManager σ) (torrent : MetainfoState) : Prop where
  small : torrent.file.pieceLen.toNat ≤ isizeMax
  heard : ∀ k, man.sent.length ≤ k → man.listens k = true
  reads : ∃ J : σ → Prop, J man.disk ∧ FullReads fs torrent.file J

/-- A block belongs to one of the pieces of its torrent, and its end is a number of 64 bits. -/
def Met (man : DiskManager σ) : DiskTask → Prop
  | .addTorrent file => Shaped file
  | .removeTorrent _ => True
  | .loadBlock _ => True
  | .processBlock block => ∀ torrent, man.torrents.get block.metadata.infoHash = some torrent →
      block.metadata.pieceIndex.toNat < torrent.file.pieces.length ∧
      block.metadata.blockOffset.toNat + block.metadata.blockLength.toNat ≤ u64Max
  | .checkTorrent hash => ∀ torrent, man.torrents.get hash = some torrent → Checkable fs man torrent
  | .pieceCheck hash => ∀ torrent, man.torrents.get hash = some torrent → Checkable fs man torrent

variable {sha fs} {man : DiskManager σ} {torrent : MetainfoState}

section Keeping

variable (hash : ShaHash)

end Keeping

/-- A manager after tasks that all meet the condition, however each of them ended. In between anything may
    happen to the files and the receivers, and the order of a map is never fixed. -/
inductive Reached (sha : Bytes → ShaHash) (fs : FileSystem σ φ ε) : DiskManager σ → Prop where
  | start {man : DiskManager σ} : man.torrents = .empty → Reached sha fs man
  | task {man : DiskManager σ} {task : DiskTask} : Reached sha fs man → Met fs man task →
      Reached sha fs (execute sha fs task man).2
  | outside {man : DiskManager σ} (disk : σ) (listens obeys : Nat → Bool) : Reached sha fs man →
      Reached sha fs { man with disk := disk, listens := listens, obeys := obeys }
  | reorder {man : DiskManager σ} {hash : ShaHash} {torrent : MetainfoState} {pending : Pending} :
      Reached sha fs man → man.torrents.get hash = some torrent →
      torrent.state.pendingBlocks.Perm pending →
      Reached sha fs { man with torrents := (man.torrents.insert hash
        { torrent with state := { torrent.state with pendingBlocks := pending } }) }

end Runs

end DiskUncrashed
