import Bittorrent.Lib.Action
import Bittorrent.Lib.Patch
import Bittorrent.Metainfo.Info

/-!
Blocks of a torrent in the files of a file system. `FileSystem` is the trait with its interior
state made explicit; a read returns the bytes it put at the front of the buffer.
-/
namespace DiskAccessor
open Rust UtilSha MetainfoInfo ListPatch

structure FileSystem (σ φ ε : Type) where
  openFile : Path → Action σ ε φ
  fileSize : φ → Action σ ε Nat
  readFile : φ → Nat → Nat → Action σ ε Bytes
  writeFile : φ → Nat → Bytes → Action σ ε Nat

structure BlockMetadata where
  infoHash : ShaHash
  pieceIndex : UInt64
  blockOffset : UInt64
  blockLength : UInt64
  deriving DecidableEq

def BlockMetadata.withDefaultHash (pieceIndex blockOffset blockLength : UInt64) : BlockMetadata :=
  ⟨⟨Vector.replicate shaHashLen 0⟩, pieceIndex, blockOffset, blockLength⟩

def buildPath (parentDirectory : Option Path) (file : File) : Path :=
  match parentDirectory with
  | some dir => join dir file.path
  | none => file.path

section Accessor
variable {σ φ ε β : Type} (fs : FileSystem σ φ ε) (info : Info)

def u64Max : Nat := 2 ^ 64 - 1

/-- `piece_index * piece_length + block_offset` in `u64`. -/
def bytesToSkip (message : BlockMetadata) : Outcome ε Nat :=
  let start := message.pieceIndex.toNat * info.pieceLen.toNat + message.blockOffset.toNat
  if start ≤ u64Max then .ok start else .panic

/-- The loop over the files. What the closure has captured goes along as `acc`. -/
def fileRegions (callback : φ → Nat → Nat → Nat → β → Action σ ε β) (totalBlockLength : Nat) :
    List File → Nat → Nat → β → Action σ ε β
  | [], _, _, acc => pure acc
  | file :: rest, totalBytesToSkip, totalBytesAccessed, acc =>
    let minBytesToSkip := min totalBytesToSkip file.len.toNat
    let bytesToAccess := file.len.toNat - minBytesToSkip
    if bytesToAccess > 0 ∧ totalBytesAccessed < totalBlockLength then do
      let fsFile ← fs.openFile (buildPath info.fileDirectory file)
      let actualBytesToAccess := min (totalBlockLength - totalBytesAccessed) bytesToAccess
      let acc ← callback fsFile (file.len.toNat - bytesToAccess) totalBytesAccessed
        (totalBytesAccessed + actualBytesToAccess) acc
      fileRegions callback totalBlockLength rest (totalBytesToSkip - minBytesToSkip)
        (totalBytesAccessed + actualBytesToAccess) acc
    else
      fileRegions callback totalBlockLength rest (totalBytesToSkip - minBytesToSkip)
        totalBytesAccessed acc

def runWithFileRegions (message : BlockMetadata)
    (callback : φ → Nat → Nat → Nat → β → Action σ ε β) (acc : β) : Action σ ε β := do
  let skip ← Action.lift (bytesToSkip info message)
  fileRegions fs info callback message.blockLength.toNat info.files skip 0 acc

/-- `assert_eq!` on the number of transferred bytes. -/
def assertCount (moved expected : Nat) : Outcome ε Unit :=
  if moved = expected then .ok () else .panic

def readRegion (file : φ) (offset start stop : Nat) (buffer : Bytes) : Action σ ε Bytes := do
  let _ ← Action.lift (slice buffer start stop)
  let data ← fs.readFile file offset (stop - start)
  Action.lift (assertCount data.length (stop - start))
  return patch buffer start data

def writeRegion (buffer : Bytes) (file : φ) (offset start stop : Nat) (_ : Unit) :
    Action σ ε Unit := do
  let part ← Action.lift (slice buffer start stop)
  let written ← fs.writeFile file offset part.bytes
  Action.lift (assertCount written (stop - start))

def readPiece (pieceBuffer : Bytes) (message : BlockMetadata) : Action σ ε Bytes :=
  runWithFileRegions fs info message (readRegion fs) pieceBuffer

def writePiece (pieceBuffer : Bytes) (message : BlockMetadata) : Action σ ε Unit :=
  runWithFileRegions fs info message (writeRegion fs pieceBuffer) ()

end Accessor

end DiskAccessor
