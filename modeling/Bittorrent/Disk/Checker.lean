import Mathlib.Data.List.Sort
import Bittorrent.Disk.Accessor

/-!
Checking the pieces of a torrent. Blocks that came in wait in a map from piece index to blocks; a
check merges the blocks of each piece, reads the pieces that are whole and compares their hashes.
The map is a list in the order in which it is iterated, and a check reports through a channel
whose receiver may be gone at any time. A pace is kept as the two numbers it is the quotient of.
-/
namespace DiskChecker
open Rust UtilSha MetainfoInfo DiskAccessor
variable {ε : Type}

inductive PieceState where
  | good (index : UInt64)
  | bad (index : UInt64)
  deriving DecidableEq, Repr

inductive ODiskMessage where
  | foundGoodPiece (hash : ShaHash) (index : UInt64)
  | foundBadPiece (hash : ShaHash) (index : UInt64)
  | checkPace (hash : ShaHash) (checked total : Nat)
  deriving DecidableEq

abbrev Pending := List (UInt64 × List BlockMetadata)

structure PieceStateChecker where
  newStates : List PieceState
  oldStates : List PieceState
  pendingBlocks : Pending
  totalPieces : Nat
  lastBlockSize : Nat
  isComplete : Bool
  completeNum : Nat
  checkNum : Nat

def PieceStateChecker.new (totalPieces lastBlockSize : Nat) : PieceStateChecker :=
  ⟨[], [], [], totalPieces, lastBlockSize, false, 0, 0⟩

section Sizes

def totalBytes (info : Info) : Outcome ε Nat :=
  let total := (info.files.map fun file => file.len.toNat).sum
  if total ≤ u64Max then .ok total else .panic

/-- A remainder or quotient by zero panics. -/
def lastPieceSize (info : Info) : Outcome ε Nat := do
  let total ← totalBytes info
  if info.pieceLen = 0 then .panic else .ok (total % info.pieceLen.toNat)

end Sizes

section Pending

def pushBlock (msg : BlockMetadata) : Pending → Pending
  | [] => [(msg.pieceIndex, [msg])]
  | (key, messages) :: rest =>
    if key = msg.pieceIndex then (key, messages ++ [msg]) :: rest
    else (key, messages) :: pushBlock msg rest

def addPendingBlock (c : PieceStateChecker) (msg : BlockMetadata) : PieceStateChecker :=
  { c with pendingBlocks := pushBlock msg c.pendingBlocks }

def fillCheckerState (c : PieceStateChecker) (info : Info) : Outcome ε PieceStateChecker := do
  let total ← totalBytes info
  let lastSize ← lastPieceSize info
  let fullPieces := total / info.pieceLen.toNat
  let filled := (List.range fullPieces).foldl (fun c index =>
    addPendingBlock c (.withDefaultHash (UInt64.ofNat index) 0 info.pieceLen)) c
  if lastSize ≠ info.pieceLen.toNat then
    return addPendingBlock filled
      (.withDefaultHash (UInt64.ofNat fullPieces) 0 (UInt64.ofNat lastSize))
  else
    return filled

end Pending

section Merge

def blockEnd (message : BlockMetadata) : Outcome ε Nat :=
  let stop := message.blockOffset.toNat + message.blockLength.toNat
  if stop ≤ u64Max then .ok stop else .panic

def mergePieceMessages (a b : BlockMetadata) : Outcome ε (Option BlockMetadata) :=
  if a.infoHash ≠ b.infoHash ∨ a.pieceIndex ≠ b.pieceIndex then .ok none
  else do
    let startA := a.blockOffset.toNat
    let endA ← blockEnd a
    let startB := b.blockOffset.toNat
    let endB ← blockEnd b
    if startB ≥ startA ∧ startB ≤ endA then
      return some ⟨a.infoHash, a.pieceIndex, a.blockOffset, UInt64.ofNat (max endA endB - startA)⟩
    else if startA ≥ startB ∧ startA ≤ endB then
      return some ⟨a.infoHash, a.pieceIndex, b.blockOffset, UInt64.ofNat (max endA endB - startB)⟩
    else
      return none

/-- The loop that pops the last two blocks and pushes them merged, as long as it can. The vector is
    given by its last block and the ones before, from the back; so is the result. -/
def mergeBack : List BlockMetadata → BlockMetadata → Outcome ε (List BlockMetadata)
  | [], last => .ok [last]
  | second :: rest, last => do
    match ← mergePieceMessages second last with
    | some merged => mergeBack rest merged
    | none => .ok (last :: second :: rest)

/-- `sort_by` on the offsets is stable, and so is this. -/
def sortBlocks (messages : List BlockMetadata) : List BlockMetadata :=
  messages.insertionSort fun a b => a.blockOffset ≤ b.blockOffset

def mergeMessages (messages : List BlockMetadata) : Outcome ε (List BlockMetadata) :=
  match (sortBlocks messages).reverse with
  | [] => .ok []
  | last :: rest => do
    let merged ← mergeBack rest last
    return merged.reverse

def mergePieces : Pending → Outcome ε Pending
  | [] => .ok []
  | (key, messages) :: rest => do
    let merged ← mergeMessages messages
    return (key, merged) :: (← mergePieces rest)

end Merge

def isWhole (totalBlocks lastBlockSize pieceLength : Nat) (message : BlockMetadata)
    (rest : List BlockMetadata) : Bool :=
  let isSingleMessage := rest.isEmpty
  let isPieceLength := message.blockLength.toNat == pieceLength
  let isLastBlock := message.pieceIndex.toNat == totalBlocks - 1
  let isLastBlockLength := message.blockLength.toNat == lastBlockSize
  isSingleMessage && (isPieceLength || (isLastBlock && isLastBlockLength))

/-- `total_blocks - 1` is computed for every vector that is not empty. -/
def pieceIsComplete (totalBlocks lastBlockSize pieceLength : Nat) :
    List BlockMetadata → Outcome ε Bool
  | [] => .ok false
  | message :: rest =>
    if totalBlocks = 0 then .panic
    else .ok (isWhole totalBlocks lastBlockSize pieceLength message rest)

section Check
variable {σ φ : Type}

/-- A torrent with its files and the messages sent so far; `listens` tells for each send whether
    the receiver is still there. -/
structure Torrent (σ : Type) where
  checker : PieceStateChecker
  disk : σ
  sent : List ODiskMessage
  listens : Nat → Bool

variable (sha : Bytes → ShaHash) (fs : FileSystem σ φ ε) (info : Info)

def send (message : ODiskMessage) : Action (Torrent σ) ε Unit := fun t =>
  if t.listens t.sent.length then (.ok (), { t with sent := t.sent ++ [message] }) else (.panic, t)

def onDisk {α : Type} (m : Action σ ε α) : Action (Torrent σ) ε α :=
  Action.zoom Torrent.disk (fun t disk => { t with disk := disk }) m

def update (f : PieceStateChecker → PieceStateChecker) : Action (Torrent σ) ε Unit :=
  Action.modify fun t => { t with checker := f t.checker }

/-- The piece as it is on disk, in the buffer that all reads of one check share. -/
def loadPiece (message : BlockMetadata) (buffer : Bytes) : Action (Torrent σ) ε Bytes := do
  let part ← Action.lift (slice buffer 0 message.blockLength.toNat)
  let data ← onDisk (readPiece fs info part.bytes message)
  return data ++ buffer.drop message.blockLength.toNat

def expectedHash (index : UInt64) : Outcome ε ShaHash :=
  match info.pieces[index.toNat]? with
  | some hash => .ok hash
  | none => .panic

def recordGood (index : UInt64) : Action (Torrent σ) ε Unit := do
  update fun c => { c with newStates := c.newStates ++ [.good index] }
  update fun c => { c with completeNum := c.completeNum + 1 }
  send (.foundGoodPiece info.infoHash index)

def recordBad (index : UInt64) : Action (Torrent σ) ε Unit := do
  update fun c => { c with newStates := c.newStates ++ [.bad index] }
  send (.foundBadPiece info.infoHash index)

def clearBlocks (key : UInt64) (pending : Pending) : Pending :=
  pending.map fun entry => if entry.1 = key then (entry.1, []) else entry

def reportPace : Action (Torrent σ) ε Unit := do
  update fun c => { c with checkNum := c.checkNum + 1 }
  let t ← Action.get
  send (.checkPace info.infoHash t.checker.checkNum t.checker.totalPieces)

/-- The body of the loop, for a piece that passed the filters. -/
def checkPiece (key : UInt64) (message : BlockMetadata) (buffer : Bytes) :
    Action (Torrent σ) ε Bytes := do
  let buffer ← loadPiece fs info message buffer
  let expected ← Action.lift (expectedHash info message.pieceIndex)
  if sha (buffer.take message.blockLength.toNat) = expected then
    recordGood info message.pieceIndex
  else
    recordBad info message.pieceIndex
  reportPace info
  update fun c => { c with pendingBlocks := clearBlocks key c.pendingBlocks }
  return buffer

def checkEntries : Pending → Bytes → Action (Torrent σ) ε Unit
  | [], _ => pure ()
  | (key, messages) :: rest, buffer => do
    let t ← Action.get
    let complete ← Action.lift (pieceIsComplete t.checker.totalPieces t.checker.lastBlockSize
      info.pieceLen.toNat messages)
    match complete, messages with
    | true, message :: _ =>
      if .good message.pieceIndex ∈ t.checker.oldStates then
        checkEntries rest buffer
      else do
        let buffer ← checkPiece sha fs info key message buffer
        checkEntries rest buffer
    | _, _ => checkEntries rest buffer

def zeroes (size : Nat) : Outcome ε Bytes :=
  if size ≤ isizeMax then .ok (List.replicate size 0) else .panic

def finish : Action (Torrent σ) ε Unit :=
  update fun c => if c.completeNum = c.totalPieces then { c with isComplete := true } else c

def runWithWholePieces : Action (Torrent σ) ε Unit := do
  let t ← Action.get
  let merged ← Action.lift (mergePieces t.checker.pendingBlocks)
  update fun c => { c with pendingBlocks := merged }
  let buffer ← Action.lift (zeroes info.pieceLen.toNat)
  checkEntries sha fs info merged buffer
  finish

end Check

section Create
variable {σ φ : Type} (fs : FileSystem σ φ ε) (info : Info)

inductive TorrentError (ε : Type) where
  | io (error : ε)
  | existingFileSizeCheck (filePath : Path) (expectedSize actualSize : Nat)

/-- `?` on an error of the file system. -/
def converted {α : Type} (m : Action σ ε α) : Action σ (TorrentError ε) α := fun s =>
  match m s with
  | (.ok a, s') => (.ok a, s')
  | (.err e, s') => (.err (.io e), s')
  | (.panic, s') => (.panic, s')
  | (.unfinished, s') => (.unfinished, s')

/-- `expect` on a result of the file system. -/
def expected {α : Type} (m : Action σ ε α) : Action σ (TorrentError ε) α := fun s =>
  match m s with
  | (.ok a, s') => (.ok a, s')
  | (.err _, s') => (.panic, s')
  | (.panic, s') => (.panic, s')
  | (.unfinished, s') => (.unfinished, s')

/-- A file of the wrong size is refused, an empty one gets its last byte. -/
def validateFileSize (file : File) : Action σ (TorrentError ε) Unit := do
  let filePath := buildPath info.fileDirectory file
  let handle ← converted (fs.openFile filePath)
  let actualSize ← converted (fs.fileSize handle)
  if actualSize ≠ file.len.toNat ∧ actualSize = 0 then do
    let _ ← expected (fs.writeFile handle (file.len.toNat - 1) [0])
    return ()
  else if actualSize ≠ file.len.toNat then
    Action.fail (.existingFileSizeCheck filePath file.len.toNat actualSize)
  else
    return ()

def initStateChecker : Action σ (TorrentError ε) PieceStateChecker := do
  let lastSize ← Action.lift (lastPieceSize info)
  Action.forEach (validateFileSize fs info) info.files
  return PieceStateChecker.new info.pieces.length lastSize

end Create

end DiskChecker
