import Bittorrent.Disk.Checker
import Bittorrent.Lib.HashTable

/-!
The tasks of the disk manager. Each torrent is kept behind a lock of its own, which is poisoned by a panic in
a section that may change it; every later task for the torrent then panics too. A task reports through a
channel whose receiver may be gone at any time.
-/
namespace DiskTasks
open Rust UtilSha MetainfoInfo ListPatch HashTables DiskAccessor DiskChecker

/-- `Block` and `BlockMut`. Nothing ties the length in the metadata to that of the data. -/
structure Block where
  metadata : BlockMetadata
  blockData : Bytes
  deriving DecidableEq

inductive BlockError where
  | infoHashNotFound (hash : ShaHash)
  deriving DecidableEq

inductive TorrentErrorKind where
  | existingInfoHash (hash : ShaHash)
  | infoHashNotFound (hash : ShaHash)
  deriving DecidableEq

inductive Output where
  | checker (message : ODiskMessage)
  | torrentAdded (hash : ShaHash)
  | torrentRemoved (hash : ShaHash)
  | torrentError (hash : ShaHash) (error : TorrentErrorKind)
  | blockLoaded (block : Block)
  | loadBlockError (block : Block) (error : BlockError)
  | blockProcessed (block : Block)
  | processBlockError (block : Block) (error : BlockError)
  | downloadPace (hash : ShaHash) (complete total : Nat)
  | checkTorrented (hash : ShaHash)
  | checkTorrentError (hash : ShaHash)
  deriving DecidableEq

structure MetainfoState where
  file : Info
  state : PieceStateChecker
  poisoned : Bool

/-- `commands` are the `RemoveDownload` tasks sent to the handler, `obeys` tells for each whether the handler
    is still there. -/
structure DiskManager (σ : Type) where
  torrents : HashTable ShaHash MetainfoState
  disk : σ
  sent : List Output
  listens : Nat → Bool
  commands : List ShaHash
  obeys : Nat → Bool

abbrev Task (σ α : Type) := Action (DiskManager σ) Empty α

section Context
variable {σ φ ε α : Type}

def sendOut (message : Output) : Task σ Unit := fun m =>
  if m.listens m.sent.length then (.ok (), { m with sent := m.sent ++ [message] }) else (.panic, m)

/-- `out_message.send(..)` whose result is dropped. -/
def tellOut (message : Output) : Task σ Unit := fun m =>
  if m.listens m.sent.length then (.ok (), { m with sent := m.sent ++ [message] }) else (.ok (), m)

def sendCommand (hash : ShaHash) : Task σ Unit := fun m =>
  if m.obeys m.commands.length then (.ok (), { m with commands := m.commands ++ [hash] }) else (.panic, m)

/-- What the code makes of a result of the file system is up to it. -/
def onFiles (m : Action σ ε α) : Task σ (Except ε α) := fun man =>
  match m man.disk with
  | (.ok a, disk) => (.ok (.ok a), { man with disk := disk })
  | (.err e, disk) => (.ok (.error e), { man with disk := disk })
  | (.panic, disk) => (.panic, { man with disk := disk })
  | (.unfinished, disk) => (.unfinished, { man with disk := disk })

/-- The value of the closure, if the torrent is there. -/
def useTorrentContext (hash : ShaHash) (call : Info → PieceStateChecker → Task σ α) :
    Task σ (Option α) := do
  let man ← Action.get
  match man.torrents.get hash with
  | none => return none
  | some torrent =>
    if torrent.poisoned then Action.abort
    else
      let a ← call torrent.file torrent.state
      return some a

def DiskManager.view (man : DiskManager σ) (torrent : MetainfoState) : Torrent σ :=
  ⟨torrent.state, man.disk, [], fun k => man.listens (man.sent.length + k)⟩

def DiskManager.put (man : DiskManager σ) (hash : ShaHash) (file : Info) (poisoned : Bool) (t : Torrent σ) :
    DiskManager σ :=
  { man with
    torrents := man.torrents.insert hash ⟨file, t.checker, poisoned⟩
    disk := t.disk
    sent := man.sent ++ t.sent.map .checker }

def updateTorrentContext (hash : ShaHash) (call : Info → Action (Torrent σ) ε α) :
    Task σ (Option (Except ε α)) := fun man =>
  match man.torrents.get hash with
  | none => (.ok none, man)
  | some torrent =>
    if torrent.poisoned then (.panic, man)
    else
      match call torrent.file (man.view torrent) with
      | (.ok a, t) => (.ok (some (.ok a)), man.put hash torrent.file false t)
      | (.err e, t) => (.ok (some (.error e)), man.put hash torrent.file false t)
      | (.panic, t) => (.panic, man.put hash torrent.file true t)
      | (.unfinished, t) => (.unfinished, man.put hash torrent.file false t)

variable {β : Type} {man man' : DiskManager σ} {torrent : MetainfoState} {hash : ShaHash}
  {call : Info → PieceStateChecker → Task σ α} {rest : Option α → Task σ β}

theorem use_unknown (missing : man.torrents.get hash = none) :
    useTorrentContext hash call man = (.ok none, man) := by
  rw [useTorrentContext, Action.get_bind, missing]
  rfl

theorem use_known (found : man.torrents.get hash = some torrent) : useTorrentContext hash call man =
    if torrent.poisoned then (.panic, man)
    else (call torrent.file torrent.state >>= fun a => pure (some a)) man := by
  rw [useTorrentContext, Action.get_bind, found]
  dsimp only
  split <;> rfl

theorem use_poisoned (found : man.torrents.get hash = some torrent) (poisoned : torrent.poisoned = true) :
    (useTorrentContext hash call >>= rest) man = (.panic, man) := by
  rw [Action.bind_eq, use_known found, if_pos poisoned]

theorem use_then {outcome : Outcome Empty α} (found : man.torrents.get hash = some torrent)
    (clean : torrent.poisoned = false) : call torrent.file torrent.state man = (outcome, man') →
    (useTorrentContext hash call >>= rest) man = match outcome with
      | .ok a => rest (some a) man'
      | .err e => (.err e, man')
      | .panic => (.panic, man')
      | .unfinished => (.unfinished, man') := by
  intro ran
  have used : useTorrentContext hash call man = _ := (use_known found).trans (if_neg (by simp [clean]))
  cases outcome <;> exact Action.bind_ended (used.trans (Action.bind_ended ran))

theorem on_files_ended {m : Action σ ε α} {outcome : Outcome ε α} {disk : σ} :
    m man.disk = (outcome, disk) → onFiles m man = match outcome with
      | .ok a => (.ok (.ok a), { man with disk := disk })
      | .err e => (.ok (.error e), { man with disk := disk })
      | .panic => (.panic, { man with disk := disk })
      | .unfinished => (.unfinished, { man with disk := disk }) := by
  intro ran
  unfold onFiles
  rw [ran]
  cases outcome <;> rfl

end Context

section Loading
variable {σ φ ε τ : Type} (fs : FileSystem σ φ ε) (info : Info)

/-- The file system beside something that it does not touch. -/
def beside : FileSystem (σ × τ) φ ε where
  openFile path := Action.zoom Prod.fst (fun s disk => (disk, s.2)) (fs.openFile path)
  fileSize file := Action.zoom Prod.fst (fun s disk => (disk, s.2)) (fs.fileSize file)
  readFile file offset count := Action.zoom Prod.fst (fun s disk => (disk, s.2)) (fs.readFile file offset count)
  writeFile file offset data := Action.zoom Prod.fst (fun s disk => (disk, s.2)) (fs.writeFile file offset data)

/-- `readRegion` with the buffer in the state, where it stays as it is when a read fails. -/
def readRegionInto (file : φ) (offset start stop : Nat) (_ : Unit) : Action (σ × Bytes) ε Unit := do
  let s ← Action.get
  let _ ← Action.lift (slice s.2 start stop)
  let data ← (beside fs).readFile file offset (stop - start)
  Action.lift (assertCount data.length (stop - start))
  Action.modify fun s => (s.1, patch s.2 start data)

def readPieceInto (message : BlockMetadata) : Action (σ × Bytes) ε Unit :=
  runWithFileRegions (beside fs) info message (readRegionInto fs) ()

end Loading

section Execute
variable {σ φ ε : Type} (sha : Bytes → ShaHash) (fs : FileSystem σ φ ε)

def executeAddTorrent (file : Info) : Task σ Unit := do
  match ← onFiles (initStateChecker fs file) with
  | .error _ => Action.abort
  | .ok checker =>
    let man ← Action.get
    match man.torrents.get file.infoHash with
    | none =>
      Action.modify fun man => { man with
        torrents := man.torrents.insert file.infoHash ⟨file, checker, false⟩ }
      sendOut (.torrentAdded file.infoHash)
    | some _ => sendOut (.torrentError file.infoHash (.existingInfoHash file.infoHash))

def executeRemoveTorrent (hash : ShaHash) : Task σ Unit := do
  let man ← Action.get
  match man.torrents.get hash with
  | some _ =>
    Action.modify fun man => { man with torrents := man.torrents.remove hash }
    sendOut (.torrentRemoved hash)
  | none => sendOut (.torrentError hash (.infoHashNotFound hash))

/-- The data of the block after the reading, whose result nobody looks at. -/
def readBlock (info : Info) (block : Block) : Task σ Bytes := fun man =>
  match readPieceInto fs info block.metadata (man.disk, block.blockData) with
  | (.panic, disk, _) => (.panic, { man with disk := disk })
  | (.unfinished, disk, _) => (.unfinished, { man with disk := disk })
  | (_, disk, data) => (.ok data, { man with disk := disk })

def executeLoadBlock (block : Block) : Task σ Unit := do
  let infoHash := block.metadata.infoHash
  let loaded ← useTorrentContext infoHash fun info _ => readBlock fs info block
  match loaded with
  | some data => sendOut (.blockLoaded ⟨block.metadata, data⟩)
  | none => sendOut (.loadBlockError block (.infoHashNotFound infoHash))

def executeProcessBlock (block : Block) : Task σ Unit := do
  let infoHash := block.metadata.infoHash
  let written ← useTorrentContext infoHash fun info _ =>
    onFiles (writePiece fs info block.blockData block.metadata)
  match written with
  | some (.ok ()) =>
    let _ ← updateTorrentContext infoHash fun _ =>
      (update fun c => addPendingBlock c block.metadata : Action (Torrent σ) Empty Unit)
    sendOut (.blockProcessed block)
  | _ => sendOut (.processBlockError block (.infoHashNotFound infoHash))

/-- What both checks do once they are through with the pieces. -/
def reportDownload (hash : ShaHash) : Task σ Unit := do
  let _ ← useTorrentContext hash fun _ state => do
    if state.isComplete then sendCommand hash
    tellOut (.downloadPace hash state.completeNum state.totalPieces)

def fillAndCheck (info : Info) : Action (Torrent σ) ε Unit := do
  let t ← Action.get
  let filled ← Action.lift (fillCheckerState t.checker info)
  update fun _ => filled
  runWithWholePieces sha fs info

def executeCheckTorrent (hash : ShaHash) : Task σ Unit := do
  let result ← updateTorrentContext hash (fillAndCheck sha fs)
  reportDownload hash
  match result with
  | some (.ok ()) => sendOut (.checkTorrented hash)
  | _ => sendOut (.checkTorrentError hash)

def executePieceCheck (hash : ShaHash) : Task σ Unit := do
  let _ ← updateTorrentContext hash (runWithWholePieces sha fs)
  reportDownload hash

inductive DiskTask where
  | addTorrent (file : Info)
  | removeTorrent (hash : ShaHash)
  | loadBlock (block : Block)
  | processBlock (block : Block)
  | checkTorrent (hash : ShaHash)
  | pieceCheck (hash : ShaHash)

def execute : DiskTask → Task σ Unit
  | .addTorrent file => executeAddTorrent fs file
  | .removeTorrent hash => executeRemoveTorrent hash
  | .loadBlock block => executeLoadBlock fs block
  | .processBlock block => executeProcessBlock fs block
  | .checkTorrent hash => executeCheckTorrent sha fs hash
  | .pieceCheck hash => executePieceCheck sha fs hash

end Execute

end DiskTasks
