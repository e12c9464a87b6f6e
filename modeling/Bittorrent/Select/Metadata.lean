import Bittorrent.Lib.Action
import Bittorrent.Lib.HashTable
import Bittorrent.Lib.Patch
import Bittorrent.Metainfo.Builder
import Bittorrent.Peer.Message

/-!
The module that fetches info dictionaries from peers, piece by piece, and serves the ones it has. The
extension bits of a peer are left out, as they take no part in its equality and are not looked at here.
SHA-1 and the random numbers are parameters. Log lines, and the results of the two sweeps after a
message, which only a comment uses, are left out.
-/
namespace SelectMetadata
open Rust ListPatch HashTables UtilSha MetainfoInfo MetainfoBuilder PeerExtended PeerMessage

section Types

abbrev InfoHash := ShaHash

abbrev Duration := Nat

def requestTimeoutMillis : Nat := 5000
def maxRequestSize : Nat := 16 * 1024
def maxActiveRequests : Nat := 100
def maxPeerRequests : Nat := 100

structure PeerInfo where
  addr : SocketAddr
  pid : ShaHash
  hash : InfoHash
  deriving DecidableEq

structure ExtendedPeerInfo where
  ours : Option ExtendedMessage
  theirs : Option ExtendedMessage

inductive ControlMessage where
  | addTorrent (metainfo : Metainfo)
  | removeTorrent (metainfo : Metainfo)
  | peerConnected (info : PeerInfo)
  | peerDisconnected (info : PeerInfo)
  | tick (duration : Duration)
  deriving DecidableEq

inductive IDiscoveryMessage where
  | control (message : ControlMessage)
  | downloadMetainfo (hash : InfoHash)
  | receivedUtMetadataMessage (info : PeerInfo) (message : UtMetadataMessage)
  deriving DecidableEq

/-- The two messages that this module sends out. -/
inductive ODiscoveryMessage where
  | sendUtMetadataMessage (info : PeerInfo) (message : UtMetadataMessage)
  | downloadedMetainfo (metainfo : Metainfo)
  deriving DecidableEq

inductive DiscoveryErrorKind where
  | invalidMetainfoExists (hash : InfoHash)
  | invalidMetainfoNotExists (hash : InfoHash)
  deriving DecidableEq

/-- `Result<Option<IDiscoveryMessage>, DiscoveryError>` -/
abbrev Answer := Except DiscoveryErrorKind (Option IDiscoveryMessage)

structure PendingInfo where
  messages : List UtMetadataRequestMessage
  left : Nat
  bytes : Bytes
  deriving DecidableEq

structure ActiveRequest where
  left : Duration
  message : UtMetadataRequestMessage
  sentTo : PeerInfo
  deriving DecidableEq

structure PeerRequest where
  sendTo : PeerInfo
  request : UtMetadataRequestMessage
  deriving DecidableEq

/-- The set of peers stands in the order of its iteration. -/
structure ActivePeers where
  peers : List PeerInfo
  metadataSize : Int64
  deriving DecidableEq

structure UtMetadataModule where
  completedMap : HashTable InfoHash Bytes
  pendingMap : HashTable InfoHash (Option PendingInfo)
  activeRequests : List ActiveRequest
  activePeers : HashTable InfoHash ActivePeers
  peerRequests : List PeerRequest
  deriving DecidableEq

def UtMetadataModule.new : UtMetadataModule := ⟨.empty, .empty, [], .empty, []⟩

abbrev Work := Action UtMetadataModule Empty

end Types

section Torrents
variable (repair : Bytes → Str)

def addTorrent (metainfo : Metainfo) : Work Answer := do
  let infoHash := metainfo.info.infoHash
  match (← Action.get).completedMap.get infoHash with
  | some _ => return .error (.invalidMetainfoExists infoHash)
  | none =>
    let infoBytes ← Action.lift (Info.toBytes repair metainfo.info)
    Action.modify fun m => { m with completedMap := m.completedMap.insert infoHash infoBytes }
    return .ok none

def removeTorrent (metainfo : Metainfo) : Work Answer := do
  let infoHash := metainfo.info.infoHash
  match (← Action.get).completedMap.get infoHash with
  | some _ =>
    Action.modify fun m => { m with completedMap := m.completedMap.remove infoHash }
    return .ok none
  | none => return .error (.invalidMetainfoNotExists infoHash)

end Torrents

section Peers

def insertPeer (info : PeerInfo) (peers : List PeerInfo) : List PeerInfo :=
  if info ∈ peers then peers else info :: peers

def withoutPeer (info : PeerInfo) (active : ActivePeers) : ActivePeers :=
  { active with peers := active.peers.filter (· ≠ info) }

def addPeer (info : PeerInfo) (extInfo : ExtendedPeerInfo) : Work Answer := do
  let ourSupport := (extInfo.ours.bind (·.queryId .utMetadata)).isSome
  let theySupport := (extInfo.theirs.bind (·.queryId .utMetadata)).isSome
  let optMetadataSize := extInfo.theirs.bind (·.metadataSize)
  match ourSupport, theySupport, optMetadataSize with
  | true, true, some metadataSize =>
    Action.modify fun m =>
      let active := (m.activePeers.get info.hash).getD ⟨[], metadataSize⟩
      { m with activePeers :=
          m.activePeers.insert info.hash { active with peers := insertPeer info active.peers } }
    return .ok none
  | _, _, _ => return .ok none

def removePeer (info : PeerInfo) : Work Answer := do
  match (← Action.get).activePeers.get info.hash with
  | some active =>
    let active := withoutPeer info active
    if active.peers.isEmpty then
      Action.modify fun m => { m with activePeers := m.activePeers.remove info.hash }
    else
      Action.modify fun m => { m with activePeers := m.activePeers.insert info.hash active }
    return .ok none
  | none => return .ok none

end Peers

section Requests

def pushMessage (message : UtMetadataRequestMessage) (pending : PendingInfo) : PendingInfo :=
  { pending with messages := pending.messages ++ [message] }

/-- A request that was not answered goes back, and its peer is not asked again. -/
def expire (m : UtMetadataModule) (request : ActiveRequest) : UtMetadataModule :=
  { m with
    activePeers := m.activePeers.adjust request.sentTo.hash (withoutPeer request.sentTo)
    pendingMap := m.pendingMap.adjust request.sentTo.hash (Option.map (pushMessage request.message)) }

def applyTick (duration : Duration) : Work Answer := do
  Action.modify fun m =>
    let expired := m.activeRequests.filter fun request => request.left < duration
    let rest := m.activeRequests.filter fun request => ¬ request.left < duration
    { expired.foldl expire m with
      activeRequests := rest.map fun request => { request with left := request.left - duration } }
  return .ok none

def downloadMetainfo (hash : InfoHash) : Work Answer := do
  if (← Action.get).pendingMap.get hash = none then
    Action.modify fun m => { m with pendingMap := m.pendingMap.insert hash none }
  return .ok none

def recvRequest (info : PeerInfo) (request : UtMetadataRequestMessage) : Work Answer := do
  if (← Action.get).peerRequests.length = maxPeerRequests then
    return .ok (some (.receivedUtMetadataMessage info (.request request)))
  else
    Action.modify fun m => { m with peerRequests := m.peerRequests ++ [⟨info, request⟩] }
    return .ok none

/-- `&mut [u8]` takes as many of the bytes as it has space for. -/
def writeSlice (bytes : Bytes) (offset : Nat) (data : Bytes) : Bytes :=
  patch bytes offset (data.take (bytes.length - offset))

def isFor (info : PeerInfo) (piece : Int64) (request : ActiveRequest) : Bool :=
  request.sentTo = info ∧ request.message.piece = piece

def setPending (hash : InfoHash) (pending : PendingInfo) : Work Unit :=
  Action.modify fun m => { m with pendingMap := m.pendingMap.adjust hash fun _ => some pending }

def recvData (info : PeerInfo) (data : UtMetadataDataMessage) : Work Answer := do
  match (← Action.get).activeRequests.findIdx? (isFor info data.piece) with
  | none => return .ok none
  | some index =>
    Action.modify fun m => { m with activeRequests := swapRemove m.activeRequests index }
    match (← Action.get).pendingMap.get info.hash with
    | some (some pending) =>
      let dataOffset ← Action.lift (usizeMul data.piece.toUInt64.toNat maxRequestSize)
      if pending.left = 0 then Action.abort
      let counted := { pending with left := pending.left - 1 }
      setPending info.hash counted
      let _ ← Action.lift (sliceFrom counted.bytes dataOffset)
      setPending info.hash { counted with bytes := writeSlice counted.bytes dataOffset data.data }
      return .ok none
    | _ => return .ok none

def recvReject (_info : PeerInfo) (_reject : UtMetadataRejectMessage) : Work Answer := return .ok none

end Requests

section Retrieve
variable (sha : Bytes → ShaHash)

def isComplete (entry : InfoHash × Option PendingInfo) : Bool :=
  match entry.2 with
  | some pending => pending.left = 0
  | none => false

/-- The bound is on the recursion, which removes an entry each time. -/
def retrieveCompletedDownload : Nat → Work (Option ODiscoveryMessage)
  | 0 => Action.cutOff
  | bound + 1 => do
    match (← Action.get).pendingMap.entries.find? isComplete with
    | some (completedHash, some completed) =>
      Action.modify fun m => { m with
        pendingMap := m.pendingMap.remove completedHash
        activePeers := m.activePeers.remove completedHash }
      match Info.fromBytes sha completed.bytes with
      | .ok info => return some (.downloadedMetainfo (.fromInfo info))
      | .err _ => retrieveCompletedDownload bound
      | .panic => Action.abort
      | .unfinished => Action.cutOff
    | _ => return none

def isReady (m : UtMetadataModule) (entry : InfoHash × Option PendingInfo) : Bool :=
  let hasReadyRequests := match entry.2 with
    | some pending => !pending.messages.isEmpty
    | none => false
  let hasActivePeers := match m.activePeers.get entry.1 with
    | some active => !active.peers.isEmpty
    | none => false
  hasReadyRequests && hasActivePeers

def generateActiveRequest (message : UtMetadataRequestMessage) (peer : PeerInfo) : ActiveRequest :=
  ⟨requestTimeoutMillis * 1000000, message, peer⟩

def retrievePieceRequest (random : UInt32) : Work (Option ODiscoveryMessage) := do
  let m ← Action.get
  match m.pendingMap.entries.find? (isReady m) with
  | some (hash, some pending) =>
    let peers := ((m.activePeers.get hash).map (·.peers)).getD []
    match peers[random.toNat % peers.length]?, pending.messages.getLast? with
    | some selectedPeer, some selectedMessage =>
      setPending hash { pending with messages := pending.messages.dropLast }
      Action.modify fun m => { m with
        activeRequests := m.activeRequests ++ [generateActiveRequest selectedMessage selectedPeer] }
      return some (.sendUtMetadataMessage selectedPeer (.request selectedMessage))
    | _, _ => Action.abort
  | _ => return none

def respond : List PeerRequest → Work (Option ODiscoveryMessage)
  | [] => return none
  | request :: rest => do
    Action.modify fun m => { m with peerRequests := rest }
    let piece := request.request.piece
    let start ← Action.lift (usizeMul piece.toUInt64.toNat maxRequestSize)
    let stop ← Action.lift (usizeAdd start maxRequestSize)
    match (← Action.get).completedMap.get request.sendTo.hash with
    | some data =>
      if start ≤ data.length ∧ stop ≤ data.length then
        let infoSlice := range data start (stop - start)
        return some (.sendUtMetadataMessage request.sendTo
          (.data (.new piece (Int64.ofNat infoSlice.length) infoSlice)))
      else respond rest
    | none => respond rest

def retrievePieceResponse : Work (Option ODiscoveryMessage) := do
  respond (← Action.get).peerRequests

end Retrieve

section Sweeps
variable {ε : Type} (sha : Bytes → ShaHash)

def numPieces (size : Nat) : Nat :=
  if size % maxRequestSize ≠ 0 then size / maxRequestSize + 1 else size / maxRequestSize

/-- A negative size is a huge one, for which no vector can be allocated. -/
def pendingInfoFromMetadataSize (metadataSize : Int64) : Outcome ε PendingInfo :=
  let castMetadataSize := metadataSize.toUInt64.toNat
  if castMetadataSize ≤ isizeMax then
    .ok {
      messages := (List.range (numPieces castMetadataSize)).map fun index => .new (Int64.ofNat index)
      left := numPieces castMetadataSize
      bytes := List.replicate castMetadataSize 0 }
  else .panic

def initializeEntry (hash : InfoHash) : Work Unit := do
  let m ← Action.get
  match m.pendingMap.get hash, m.activePeers.get hash with
  | some none, some active =>
    let pending ← Action.lift (pendingInfoFromMetadataSize active.metadataSize)
    setPending hash pending
  | _, _ => return ()

def initializePending : Work Unit := do
  let m ← Action.get
  Action.forEach initializeEntry (m.pendingMap.entries.map Prod.fst)

/-- What is whole but does not have the hash it should have is given up. -/
def validateEntry (expectedHash : InfoHash) (optPending : Option PendingInfo) : Option PendingInfo :=
  optPending.filter fun pending => ¬ (pending.left = 0 ∧ sha pending.bytes ≠ expectedHash)

def validateDownloaded : Work Unit :=
  Action.modify fun m => { m with pendingMap := m.pendingMap.mapValues (validateEntry sha) }

def checkStreamUnblock : Work Unit := do
  initializePending
  validateDownloaded sha

end Sweeps

section Run
variable (sha : Bytes → ShaHash) (repair : Bytes → Str)

def dispatch : IDiscoveryMessage → Work Answer
  | .control (.addTorrent metainfo) => addTorrent repair metainfo
  | .control (.removeTorrent metainfo) => removeTorrent metainfo
  | .control (.peerConnected _) => return .ok none
  | .control (.peerDisconnected info) => removePeer info
  | .control (.tick duration) => applyTick duration
  | .downloadMetainfo hash => downloadMetainfo hash
  | .receivedUtMetadataMessage info (.request msg) => recvRequest info msg
  | .receivedUtMetadataMessage info (.data msg) => recvData info msg
  | .receivedUtMetadataMessage info (.reject msg) => recvReject info msg

def send (item : IDiscoveryMessage) : Work Answer := do
  let startSend ← dispatch repair item
  checkStreamUnblock sha
  return startSend

/-- `add_peer` has no errors to expect. -/
def onUpdate (info : PeerInfo) (extended : ExtendedPeerInfo) : Work Unit := do
  let _ ← addPeer info extended

def poll (random : UInt32) : Work (Option ODiscoveryMessage) := do
  let m ← Action.get
  match ← retrieveCompletedDownload sha (m.pendingMap.entries.length + 1) with
  | some message => return some message
  | none =>
    match ← retrievePieceRequest random with
    | some message => return some message
    | none => retrievePieceResponse

end Run

end SelectMetadata
