import Bittorrent.Lib.Search
import Bittorrent.Dht.Worker

/-!
The lookup: rounds of requests to ever closer nodes, and when no request is pending the endgame,
in which every node seen and not yet asked is asked once. Last, the announcement.
-/
namespace DhtLookup
open Rust Action UtilSha UtilTimer DhtNode DhtTable DhtCompact DhtMessage DhtTransaction DhtWorker

def lookupTimeout : Nat := fromMillis 1500
def endgameTimeout : Nat := fromMillis 1500
def initialPickNum : Nat := 4
def iterativePickNum : Nat := 3
def announcePickNum : Nat := 8

inductive LookupStatus where
  | searching | completed | failed | announceFailed
  deriving DecidableEq

/-- An entry of the list of all nodes: its distance and whether it was ever asked. -/
structure Candidate where
  distance : ShaHash
  node : NodeHandle
  pinged : Bool

/-- The place of a node that was picked, and whether it is in use. -/
abbrev Slot := NodeHandle × Bool

structure TableLookup where
  tableId : NodeId
  targetId : InfoHash
  inEndgame : Bool
  recvValues : Bool
  idGenerator : MIDGenerator
  willAnnounce : Bool
  activeLookups : List (TransactionID × (ShaHash × Timeout))
  announceTokens : List (NodeHandle × Bytes)
  requestedNodes : List NodeHandle
  allSortedNodes : List Candidate
  tx : Option Channel

section Picking
variable {ε : Type}

def insertSortedNode (nodes : List Candidate) (target : InfoHash) (node : NodeHandle)
    (pinged : Bool) : Outcome ε (List Candidate) :=
  let nodeDist := bitXor target node.id
  match binarySearchBy (fun c => compare c.distance nodeDist) nodes with
  | .ok dupIndex =>
    match nodes[dupIndex]? with
    | none => .panic
    | some other =>
      if other.node ≠ node then insertAt nodes dupIndex ⟨nodeDist, node, pinged⟩ else .ok nodes
  | .err insIndex => insertAt nodes insIndex ⟨nodeDist, node, pinged⟩

def insertSortedNodes (target : InfoHash) (pinged : NodeHandle → Bool) :
    List NodeHandle → List Candidate → Outcome ε (List Candidate)
  | [], nodes => .ok nodes
  | node :: rest, nodes => do
    let nodes ← insertSortedNode nodes target node (pinged node)
    insertSortedNodes target pinged rest nodes

def unusedSlot : Slot := (⟨⟨Vector.replicate shaHashLen 0⟩, .v4 0 0 0 0 0⟩, false)

/-- The first nodes of the list, which are marked as asked. -/
def pickInitialNodes (sortedNodes : List Candidate) : List Slot × List Candidate :=
  let picked := (sortedNodes.take initialPickNum).map fun c => (c.node, true)
  (picked ++ List.replicate (initialPickNum - picked.length) unusedSlot,
    ((sortedNodes.take initialPickNum).map fun c => { c with pinged := true }) ++
      sortedNodes.drop initialPickNum)

def insertClosestNodes (targetId : InfoHash) (newNode : NodeHandle) : List Slot → List Slot
  | [] => []
  | (oldNode, used) :: rest =>
    if used = false then
      (newNode, true) :: rest
    else if compare (bitXor targetId newNode.id) (bitXor targetId oldNode.id) = .lt then
      (newNode, used) :: rest
    else
      (oldNode, used) :: insertClosestNodes targetId newNode rest

def pickIterateNodes (unsortedNodes : List NodeHandle) (targetId : InfoHash) : List Slot :=
  unsortedNodes.foldl (fun slots node => insertClosestNodes targetId node slots)
    (List.replicate iterativePickNum unusedSlot)

def usedNodes (slots : List Slot) : List NodeHandle := (slots.filter (·.2)).map (·.1)

/-- The smallest distance of the nodes that beats the given one, or that one. -/
def distanceBeaten (targetId : InfoHash) (distToBeat : ShaHash) (nodes : List NodeHandle) :
    ShaHash :=
  nodes.foldl (fun closest node =>
    if compare (bitXor targetId node.id) closest = .lt then bitXor targetId node.id else closest)
    distToBeat

end Picking

section Model
variable {ε : Type}

/-- The parts of the contact information: all peers, read at once, and the nodes. -/
def contactParts : CompactInfoType → Outcome ε (Option (List SocketAddr) × Option CompactNodeInfo)
  | .nodes nodes => .ok (none, some nodes)
  | .values values => do
    let peers ← values.toList
    pure (some peers, none)
  | .both nodes values => do
    let peers ← values.toList
    pure (some peers, some nodes)

def sendPeers (channel : Channel) : List SocketAddr → Action Shared ε Unit
  | [] => pure ()
  | addr :: rest => do
    let _ ← inWorld (World.send channel (.peer addr))
    sendPeers channel rest

namespace TableLookup

def infoHash (l : TableLookup) : InfoHash := l.targetId

def currentLookupStatus (l : TableLookup) : LookupStatus :=
  if l.inEndgame ∨ l.activeLookups.isEmpty = false then .searching else .completed

/-- The loop of `start_request_round`, with the number of messages sent. -/
def requestRound : List (NodeHandle × ShaHash) → Nat → TableLookup →
    Action Shared ε (LookupStatus × TableLookup)
  | [], messagesSent, l =>
    if messagesSent = 0 then pure (.completed, { l with activeLookups := [] })
    else pure (.searching, l)
  | (node, distToBeat) :: rest, messagesSent, l => do
    let (transId, idGenerator) ← generate l.idGenerator
    let timeout ← scheduleIn lookupTimeout (.checkLookupTimeout transId)
    let l := { l with
      idGenerator := idGenerator
      activeLookups := AssocMap.insert transId (distToBeat, timeout) l.activeLookups }
    if ← sendOut (GetPeersRequest.encode ⟨transId.asRef, l.tableId, l.targetId⟩) node.addr then do
      localRequest node
      requestRound rest (messagesSent + 1) { l with
        requestedNodes := l.requestedNodes.insert node }
    else
      pure (.failed, l)

def startRequestRound (l : TableLookup) (nodes : List (NodeHandle × ShaHash)) :
    Action Shared ε (LookupStatus × TableLookup) :=
  requestRound nodes 0 l

/-- The loop of `start_endgame_round`: whether all messages went out, and the nodes with the ones
    that were asked now marked. -/
def endgameRound (timeout : Timeout) : List Candidate → TableLookup →
    Action Shared ε (Bool × List Candidate × TableLookup)
  | [], l => pure (true, [], l)
  | c :: rest, l =>
    if c.pinged then do
      let (sent, rest, l) ← endgameRound timeout rest l
      pure (sent, c :: rest, l)
    else do
      let (transId, idGenerator) ← generate l.idGenerator
      let l := { l with
        idGenerator := idGenerator
        activeLookups := AssocMap.insert transId (c.distance, timeout) l.activeLookups }
      let getPeersMsg := GetPeersRequest.encode ⟨transId.asRef, l.tableId, l.targetId⟩
      if ← sendOut getPeersMsg c.node.addr then do
        localRequest c.node
        let (sent, rest, l) ← endgameRound timeout rest l
        pure (sent, { c with pinged := true } :: rest, l)
      else
        pure (false, c :: rest, l)

def startEndgameRound (l : TableLookup) : Action Shared ε (LookupStatus × TableLookup) := do
  let (transId, idGenerator) ← generate l.idGenerator
  let timeout ← scheduleIn endgameTimeout (.checkLookupEndGame transId)
  let l := { l with inEndgame := true, idGenerator := idGenerator }
  if l.recvValues = false then do
    let (sent, nodes, l) ← endgameRound timeout l.allSortedNodes l
    let l := { l with allSortedNodes := nodes }
    if sent then pure (.searching, l) else pure (.failed, l)
  else
    pure (.completed, l)

/-- `None` if the lookup failed or found nobody to ask. -/
def new (tableId : NodeId) (targetId : InfoHash) (idGenerator : MIDGenerator)
    (willAnnounce : Bool) (tx : Option Channel) : Action Shared ε (Option TableLookup) := do
  let nodes ← closestWhere (hasStatus .good) targetId maxBucketSize
  let sorted ← Action.lift (insertSortedNodes targetId (fun _ => false) nodes [])
  let (picked, sorted) := pickInitialNodes sorted
  let l : TableLookup := {
    tableId := tableId
    targetId := targetId
    inEndgame := false
    recvValues := false
    idGenerator := idGenerator
    willAnnounce := willAnnounce
    activeLookups := []
    announceTokens := []
    requestedNodes := []
    allSortedNodes := sorted
    tx := tx }
  let (status, l) ← l.startRequestRound
    ((usedNodes picked).map fun node => (node, bitXor node.id targetId))
  if status = .searching then pure (some l) else pure none

/-- The nodes of a response that were not asked yet go into the list. If one of them beats the
    distance, the closest are picked for the next round. -/
def takeNodes (l : TableLookup) (distToBeat : ShaHash) :
    Option CompactNodeInfo → Outcome ε (TableLookup × Option (List Slot) × ShaHash)
  | none => .ok (l, none, distToBeat)
  | some info => do
    let items ← info.toList
    let nodes := (items.map fun item => (⟨item.1, item.2⟩ : NodeHandle)).filter fun node =>
      node ∉ l.requestedNodes
    if nodes.length ≠ 0 then
      let nodeDist := distanceBeaten l.targetId distToBeat nodes
      if compare nodeDist distToBeat ≠ .lt then do
        let sorted ← insertSortedNodes l.targetId (fun _ => false) nodes l.allSortedNodes
        pure ({ l with allSortedNodes := sorted }, none, distToBeat)
      else do
        let iterateNodes := pickIterateNodes nodes l.targetId
        let willPing := fun node => iterateNodes.any (·.1 = node)
        let sorted ← insertSortedNodes l.targetId willPing nodes l.allSortedNodes
        pure ({ l with allSortedNodes := sorted }, some iterateNodes, nodeDist)
    else
      pure (l, none, distToBeat)

def iterateRound (l : TableLookup) (iterateNodes : Option (List Slot)) (nextDist : ShaHash) :
    Action Shared ε (LookupStatus × TableLookup) :=
  match iterateNodes with
  | some slots => l.startRequestRound ((usedNodes slots).map fun node => (node, nextDist))
  | none => pure (.searching, l)

/-- With no request pending the endgame starts. -/
def checkEndgame (l : TableLookup) : Action Shared ε (LookupStatus × TableLookup) :=
  if l.activeLookups.isEmpty then l.startEndgameRound else pure (.searching, l)

/-- The rounds that follow a response outside of the endgame. -/
def nextRounds (l : TableLookup) (iterateNodes : Option (List Slot)) (nextDist : ShaHash) :
    Action Shared ε (LookupStatus × TableLookup) :=
  if l.inEndgame = false then do
    let (status, l) ← l.iterateRound iterateNodes nextDist
    if status = .failed then pure (.failed, l) else l.checkEndgame
  else
    pure (.searching, l)

def storeToken (l : TableLookup) (node : NodeHandle) : Option Bytes → TableLookup
  | some token => { l with announceTokens := AssocMap.insert node token l.announceTokens }
  | none => l

/-- A response with values only sets `recv_values`; one with both does not. -/
def noteValues (l : TableLookup) : CompactInfoType → TableLookup
  | .values _ => { l with recvValues := true }
  | _ => l

def passValues (l : TableLookup) : Option (List SocketAddr) → Action Shared ε Unit
  | some values =>
    match l.tx with
    | some channel => sendPeers channel values
    | none => pure ()
  | none => pure ()

/-- `recv_response` once its request was found. -/
def takeResponse (l : TableLookup) (node : NodeHandle) (distToBeat : ShaHash)
    (msg : GetPeersResponse) : Action Shared ε (LookupStatus × TableLookup) := do
  let l := l.storeToken node msg.token
  let (values, nodes) ← Action.lift (contactParts msg.infoType)
  let l := l.noteValues msg.infoType
  let (l, iterateNodes, nextDist) ← Action.lift (l.takeNodes distToBeat nodes)
  let (status, l) ← l.nextRounds iterateNodes nextDist
  if status = .failed then
    pure (.failed, l)
  else do
    l.passValues values
    pure (l.currentLookupStatus, l)

def recvResponse (l : TableLookup) (node : NodeHandle) (transId : TransactionID)
    (msg : GetPeersResponse) : Action Shared ε (LookupStatus × TableLookup) :=
  match AssocMap.get transId l.activeLookups with
  | none => pure (l.currentLookupStatus, l)
  | some (distToBeat, timeout) =>
    let l := { l with activeLookups := AssocMap.remove transId l.activeLookups }
    if l.inEndgame = false then do
      cancel timeout
      l.takeResponse node distToBeat msg
    else
      l.takeResponse node distToBeat msg

def recvTimeout (l : TableLookup) (transId : TransactionID) :
    Action Shared ε (LookupStatus × TableLookup) :=
  match AssocMap.get transId l.activeLookups with
  | none => pure (l.currentLookupStatus, l)
  | some _ =>
    let l := { l with activeLookups := AssocMap.remove transId l.activeLookups }
    if l.inEndgame = false then do
      let (status, l) ← l.checkEndgame
      if status = .failed then pure (.failed, l) else pure (l.currentLookupStatus, l)
    else
      pure (l.currentLookupStatus, l)

/-- The loop of `recv_finished`, which a refused message ends. -/
def announceTo (port : UInt16) :
    List Candidate → TableLookup → Action Shared ε (LookupStatus × TableLookup)
  | [], l => pure (.completed, l)
  | c :: rest, l => do
    let (transId, idGenerator) ← generate l.idGenerator
    let l := { l with idGenerator := idGenerator }
    match AssocMap.get c.node l.announceTokens with
    | none => Action.abort
    | some token =>
      let announcePeerMsg := AnnouncePeerRequest.encode
        ⟨transId.asRef, l.tableId, l.targetId, token, .explicit port⟩
      if ← sendOut announcePeerMsg c.node.addr then do
        localRequest c.node
        announceTo port rest l
      else
        pure (.announceFailed, l)

def recvFinished (l : TableLookup) (announcePort : Option UInt16) :
    Action Shared ε (LookupStatus × TableLookup) :=
  match l.willAnnounce, announcePort with
  | true, some port =>
    announceTo port ((l.allSortedNodes.filter fun c =>
      (AssocMap.get c.node l.announceTokens).isSome).take announcePickNum) l
  | _, _ => pure (.completed, l)

end TableLookup

end Model

section Sound
variable {ε : Type} {E : Prop} {o : Outside}

def bringsNodes : CompactInfoType → Bool
  | .values _ => false
  | _ => true

namespace TableLookup

variable (l : TableLookup)

variable (node : NodeHandle)

end TableLookup

end Sound

end DhtLookup
