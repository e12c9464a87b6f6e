import Bittorrent.Bencode.Decode
import Bittorrent.Dht.Lookup
import Bittorrent.Dht.Refresh
import Bittorrent.Dht.Storage
import Bittorrent.Dht.Token

/-!
The DHT handler: commands, datagrams and timeouts, one at a time. Routers come with their
addresses resolved, and what only goes to the log is left out.
-/
namespace DhtHandler
open Rust UtilSha UtilTimer BencodeValue BencodeDecode DhtNode DhtTable DhtClosest DhtCompact DhtMessage
  DhtTransaction DhtStorage DhtToken DhtWorker DhtBootstrap DhtRefresh DhtLookup

def maxBootstrapAttempts : Nat := 3
def bootstrapGoodNodeThreshold : Nat := 10

inductive TableAction where
  | lookup (lookup : TableLookup)
  | refresh (refresh : TableRefresh)
  | bootstrap (bootstrap : TableBootstrap) (attempts : Nat)

inductive PostBootstrapAction where
  | lookup (infoHash : InfoHash) (shouldAnnounce : Bool) (tx : Option Channel)
  | refresh (refresh : TableRefresh) (transId : TransactionID)

/-- `DhtHandler` with its detached part. The socket is there for its address only. -/
structure Handler where
  status : DhtStatus
  statusTx : List Channel
  tableActions : List (ActionID × TableAction)
  readOnly : Bool
  localAddr : SocketAddr
  announcePort : Option UInt16
  tokenStore : TokenStore
  aidGenerator : AIDGenerator
  activeStores : AnnounceStorage
  futureActions : List PostBootstrapAction
  eventNotifiers : List Channel
  shared : Shared

inductive OneshotTask where
  | registerSender (tx : Channel)
  | getBootstrapStatus (tx : Channel)
  | getDhtValues (tx : Channel)
  | startBootstrap (routers nodes : List SocketAddr)
  | startLookup (infoHash : InfoHash) (shouldAnnounce : Bool) (tx : Option Channel)
  | selfLookup
  | shutdown (cause : ShutdownCause)

section Basics
variable {ε α : Type}

def onShared (m : Action Shared ε α) : Action Handler ε α :=
  Action.zoom Handler.shared (fun h shared => { h with shared := shared }) m

def outside (m : Action (World Item) ε α) : Action Handler ε α := onShared (inWorld m)

/-- An operation of one of the parts of a handler, which leaves the part changed. -/
def onPart {β : Type} (run : Handler → Action (World Item) ε (α × β))
    (put : β → Handler → Handler) : Action Handler ε α := do
  let h ← Action.get
  let (a, part) ← outside (run h)
  Action.modify (put part)
  pure a

/-- `HashMap::insert`, also for an action that was changed through `get_mut`. -/
def putAction (id : ActionID) (action : TableAction) : Action Handler ε Unit :=
  Action.modify fun h => { h with tableActions := AssocMap.insert id action h.tableActions }

def removeAction (id : ActionID) : Action Handler ε Unit :=
  Action.modify fun h => { h with tableActions := AssocMap.remove id h.tableActions }

/-- What `DhtHandler::new` draws: the generator of actions, the refresh with its first id, and
    the token secrets. -/
def newParts :
    Action (World Item) ε ((AIDGenerator × TableRefresh × TransactionID) × TokenStore) := do
  let aidGenerator ← AIDGenerator.new
  let (midGenerator, aidGenerator) ← aidGenerator.generate
  let (refreshTransId, midGenerator) ← midGenerator.generate
  let tokenStore ← TokenStore.new
  pure ((aidGenerator, TableRefresh.new midGenerator, refreshTransId), tokenStore)

def assemble (table : RoutingTable) (readOnly : Bool) (localAddr : SocketAddr)
    (announcePort : Option UInt16)
    (parts : (AIDGenerator × TableRefresh × TransactionID) × TokenStore) (world : World Item) :
    Handler where
  status := .init
  statusTx := []
  tableActions := []
  readOnly := readOnly
  localAddr := localAddr
  announcePort := announcePort
  tokenStore := parts.2
  aidGenerator := parts.1.1
  activeStores := AnnounceStorage.new
  futureActions := [.lookup table.nodeId false none, .refresh parts.1.2.1 parts.1.2.2]
  eventNotifiers := []
  shared := ⟨table, Timer.new, world⟩

def new (table : RoutingTable) (readOnly : Bool) (localAddr : SocketAddr)
    (announcePort : Option UInt16) (world : World Item) : Outcome ε Handler :=
  finish (newParts world)
where
  finish (drawn : Outcome ε ((AIDGenerator × TableRefresh × TransactionID) × TokenStore) ×
      World Item) : Outcome ε Handler := do
    let parts ← drawn.1
    pure (assemble table readOnly localAddr announcePort parts drawn.2)

/-- `retain(|send| send.send(item).is_ok())` -/
def retainSending (item : Item) : List Channel → Action (World Item) ε (List Channel)
  | [] => pure []
  | channel :: rest => do
    let taken ← World.send channel item
    let kept ← retainSending item rest
    pure (if taken then channel :: kept else kept)

def broadcastDhtEvent (event : DhtEvent) : Action Handler ε Unit := do
  let h ← Action.get
  let kept ← outside (retainSending (.event event) h.eventNotifiers)
  Action.modify fun h => { h with eventNotifiers := kept }

def sendOrPanic (item : Item) (channel : Channel) : Action Handler ε Unit := do
  if ← outside (World.send channel item) then pure () else Action.abort

/-- The `retain` over `status_tx` that answers everybody and keeps nobody. -/
def answerWaiting (bootstrapped : Bool) : Action Handler ε Unit := do
  let h ← Action.get
  Action.forEach (sendOrPanic (.status bootstrapped)) h.statusTx
  Action.modify fun h => { h with statusTx := [] }

def shutdown : Action Handler ε Unit := Action.modify fun h => { h with status := .fail }

def handleCommandShutdown (cause : ShutdownCause) : Action Handler ε Unit := do
  answerWaiting false
  broadcastDhtEvent (.shuttingDown cause)
  shutdown

def numGoodNodes : Action Handler ε Nat := onShared (countNodes .good)

def noodToLess : Action Handler ε Bool := do
  let count ← numGoodNodes
  pure (count ≤ bootstrapGoodNodeThreshold)

def generateAction : Action Handler ε MIDGenerator :=
  onPart (fun h => h.aidGenerator.generate) fun aidGenerator h =>
    { h with aidGenerator := aidGenerator }

end Basics

section Tasks
variable {ε : Type}

def handleRegisterSender (tx : Channel) : Action Handler ε Unit :=
  Action.modify fun h => { h with eventNotifiers := h.eventNotifiers ++ [tx] }

def handleGetBootstarpped (tx : Channel) : Action Handler ε Unit := do
  let h ← Action.get
  match h.status with
  | .fail => sendOrPanic (.status false) tx
  | .completed => sendOrPanic (.status true) tx
  | _ => Action.modify fun h => { h with statusTx := h.statusTx ++ [tx] }

def handleGetDhtValues (tx : Channel) : Action Handler ε Unit := do
  let h ← Action.get
  let goodNodeCount ← onShared (countNodes .good)
  let questionableNodeCount ← onShared (countNodes .questionable)
  let values : DhtValues := {
    dhtId := h.shared.table.nodeId
    dhtAddress := h.localAddr
    dhtStatus := h.status
    goodNodeCount := goodNodeCount
    questionableNodeCount := questionableNodeCount
    bucketCount := h.shared.table.buckets.length }
  sendOrPanic (.values values) tx

def handleStartBootstrap (routers nodes : List SocketAddr) : Action Handler ε Unit := do
  let midGenerator ← generateAction
  let h ← Action.get
  let tableBootstrap := TableBootstrap.new h.shared.table.nodeId midGenerator nodes routers
  Action.modify fun h => { h with
    status := if h.status ≠ .completed then .bootStrapIng else h.status }
  let (bootstrapStatus, tableBootstrap) ← onShared tableBootstrap.startBootstrap
  if bootstrapStatus = .failed then handleCommandShutdown .unspecified
  else putAction midGenerator.actionId (.bootstrap tableBootstrap 0)

def handleStartLookup (infoHash : InfoHash) (shouldAnnounce : Bool) (tx : Option Channel) :
    Action Handler ε Unit := do
  let midGenerator ← generateAction
  let h ← Action.get
  if h.status ≠ .completed then
    Action.modify fun h => { h with
      futureActions := h.futureActions ++ [.lookup infoHash shouldAnnounce tx] }
  else do
    match ← onShared (TableLookup.new h.shared.table.nodeId infoHash midGenerator
      shouldAnnounce tx) with
    | some lookup => putAction midGenerator.actionId (.lookup lookup)
    | none => handleCommandShutdown .unspecified

def handleCheckTableRefresh (transId : TransactionID) : Action Handler ε Unit := do
  let h ← Action.get
  match AssocMap.get transId.actionId h.tableActions with
  | some (.refresh refresh) => do
    let (status, refresh) ← onShared refresh.continueRefresh
    putAction transId.actionId (.refresh refresh)
    if status = .failed then handleCommandShutdown .unspecified else pure ()
  | _ => pure ()

def startFutureAction : PostBootstrapAction → Action Handler ε Unit
  | .lookup infoHash shouldAnnounce tx => handleStartLookup infoHash shouldAnnounce tx
  | .refresh refresh transId => do
    putAction transId.actionId (.refresh refresh)
    handleCheckTableRefresh transId

def broadcastBootstrapCompleted (actionId : ActionID) : Action Handler ε Unit := do
  Action.modify fun h => { h with status := .completed }
  answerWaiting true
  broadcastDhtEvent .bootstrapCompleted
  removeAction actionId
  let h ← Action.get
  Action.modify fun h => { h with futureActions := [] }
  Action.forEach startFutureAction h.futureActions

/-- `None` if the DHT is shutting down, otherwise whether the bootstrap is to be taken as
    completed. -/
def attemptRebootstrap (bootstrap : TableBootstrap) (attempts : Nat) (transId : TransactionID) :
    Action Handler ε (Option Bool) := do
  let attempts := attempts + 1
  if maxBootstrapAttempts ≤ attempts then do
    let count ← numGoodNodes
    if count = 0 then do
      handleCommandShutdown .bootstrapFailed
      pure none
    else
      pure (some true)
  else do
    let (bootstrapStatus, bootstrap) ← onShared bootstrap.startBootstrap
    putAction transId.actionId (.bootstrap bootstrap attempts)
    if bootstrapStatus = .failed then do
      handleCommandShutdown .unspecified
      pure none
    else
      pure (some false)

/-- What follows when a bootstrap reports that it is completed. -/
def checkBootstrap (transId : TransactionID) : Action Handler ε Bool := do
  if ← noodToLess then do
    let h ← Action.get
    removeAction transId.actionId
    match AssocMap.get transId.actionId h.tableActions with
    | some (.bootstrap bootstrap attempts) => do
      let answer ← attemptRebootstrap bootstrap attempts transId
      pure (answer = some true)
    | _ => pure false
  else
    pure true

/-- The common end of a response to a bootstrap and of its timeouts. -/
def bootstrapProgress (transId : TransactionID) (status : BootstrapStatus) :
    Action Handler ε Unit :=
  match status with
  | .bootstrapping => pure ()
  | .failed => handleCommandShutdown .unspecified
  | .completed => do
    if ← checkBootstrap transId then broadcastBootstrapCompleted transId.actionId else pure ()

def handleCheckBootstrapTimeout (transId : TransactionID) : Action Handler ε Unit := do
  let h ← Action.get
  match AssocMap.get transId.actionId h.tableActions with
  | some (.bootstrap bootstrap attempts) => do
    let (status, bootstrap) ← onShared (bootstrap.recvTimeout transId)
    putAction transId.actionId (.bootstrap bootstrap attempts)
    bootstrapProgress transId status
  | _ => pure ()

/-- The common end of a response to a lookup and of its timeouts. -/
def lookupProgress (infoHash : InfoHash) (status : LookupStatus) : Action Handler ε Unit :=
  match status with
  | .completed => broadcastDhtEvent (.lookupCompleted infoHash)
  | .failed => handleCommandShutdown .unspecified
  | _ => pure ()

def handleCheckLookupTimeout (transId : TransactionID) : Action Handler ε Unit := do
  let h ← Action.get
  match AssocMap.get transId.actionId h.tableActions with
  | some (.lookup lookup) => do
    let (status, lookup) ← onShared (lookup.recvTimeout transId)
    putAction transId.actionId (.lookup lookup)
    lookupProgress lookup.infoHash status
  | _ => pure ()

def handleCheckLookupEndgame (transId : TransactionID) : Action Handler ε Unit := do
  let h ← Action.get
  removeAction transId.actionId
  match AssocMap.get transId.actionId h.tableActions with
  | some (.lookup lookup) => do
    let (status, lookup) ← onShared (lookup.recvFinished h.announcePort)
    match status with
    | .completed => broadcastDhtEvent (.lookupCompleted lookup.infoHash)
    | .announceFailed => do
      broadcastDhtEvent (.lookupAnFail lookup.infoHash)
      handleCommandShutdown .unspecified
    | _ => pure ()
  | _ => pure ()

def handleCommand : OneshotTask → Action Handler ε Unit
  | .shutdown cause => handleCommandShutdown cause
  | .registerSender tx => handleRegisterSender tx
  | .getBootstrapStatus tx => handleGetBootstarpped tx
  | .getDhtValues tx => handleGetDhtValues tx
  | .startBootstrap routers nodes => handleStartBootstrap routers nodes
  | .startLookup infoHash shouldAnnounce tx => handleStartLookup infoHash shouldAnnounce tx
  | .selfLookup => do
    let h ← Action.get
    handleStartLookup h.shared.table.nodeId false none

def handleTimeout : ScheduledTask → Action Handler ε Unit
  | .checkTableRefresh transId => handleCheckTableRefresh transId
  | .checkBootstrapTimeout transId => handleCheckBootstrapTimeout transId
  | .checkLookupTimeout transId => handleCheckLookupTimeout transId
  | .checkLookupEndGame transId => handleCheckLookupEndgame transId

end Tasks

section Incoming
variable {ε : Type} (sha : Bytes → ShaHash)

def asGood (id : NodeId) (addr : SocketAddr) : Action Handler ε Node :=
  outside (timed (Node.asGood id addr))

/-- `find_node_mut(&node.handle()).map(|n| n.remote_request())` for the node that sent a request. -/
def noteRequest (id : NodeId) (addr : SocketAddr) : Action Handler ε Unit := do
  let node ← asGood id addr
  onShared (onTable fun t => t.updateNode node.handle Node.remoteRequest)

/-- Sends an answer; if it is not taken, the handler shuts down. -/
def respond (response : Bytes) (addr : SocketAddr) : Action Handler ε Unit := do
  if ← onShared (sendOut response addr) then pure () else handleCommandShutdown .unspecified

def encodeNodes : List Node → Outcome ε Bytes
  | [] => .ok []
  | node :: rest => do
    let bytes ← node.encode
    let more ← encodeNodes rest
    pure (bytes ++ more)

def closestNodesBytes (target : NodeId) : Action Shared ε Bytes := do
  let nodes ← readTable fun t => do
    let walk ← Action.lift (closestNodes t target)
    walk.take 8
  Action.lift (encodeNodes nodes)

/-- The closure given to `find_items`, which passes over IPv6 addresses. -/
def contactInfo : SocketAddr → Bytes
  | .v4 a b c d port => [a, b, c, d, (port >>> 8).toUInt8, (port &&& 0x00FF).toUInt8]
  | .v6 .. => []

def contactChunks (bytes : Bytes) : Nat → Nat → Outcome ε (List Bytes)
  | 0, _ => .ok []
  | count + 1, index => do
    let chunk ← slice bytes (index * 6) (index * 6 + 6)
    let rest ← contactChunks bytes count (index + 1)
    pure (chunk.bytes :: rest)

/-- `Option::unwrap` and `Result::unwrap` where the error is not looked at. -/
def expectSome {α : Type} : Option α → Outcome ε α
  | some a => .ok a
  | none => .panic

def compactInfoType (nodesBytes : Bytes) (contacts : List Bytes) : Outcome ε CompactInfoType :=
  if contacts.isEmpty = false then do
    let nodes ← expectSome (CompactNodeInfo.new nodesBytes)
    let values ← expectSome (CompactValueInfo.new contacts)
    pure (.both nodes values)
  else do
    let nodes ← expectSome (CompactNodeInfo.new nodesBytes)
    pure (.nodes nodes)

def findItems (infoHash : InfoHash) : Action Handler ε (List SocketAddr) :=
  onPart (fun h => h.activeStores.findItems infoHash) fun activeStores h =>
    { h with activeStores := activeStores }

def addItem (infoHash : InfoHash) (addr : SocketAddr) : Action Handler ε Bool :=
  onPart (fun h => h.activeStores.addItem infoHash addr) fun activeStores h =>
    { h with activeStores := activeStores }

def checkout (addr : SocketAddr) : Action Handler ε Token :=
  onPart (fun h => h.tokenStore.checkout sha addr.ip) fun tokenStore h =>
    { h with tokenStore := tokenStore }

/-- A token of the wrong length is not valid, and does not touch the store. -/
def checkin (addr : SocketAddr) (token : Bytes) : Action Handler ε Bool :=
  match Token.new token with
  | none => pure false
  | some token =>
    onPart (fun h => h.tokenStore.checkin sha addr.ip token) fun tokenStore h =>
      { h with tokenStore := tokenStore }

def ownId : Action Handler ε NodeId := do
  let h ← Action.get
  pure h.shared.table.nodeId

def connectAddr (addr : SocketAddr) : ConnectPort → SocketAddr
  | .implied => addr
  | .explicit port => addr.withPort port

def handlePing (p : PingRequest) (addr : SocketAddr) : Action Handler ε Unit := do
  noteRequest p.nodeId addr
  let id ← ownId
  let pingRsp : PingResponse := ⟨p.transId, id⟩
  respond pingRsp.encode addr

def handleFindNode (f : FindNodeRequest) (addr : SocketAddr) : Action Handler ε Unit := do
  noteRequest f.nodeId addr
  let closest ← onShared (closestNodesBytes f.targetId)
  let id ← ownId
  let findNodeRsp ← Action.lift (FindNodeResponse.new f.transId id closest).unwrap
  respond findNodeRsp.encode addr

def handleGetPeers (g : GetPeersRequest) (addr : SocketAddr) : Action Handler ε Unit := do
  noteRequest g.nodeId addr
  let items ← findItems g.infoHash
  let contactInfoBytes := items.flatMap contactInfo
  let contacts ← Action.lift (contactChunks contactInfoBytes (contactInfoBytes.length / 6) 0)
  let closest ← onShared (closestNodesBytes g.infoHash)
  let token ← checkout sha addr
  let infoType ← Action.lift (compactInfoType closest contacts)
  let id ← ownId
  let getPeersRsp : GetPeersResponse := ⟨g.transId, id, some token.asRef, infoType⟩
  respond getPeersRsp.encode addr

def handleAnnouncePeer (a : AnnouncePeerRequest) (addr : SocketAddr) : Action Handler ε Unit := do
  noteRequest a.nodeId addr
  if ← checkin sha addr a.token then do
    if ← addItem a.infoHash (connectAddr addr a.port) then do
      let id ← ownId
      let announceRsp : AnnouncePeerResponse := ⟨a.transId, id⟩
      respond announceRsp.encode addr
    else
      respond (ErrorMessage.encode
        ⟨a.transId, .serverError, Str.ofAscii "Announce Storage Is Full"⟩) addr
  else
    respond (ErrorMessage.encode
      ⟨a.transId, .protocolError, Str.ofAscii "Received An Invalid Token"⟩) addr

def handleIncomingRequest : RequestType → SocketAddr → Action Handler ε Unit
  | .ping p, addr => handlePing p addr
  | .findNode f, addr => handleFindNode f addr
  | .getPeers g, addr => handleGetPeers sha g addr
  | .announcePeer a, addr => handleAnnouncePeer sha a addr

def addQuestionable (item : NodeId × SocketAddr) : Action Handler ε Unit := do
  let node ← outside (timed (Node.asQuestionable item.1 item.2))
  onShared (addNode node)

def addUnlessRouter (bootstrap : TableBootstrap) (node : Node) : Action Handler ε Unit :=
  if bootstrap.isRouter node.addr then pure () else onShared (addNode node)

def handleFindNodeResponse (f : FindNodeResponse) (addr : SocketAddr) : Action Handler ε Unit := do
  let transId ← Action.lift (expectSome (TransactionID.fromBytes f.transId))
  let node ← asGood f.nodeId addr
  let items ← Action.lift f.nodes.toList
  Action.forEach addQuestionable items
  let h ← Action.get
  match AssocMap.get transId.actionId h.tableActions with
  | some (.refresh _) => onShared (addNode node)
  | some (.bootstrap bootstrap attempts) => do
    addUnlessRouter bootstrap node
    let (status, bootstrap) ← onShared (bootstrap.recvResponse transId)
    putAction transId.actionId (.bootstrap bootstrap attempts)
    bootstrapProgress transId status
  | _ => pure ()

def handleGetPeersResponse (g : GetPeersResponse) (addr : SocketAddr) : Action Handler ε Unit := do
  let transId ← Action.lift (expectSome (TransactionID.fromBytes g.transId))
  let node ← asGood g.nodeId addr
  onShared (addNode node)
  let h ← Action.get
  match AssocMap.get transId.actionId h.tableActions with
  | some (.lookup lookup) => do
    let (status, lookup) ← onShared (lookup.recvResponse node.handle transId g)
    putAction transId.actionId (.lookup lookup)
    lookupProgress lookup.infoHash status
  | _ => pure ()

def handleIncomingResponse : ResponseType → SocketAddr → Action Handler ε Unit
  | .findNode f, addr => handleFindNodeResponse f addr
  | .getPeers g, addr => handleGetPeersResponse g addr
  | .ping _, _ => pure ()
  | .announcePeer _, _ => pure ()
  | .acting a, addr => do
    let node ← asGood a.nodeId addr
    onShared (addNode node)

def handleMessage (message : MessageType) (addr : SocketAddr) : Action Handler ε Unit :=
  match message with
  | .error _ => pure ()
  | .request request => handleIncomingRequest sha request addr
  | .response response => handleIncomingResponse response addr

/-- In read only mode requests are dropped. -/
def handleIncomingPreprocess (readOnly : Bool) : DhtResult MessageType → Bool
  | .ok (.request _) => !readOnly
  | _ => true

def handleIncoming (buffer : Bytes) (addr : SocketAddr) : Action Handler ε Unit := do
  match BencodeRef.decode buffer .default with
  | .err _ => pure ()
  | .panic => Action.abort
  | .unfinished => Action.cutOff
  | .ok bencode => do
    let message := MessageType.new bencode.kind
    let h ← Action.get
    if handleIncomingPreprocess h.readOnly message then
      match message with
      | .ok message => handleMessage sha message addr
      | .err _ => pure ()
      | .panic => Action.abort
      | .unfinished => Action.cutOff
    else
      pure ()

end Incoming

end DhtHandler
