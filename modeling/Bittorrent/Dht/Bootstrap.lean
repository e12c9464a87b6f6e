import Bittorrent.Dht.Worker

/-!
The bootstrap: one round of requests for each of the 160 buckets, the next round when the last
has been answered or has timed out, and at once if there is no node to ask.
-/
namespace DhtBootstrap
open Rust Action UtilTimer DhtNode DhtTable DhtMessage DhtTransaction DhtWorker

def bootstrapInitialTimeout : Nat := fromMillis 2500
def bootstrapNodeTimeout : Nat := fromMillis 500
def pingsPerBucket : Nat := 8

inductive BootstrapStatus where
  | bootstrapping | completed | failed
  deriving DecidableEq

structure TableBootstrap where
  tableId : NodeId
  idGenerator : MIDGenerator
  startingNodes : List SocketAddr
  startingRouters : List SocketAddr
  activeMessages : List (TransactionID × Timeout)
  messagesSentNum : Nat
  currBootstrapBucket : Nat
  isCompleted : Bool

section Model
variable {ε : Type}

def sendEach (bytes : Bytes) : List SocketAddr → Action Shared ε Bool
  | [] => pure true
  | addr :: rest => do
    if ← sendOut bytes addr then sendEach bytes rest else pure false

/-- The item of the iterator over buckets at an index, with a new bucket for one that is empty or
    missing. -/
def contentsAt (t : RoutingTable) (index : Nat) : List Node :=
  if index < maxBuckets then
    if index + 1 < t.buckets.length ∨ t.buckets.length = maxBuckets then
      (t.buckets[index]?.map (·.nodes)).getD Bucket.new.nodes
    else Bucket.new.nodes
  else if index = maxBuckets ∧ t.buckets.length ≠ maxBuckets then
    (t.buckets.getLast?.map (·.nodes)).getD Bucket.new.nodes
  else Bucket.new.nodes

/-- `filter(wanted).take(count)` over the nodes of buckets. -/
def takeNodes (wanted : Node → Timed ε Bool) : Nat → List Node → Timed ε (List Node)
  | 0, _ => pure []
  | _ + 1, [] => pure []
  | count + 1, n :: rest => do
    if ← wanted n then do
      let more ← takeNodes wanted count rest
      pure (n :: more)
    else
      takeNodes wanted (count + 1) rest

/-- The nodes in the two buckets before an index and the one at it. -/
def bucketsWhere (wanted : Node → Timed ε Bool) (index count : Nat) :
    Action Shared ε (List NodeHandle) :=
  readTable fun t => do
    let nodes ← takeNodes wanted count
      (contentsAt t (index - 2) ++ contentsAt t (index - 1) ++ contentsAt t index)
    pure (nodes.map (·.handle))

namespace TableBootstrap

def new (tableId : NodeId) (idGenerator : MIDGenerator) (nodes routers : List SocketAddr) :
    TableBootstrap where
  tableId := tableId
  idGenerator := idGenerator
  startingNodes := nodes
  startingRouters := routers.eraseDups
  activeMessages := []
  messagesSentNum := 0
  currBootstrapBucket := 0
  isCompleted := false

def currentBootstrapStatus (b : TableBootstrap) : BootstrapStatus :=
  if b.isCompleted ∧ b.activeMessages.isEmpty then .completed else .bootstrapping

def isRouter (b : TableBootstrap) (addr : SocketAddr) : Bool := addr ∈ b.startingRouters

def startBootstrap (b : TableBootstrap) : Action Shared ε (BootstrapStatus × TableBootstrap) := do
  let (transId, idGenerator) ← generate b.idGenerator
  let timeout ← scheduleIn bootstrapInitialTimeout (.checkBootstrapTimeout transId)
  let b := { b with
    idGenerator := idGenerator
    activeMessages := [(transId, timeout)]
    currBootstrapBucket := 0
    isCompleted := false }
  let findNodeMsg := FindNodeRequest.encode ⟨transId.asRef, b.tableId, b.tableId⟩
  if ← sendEach findNodeMsg (b.startingRouters ++ b.startingNodes) then
    pure (b.currentBootstrapStatus, b)
  else
    pure (.failed, b)

def requestNodes (targetId : NodeId) :
    List NodeHandle → TableBootstrap → Action Shared ε (BootstrapStatus × TableBootstrap)
  | [], b => pure (.bootstrapping, b)
  | node :: rest, b => do
    let (transId, idGenerator) ← generate b.idGenerator
    let b := { b with idGenerator := idGenerator }
    let timeout ← scheduleIn bootstrapNodeTimeout (.checkBootstrapTimeout transId)
    if ← sendOut (FindNodeRequest.encode ⟨transId.asRef, b.tableId, targetId⟩) node.addr then do
      localRequest node
      requestNodes targetId rest { b with
        activeMessages := AssocMap.insert transId timeout b.activeMessages
        messagesSentNum := b.messagesSentNum + 1 }
    else
      pure (.failed, b)

def sendBootstrapRequests (b : TableBootstrap) (nodes : List NodeHandle) (targetId : NodeId) :
    Action Shared ε (BootstrapStatus × TableBootstrap) :=
  requestNodes targetId nodes { b with messagesSentNum := 0 }

def bootstrapNextBucket (b : TableBootstrap) :
    Action Shared ε (BootstrapStatus × TableBootstrap) := do
  let curr := b.currBootstrapBucket
  let targetId ← Action.lift (flipIdBitAtIndex b.tableId curr)
  if curr = 0 ∨ curr = 1 then do
    let nodes ← closestWhere (hasStatus .questionable) targetId pingsPerBucket
    b.sendBootstrapRequests nodes targetId
  else do
    let nodes ← bucketsWhere (hasStatus .questionable) curr pingsPerBucket
    b.sendBootstrapRequests nodes targetId

def bootstrapBuckets : Nat → TableBootstrap → Action Shared ε (BootstrapStatus × TableBootstrap)
  | 0, _ => Action.cutOff
  | fuel + 1, b => do
    let (status, b) ← b.bootstrapNextBucket
    if status = .failed then
      pure (.failed, b)
    else
      let b := { b with currBootstrapBucket := b.currBootstrapBucket + 1 }
      if b.currBootstrapBucket = maxBuckets then
        let b := { b with isCompleted := true }
        pure (b.currentBootstrapStatus, b)
      else if b.messagesSentNum ≠ 0 then
        pure (.bootstrapping, b)
      else
        bootstrapBuckets fuel b

/-- The common end of `recv_response` and `recv_timeout`. -/
def checkNextBucket (b : TableBootstrap) : Action Shared ε (BootstrapStatus × TableBootstrap) :=
  if b.isCompleted = false ∧ b.activeMessages.isEmpty then bootstrapBuckets maxBuckets b
  else pure (b.currentBootstrapStatus, b)

/-- A response to the initial messages leaves their timeout in place. -/
def recvResponse (b : TableBootstrap) (transId : TransactionID) :
    Action Shared ε (BootstrapStatus × TableBootstrap) :=
  match AssocMap.get transId b.activeMessages with
  | none => pure (b.currentBootstrapStatus, b)
  | some timeout =>
    if b.currBootstrapBucket ≠ 0 then do
      cancel timeout
      checkNextBucket { b with activeMessages := AssocMap.remove transId b.activeMessages }
    else
      b.checkNextBucket

def recvTimeout (b : TableBootstrap) (transId : TransactionID) :
    Action Shared ε (BootstrapStatus × TableBootstrap) :=
  match AssocMap.get transId b.activeMessages with
  | none => pure (b.currentBootstrapStatus, b)
  | some _ => checkNextBucket { b with activeMessages := AssocMap.remove transId b.activeMessages }

end TableBootstrap

end Model

section Sound
variable {ε : Type} {E : Prop} {o : Outside}

/-- The cursor is at a bucket until the sweep is completed. -/
structure Sweep (b : TableBootstrap) : Prop where
  bounded : b.currBootstrapBucket ≤ maxBuckets
  running : b.isCompleted = false → b.currBootstrapBucket < maxBuckets

namespace TableBootstrap

variable (b : TableBootstrap)

end TableBootstrap

end Sound

end DhtBootstrap
