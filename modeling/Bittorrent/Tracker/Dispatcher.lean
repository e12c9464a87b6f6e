import Bittorrent.Lib.World
import Bittorrent.Tracker.Message
import Bittorrent.Util.Timer

/-!
The task behind a tracker client. It sends the requests it is handed, asks each tracker for a connection
id first, repeats a request when its timer expires, and answers each request over a channel of its own.
-/
namespace TrackerDispatcher
open Rust UtilSha UtilTimer HashTables TrackerMessages

structure ClientToken where
  token : UInt32
  deriving DecidableEq, Repr

inductive ClientRequest where
  | announce (hash : ShaHash) (state : ClientState)
  | scrape (hash : ShaHash)
  deriving DecidableEq

inductive ClientError where
  | maxTimeout
  | maxLength
  | clientShutdown
  | serverError
  | ipVersionMismatch
  | serverMessage (message : Str)
  deriving DecidableEq

inductive ClientResponse where
  | announce (response : AnnounceResponse)
  | scrape (stats : Run scrapeStatsBytes)
  deriving DecidableEq

structure ClientMetadata where
  token : ClientToken
  result : Except ClientError ClientResponse

inductive DispatchTimeout where
  | connect (token : ClientToken)
  | cleanUp
  deriving DecidableEq, Repr

inductive Item where
  | datagram (bytes : Bytes) (addr : SocketAddr)
  | metadata (metadata : ClientMetadata)

/-- The channel to the task that sends datagrams; the channels of the requests are other ones. -/
def messageSend : Channel := 0

structure ConnectTimer where
  addr : SocketAddr
  attempt : Nat
  request : ClientRequest
  timeoutId : Option Timeout
  tx : Channel

def ConnectTimer.new (addr : SocketAddr) (request : ClientRequest) (tx : Channel) : ConnectTimer :=
  ⟨addr, 0, request, none, tx⟩

def maximumRequestRetransmitAttempts : Nat := 8

def calculateMessageTimeoutMillis (attempt : Nat) : Nat := 15 * 2 ^ attempt * 1000

/-- The timeout to use, and the timer with its attempts counted. -/
def ConnectTimer.currentTimeout (timer : ConnectTimer) (timedOut : Bool) : Option (Nat × ConnectTimer) :=
  if timer.attempt = maximumRequestRetransmitAttempts then none
  else
    let counted := if timedOut then { timer with attempt := timer.attempt + 1 } else timer
    some (calculateMessageTimeoutMillis counted.attempt, counted)

/-- The limiter is not among the fields: the dispatcher is given one and never uses it. -/
structure ClientDispatcher where
  boundAddr : SocketAddr
  peerId : ShaHash
  announcePort : UInt16
  activeRequests : HashTable ClientToken ConnectTimer
  idCache : HashTable SocketAddr (UInt64 × Int)
  isRun : Bool
  timer : Timer DispatchTimeout
  world : World Item

def ClientDispatcher.new (bind : SocketAddr) (peerId : ShaHash) (announcePort : UInt16)
    (world : World Item) : ClientDispatcher :=
  ⟨bind, peerId, announcePort, .empty, .empty, true, .new, world⟩

abbrev Dispatch := Action ClientDispatcher Empty

section Basics
variable {α : Type}

def inWorld (m : Action (World Item) Empty α) : Dispatch α :=
  Action.zoom ClientDispatcher.world (fun d world => { d with world := world }) m

def sendItem (channel : Channel) (item : Item) : Dispatch Unit := do
  let taken ← inWorld (World.send channel item)
  if taken then return () else Action.abort

def answer (tx : Channel) (token : ClientToken) (result : Except ClientError ClientResponse) :
    Dispatch Unit :=
  sendItem tx (.metadata ⟨token, result⟩)

def scheduleIn (delay : Nat) (value : DispatchTimeout) : Dispatch Timeout := do
  let t ← inWorld (timed now)
  let d ← Action.get
  Action.modify fun d => { d with timer := (d.timer.scheduleAt (t + delay) value).2 }
  return (d.timer.scheduleAt (t + delay) value).1

end Basics

section IdCache

def connectionIdValidDurationMillis : Nat := 60000

/-- The two times are in nanoseconds. -/
def isExpired (currTime prevTime : Int) : Bool :=
  decide (connectionIdValidDurationMillis * 1000000 ≤ currTime - prevTime)

def cacheGet (addr : SocketAddr) : Dispatch (Option UInt64) := do
  let d ← Action.get
  match d.idCache.get addr with
  | none => return none
  | some (id, prevTime) =>
    let currTime ← inWorld utcNow
    if isExpired currTime prevTime then
      Action.modify fun d => { d with idCache := d.idCache.remove addr }
      return none
    else return some id

def cachePut (addr : SocketAddr) (connectId : UInt64) : Dispatch Unit := do
  let currTime ← inWorld utcNow
  Action.modify fun d => { d with idCache := d.idCache.insert addr (connectId, currTime) }

/-- The loop goes on with the next index also when it has removed an entry. -/
def cleanFrom (currTime : Int) : Nat → Nat → HashTable SocketAddr (UInt64 × Int) →
    HashTable SocketAddr (UInt64 × Int)
  | 0, _, cache => cache
  | fuel + 1, index, cache =>
    match cache.entries[index]? with
    | none => cache
    | some (addr, _, prevTime) =>
      cleanFrom currTime fuel (index + 1)
        (if isExpired currTime prevTime then cache.remove addr else cache)

def cleanExpired : Dispatch Unit := do
  let currTime ← inWorld utcNow
  Action.modify fun d => { d with idCache := cleanFrom currTime d.idCache.entries.length 0 d.idCache }

end IdCache

section Requests

def randomKey : Dispatch UInt32 := do
  let r ← inWorld drawNat
  return UInt32.ofNat r

def sourceIp : SocketAddr → SourceIP
  | .v4 .. => .impliedV4
  | .v6 .. => .impliedV6

/-- The connection id to use and what to ask for. -/
theorem hash_whole (hash : ShaHash) : hash.asRef.length % shaHashLen = 0 := by
  simp [ShaHash.asRef]

def requestFor (conn : ConnectTimer) : Option UInt64 → Dispatch (UInt64 × RequestType)
  | none => return (connectIdProtocolId, .connect)
  | some id => do
    let d ← Action.get
    match conn.request with
    | .announce hash state =>
      let key ← randomKey
      return (id, .announce ⟨hash, d.peerId, state, sourceIp conn.addr, key, .default, d.announcePort,
        .empty⟩)
    | .scrape hash => return (id, .scrape ⟨hash.asRef, hash_whole hash⟩)

/-- The cursor is over a vector, which grows, so the request is always written and the branch for a
    request that is too long is never taken. -/
def transmit (token : ClientToken) (conn : ConnectTimer) (nextTimeout : Nat) : Dispatch Unit := do
  let optConnId ← cacheGet conn.addr
  let (connId, requestType) ← requestFor conn optConnId
  sendItem messageSend (.datagram (TrackerRequest.writeBytes ⟨connId, token.token, requestType⟩) conn.addr)
  let timeout ← scheduleIn (fromSecs nextTimeout) (.connect token)
  Action.modify fun d => { d with
    activeRequests := d.activeRequests.insert token { conn with timeoutId := some timeout } }

def processRequest (token : ClientToken) (timedOut : Bool) : Dispatch Unit := do
  let d ← Action.get
  match d.activeRequests.get token with
  | none => return ()
  | some conn =>
    Action.modify fun d => { d with activeRequests := d.activeRequests.remove token }
    match conn.currentTimeout timedOut with
    | none => answer conn.tx token (.error .maxTimeout)
    | some (nextTimeout, conn) => transmit token conn nextTimeout

def sendRequest (addr : SocketAddr) (token : ClientToken) (request : ClientRequest) (tx : Channel) :
    Dispatch Unit := do
  let d ← Action.get
  if d.boundAddr.isV4 ≠ addr.isV4 then answer tx token (.error .ipVersionMismatch)
  else
    Action.modify fun d => { d with
      activeRequests := d.activeRequests.insert token (.new addr request tx) }
    processRequest token false

/-- The result that a response other than a connection id means for a request. -/
def resultOf : ClientRequest → ResponseType → Except ClientError ClientResponse
  | .announce .., .announce response => .ok (.announce response)
  | .scrape _, .scrape stats => .ok (.scrape stats)
  | _, .error message => .error (.serverMessage message)
  | _, _ => .error .serverError

def recvResponse (addr : SocketAddr) (response : TrackerResponse) : Dispatch Unit := do
  let token : ClientToken := ⟨response.transactionId⟩
  let d ← Action.get
  match d.activeRequests.get token with
  | none => return ()
  | some conn =>
    Action.modify fun d => { d with activeRequests := d.activeRequests.remove token }
    if conn.addr ≠ addr then return ()
    else
      match conn.timeoutId with
      | none => Action.abort
      | some timeout =>
        Action.modify fun d => { d with timer := (d.timer.cancel timeout).2 }
        match response.responseType with
        | .connect id =>
          cachePut addr id
          Action.modify fun d => { d with activeRequests := d.activeRequests.insert token conn }
          processRequest token false
        | responseType => answer conn.tx token (resultOf conn.request responseType)

def shutdown : Dispatch Unit := do
  let d ← Action.get
  Action.forEach (fun (entry : ClientToken × ConnectTimer) =>
    answer entry.2.tx entry.1 (.error .clientShutdown)) d.activeRequests.entries
  Action.modify fun d => { d with activeRequests := .empty, isRun := false }

end Requests

section Loop

def timeoutHandler : DispatchTimeout → Dispatch Unit
  | .connect token => processRequest token true
  | .cleanUp => do
    cleanExpired
    let _ ← scheduleIn (fromSecs connectionIdValidDurationMillis) .cleanUp

inductive Event where
  | request (addr : SocketAddr) (token : ClientToken) (request : ClientRequest) (tx : Channel)
  | startTimer
  /-- `DispatchMessage::Shutdown`, a closed command channel, or an error of the socket. -/
  | shutdown
  | datagram (bytes : Bytes) (addr : SocketAddr)
  /-- The timer is asked for the next timeout, and it is not due yet. -/
  | poll
  | expired

def responseInHandler (bytes : Bytes) (addr : SocketAddr) : Dispatch Unit :=
  match parseResponse bytes with
  | .ok (response, _) => recvResponse addr response
  | .err _ => return ()
  | .panic => Action.abort
  | .unfinished => Action.cutOff

def handle : Event → Dispatch Unit
  | .request addr token request tx => sendRequest addr token request tx
  | .startTimer => timeoutHandler .cleanUp
  | .shutdown => shutdown
  | .datagram bytes addr => responseInHandler bytes addr
  | .poll => Action.modify fun d => { d with timer := d.timer.poll }
  | .expired => do
    let d ← Action.get
    match d.timer.next with
    | none => return ()
    | some (value, timer) =>
      Action.modify fun d => { d with timer := timer }
      timeoutHandler value

/-- A turn of `run_task`, which ends once `is_run` is false. -/
def runOne (event : Event) : Dispatch Unit := do
  let d ← Action.get
  if d.isRun then handle event else return ()

end Loop

end TrackerDispatcher
