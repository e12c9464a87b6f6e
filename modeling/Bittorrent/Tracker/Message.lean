import Bittorrent.Lib.Net
import Bittorrent.Lib.Utf8
import Bittorrent.Tracker.Options
import Bittorrent.Util.ShaHash

/-!
Requests to a tracker over UDP and its responses, with the bytes they are written as and read from. Runs
of hashes, peers and statistics are kept as bytes, as in the source, and carry that they are whole.
-/
namespace TrackerMessages
open Rust NomParse UtilSha TrackerOptions

def connectActionId : UInt32 := 0
def announceIpv4ActionId : UInt32 := 1
def scrapeActionId : UInt32 := 2
def errorActionId : UInt32 := 3
def announceIpv6ActionId : UInt32 := 4

def connectIdProtocolId : UInt64 := 0x41727101980

/-- Bytes in a whole number of parts. -/
structure Run (size : Nat) where
  bytes : Bytes
  whole : bytes.length % size = 0
  deriving DecidableEq

/-- `parse_peers_v4`, `parse_peers_v6` and the two `parse`s of scrapes: all of the input. -/
def parseRun (size : Nat) : Parser (Run size) := fun input =>
  if whole : input.length % size = 0 then .ok (⟨input, whole⟩, []) else .err .incomplete

section Announce

inductive AnnounceEvent where
  | none | completed | started | stopped
  deriving DecidableEq, Repr

def AnnounceEvent.asId : AnnounceEvent → Int32
  | .none => 0
  | .completed => 1
  | .started => 2
  | .stopped => 3

def parseEvent : Parser AnnounceEvent := fun input => do
  let (id, rest) ← beI32 input
  if id = 0 then return (.none, rest)
  else if id = 1 then return (.completed, rest)
  else if id = 2 then return (.started, rest)
  else if id = 3 then return (.stopped, rest)
  else .err .error

structure ClientState where
  downloaded : Int64
  left : Int64
  uploaded : Int64
  event : AnnounceEvent
  deriving DecidableEq, Repr

def ClientState.writeBytes (state : ClientState) : Bytes :=
  writeI64 state.downloaded ++ writeI64 state.left ++ writeI64 state.uploaded ++ writeI32 state.event.asId

def parseState : Parser ClientState := fun input => do
  let (downloaded, rest) ← beI64 input
  let (left, rest) ← beI64 rest
  let (uploaded, rest) ← beI64 rest
  let (event, rest) ← parseEvent rest
  return (⟨downloaded, left, uploaded, event⟩, rest)

inductive SourceIP where
  | impliedV4
  | explicitV4 (ip : Vector UInt8 4)
  | impliedV6
  | explicitV6 (ip : Vector UInt8 16)
  deriving DecidableEq, Repr

def impliedIpv4Id : Bytes := List.replicate 4 0
def impliedIpv6Id : Bytes := List.replicate 16 0

def SourceIP.writeBytes : SourceIP → Bytes
  | .impliedV4 => impliedIpv4Id
  | .impliedV6 => impliedIpv6Id
  | .explicitV4 ip => ip.toList
  | .explicitV6 ip => ip.toList

def SourceIP.isIpv6 : SourceIP → Bool
  | .impliedV6 => true
  | .explicitV6 _ => true
  | .impliedV4 => false
  | .explicitV4 _ => false

def SourceIP.isIpv4 (ip : SourceIP) : Bool := !ip.isIpv6

/-- `parse_preference_v4` and `parse_preference_v6`. -/
def parsePreference (size : Nat) (implied : SourceIP) (explicit : Vector UInt8 size → SourceIP) :
    Parser SourceIP := fun input =>
  alt (do
    let (_, rest) ← tag (List.replicate size 0) input
    return (implied, rest)) (do
    let (ip, rest) ← countFixed beU8 size input
    return (explicit ip, rest))

def parsePreferenceV4 : Parser SourceIP := parsePreference 4 .impliedV4 .explicitV4
def parsePreferenceV6 : Parser SourceIP := parsePreference 16 .impliedV6 .explicitV6

inductive DesiredPeers where
  | default
  | specified (count : Int32)
  deriving DecidableEq, Repr

def defaultNumWant : Int32 := -1

def DesiredPeers.writeBytes : DesiredPeers → Bytes
  | .default => writeI32 defaultNumWant
  | .specified count => writeI32 count

def parseDesired : Parser DesiredPeers := fun input => do
  let (count, rest) ← beI32 input
  return (if count = defaultNumWant then .default else .specified count, rest)

structure AnnounceRequest where
  infoHash : ShaHash
  peerId : ShaHash
  state : ClientState
  ip : SourceIP
  key : UInt32
  numWant : DesiredPeers
  port : UInt16
  options : AnnounceOptions

def AnnounceRequest.writeBytes (request : AnnounceRequest) : Bytes :=
  request.infoHash.asRef ++ request.peerId.asRef ++ request.state.writeBytes ++ request.ip.writeBytes ++
    writeU32 request.key ++ request.numWant.writeBytes ++ writeU16 request.port ++
    request.options.writeBytes

/-- `take!` of a hash with `from_hash(..).unwrap()`. -/
def parseHash : Parser ShaHash := fun input => do
  let (raw, rest) ← take shaHashLen input
  match fromHash raw with
  | some hash => return (hash, rest)
  | none => .panic

def parseAnnounceRequest (ipType : Parser SourceIP) : Parser AnnounceRequest := fun input => do
  let (infoHash, rest) ← parseHash input
  let (peerId, rest) ← parseHash rest
  let (state, rest) ← parseState rest
  let (ip, rest) ← ipType rest
  let (key, rest) ← beU32 rest
  let (numWant, rest) ← parseDesired rest
  let (port, rest) ← beU16 rest
  let (options, rest) ← AnnounceOptions.fromBytes rest
  return (⟨infoHash, peerId, state, ip, key, numWant, port, options⟩, rest)

def socketAddrV4Bytes : Nat := 6
def socketAddrV6Bytes : Nat := 18

inductive CompactPeers where
  | v4 (peers : Run socketAddrV4Bytes)
  | v6 (peers : Run socketAddrV6Bytes)
  deriving DecidableEq

def CompactPeers.writeBytes : CompactPeers → Bytes
  | .v4 peers => peers.bytes
  | .v6 peers => peers.bytes

structure AnnounceResponse where
  interval : Int32
  leechers : Int32
  seeders : Int32
  peers : CompactPeers
  deriving DecidableEq

def AnnounceResponse.writeBytes (response : AnnounceResponse) : Bytes :=
  writeI32 response.interval ++ writeI32 response.leechers ++ writeI32 response.seeders ++
    response.peers.writeBytes

def parseAnnounceResponse (peersType : Parser CompactPeers) : Parser AnnounceResponse := fun input => do
  let (interval, rest) ← beI32 input
  let (leechers, rest) ← beI32 rest
  let (seeders, rest) ← beI32 rest
  let (peers, rest) ← peersType rest
  return (⟨interval, leechers, seeders, peers⟩, rest)

def parsePeersV4 : Parser CompactPeers := fun input => do
  let (peers, rest) ← parseRun socketAddrV4Bytes input
  return (.v4 peers, rest)

def parsePeersV6 : Parser CompactPeers := fun input => do
  let (peers, rest) ← parseRun socketAddrV6Bytes input
  return (.v6 peers, rest)

end Announce

section Requests

def scrapeStatsBytes : Nat := 12

inductive RequestType where
  | connect
  | announce (request : AnnounceRequest)
  | scrape (hashes : Run shaHashLen)

structure TrackerRequest where
  connectionId : UInt64
  transactionId : UInt32
  requestType : RequestType

def TrackerRequest.writeBytes (request : TrackerRequest) : Bytes :=
  writeU64 request.connectionId ++
    match request.requestType with
    | .connect => writeU32 connectActionId ++ writeU32 request.transactionId
    | .announce announce =>
      writeU32 (if announce.ip.isIpv4 then announceIpv4ActionId else announceIpv6ActionId) ++
        writeU32 request.transactionId ++ announce.writeBytes
    | .scrape hashes => writeU32 scrapeActionId ++ writeU32 request.transactionId ++ hashes.bytes

def parseRequest : Parser TrackerRequest := fun input => do
  let (cid, rest) ← beU64 input
  let (action, rest) ← beU32 rest
  let (tid, rest) ← beU32 rest
  if cid = connectIdProtocolId ∧ action = connectActionId then
    return (⟨connectIdProtocolId, tid, .connect⟩, rest)
  else if action = announceIpv4ActionId then
    let (request, rest) ← parseAnnounceRequest parsePreferenceV4 rest
    return (⟨cid, tid, .announce request⟩, rest)
  else if action = scrapeActionId then
    let (hashes, rest) ← parseRun shaHashLen rest
    return (⟨cid, tid, .scrape hashes⟩, rest)
  else if action = announceIpv6ActionId then
    let (request, rest) ← parseAnnounceRequest parsePreferenceV6 rest
    return (⟨cid, tid, .announce request⟩, rest)
  else .err .error

end Requests

section Responses

inductive ResponseType where
  | connect (connectionId : UInt64)
  | announce (response : AnnounceResponse)
  | scrape (stats : Run scrapeStatsBytes)
  | error (message : Str)
  deriving DecidableEq

structure TrackerResponse where
  transactionId : UInt32
  responseType : ResponseType
  deriving DecidableEq

def TrackerResponse.writeBytes (response : TrackerResponse) : Bytes :=
  match response.responseType with
  | .connect id => writeU32 connectActionId ++ writeU32 response.transactionId ++ writeU64 id
  | .announce announce =>
    let actionId := match announce.peers with
      | .v4 _ => announceIpv4ActionId
      | .v6 _ => announceIpv6ActionId
    writeU32 actionId ++ writeU32 response.transactionId ++ announce.writeBytes
  | .scrape stats => writeU32 scrapeActionId ++ writeU32 response.transactionId ++ stats.bytes
  | .error message => writeU32 errorActionId ++ writeU32 response.transactionId ++ message.bytes

def parseError : Parser Str := fun input =>
  match Str.fromUtf8 input with
  | some message => .ok (message, [])
  | none => .err .error

def parseResponse : Parser TrackerResponse := fun input => do
  let (action, rest) ← beU32 input
  let (tid, rest) ← beU32 rest
  if action = connectActionId then
    let (cid, rest) ← beU64 rest
    return (⟨tid, .connect cid⟩, rest)
  else if action = announceIpv4ActionId then
    let (response, rest) ← parseAnnounceResponse parsePeersV4 rest
    return (⟨tid, .announce response⟩, rest)
  else if action = scrapeActionId then
    let (stats, rest) ← parseRun scrapeStatsBytes rest
    return (⟨tid, .scrape stats⟩, rest)
  else if action = errorActionId then
    let (message, rest) ← parseError rest
    return (⟨tid, .error message⟩, rest)
  else if action = announceIpv6ActionId then
    let (response, rest) ← parseAnnounceResponse parsePeersV6 rest
    return (⟨tid, .announce response⟩, rest)
  else .err .error

end Responses

end TrackerMessages
