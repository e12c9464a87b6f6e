import Bittorrent.Bencode.Convert
import Bittorrent.Bencode.Encode
import Bittorrent.Dht.Compact

/-!
KRPC messages: what each kind holds, the bencode it writes, and how it is read from a
dictionary. A response carries no tag, so its kind is guessed from the keys that are present.
-/
namespace DhtMessage
open Rust UtilSha BencodeValue BencodeEncode BencodeConvert DhtNode DhtCompact

def transactionIdKey : Bytes := text "t"
def messageTypeKey : Bytes := text "y"
def requestTypeKey : Bytes := text "q"
def responseTypeKey : Bytes := text "r"
def errorTypeKey : Bytes := text "e"
def rootIdKey : Bytes := text "root"
def nodeIdKey : Bytes := text "id"
def nodesKey : Bytes := text "nodes"
def valuesKey : Bytes := text "values"
def targetIdKey : Bytes := text "target"
def infoHashKey : Bytes := text "info_hash"
def tokenKey : Bytes := text "token"
def portKey : Bytes := text "port"
def impliedPortKey : Bytes := text "implied_port"
def requestArgsKey : Bytes := text "a"
def responseArgsKey : Bytes := text "r"
def errorArgsKey : Bytes := text "e"
def pingTypeKey : Bytes := text "ping"
def findNodeTypeKey : Bytes := text "find_node"
def getPeersTypeKey : Bytes := text "get_peers"
def announcePeerTypeKey : Bytes := text "announce_peer"

def benMap (entries : List (Bytes × Bencode)) : Bencode := .dict (SortedMap.ofList entries)

structure PingRequest where
  transId : Bytes
  nodeId : NodeId
  deriving DecidableEq

structure FindNodeRequest where
  transId : Bytes
  nodeId : NodeId
  targetId : NodeId
  deriving DecidableEq

structure GetPeersRequest where
  transId : Bytes
  nodeId : NodeId
  infoHash : InfoHash
  deriving DecidableEq

inductive ConnectPort where
  | implied
  | explicit (port : UInt16)
  deriving DecidableEq

structure AnnouncePeerRequest where
  transId : Bytes
  nodeId : NodeId
  infoHash : InfoHash
  token : Bytes
  port : ConnectPort
  deriving DecidableEq

structure ActingResponse where
  transId : Bytes
  nodeId : NodeId
  deriving DecidableEq

abbrev PingResponse := ActingResponse

abbrev AnnouncePeerResponse := ActingResponse

structure FindNodeResponse where
  transId : Bytes
  nodeId : NodeId
  nodes : CompactNodeInfo
  deriving DecidableEq

inductive CompactInfoType where
  | nodes (info : CompactNodeInfo)
  | values (info : CompactValueInfo)
  | both (nodes : CompactNodeInfo) (values : CompactValueInfo)
  deriving DecidableEq

structure GetPeersResponse where
  transId : Bytes
  nodeId : NodeId
  token : Option Bytes
  infoType : CompactInfoType
  deriving DecidableEq

inductive ErrorCode where
  | genericError | serverError | protocolError | methodUnknown
  deriving DecidableEq

structure ErrorMessage where
  transId : Bytes
  code : ErrorCode
  message : Str
  deriving DecidableEq

inductive RequestType where
  | ping (request : PingRequest)
  | findNode (request : FindNodeRequest)
  | getPeers (request : GetPeersRequest)
  | announcePeer (request : AnnouncePeerRequest)
  deriving DecidableEq

inductive ResponseType where
  | ping (response : PingResponse)
  | findNode (response : FindNodeResponse)
  | getPeers (response : GetPeersResponse)
  | announcePeer (response : AnnouncePeerResponse)
  | acting (response : ActingResponse)
  deriving DecidableEq

inductive MessageType where
  | request (request : RequestType)
  | response (response : ResponseType)
  | error (error : ErrorMessage)
  deriving DecidableEq

/-- The kinds of `DhtError` that reading a message returns. -/
inductive DhtError where
  | bencode (error : BencodeConvertError)
  | invalidMessage (code : Str)
  | invalidResponse (details : Str)
  | unsolicitedResponse
  | invalidRequest (msg : ErrorMessage)
  deriving DecidableEq

abbrev DhtResult := Outcome DhtError

def genericErrorCode : UInt8 := 201
def serverErrorCode : UInt8 := 202
def protocolErrorCode : UInt8 := 203
def methodUnknownCode : UInt8 := 204
def numErrorArgs : Nat := 2

def ErrorCode.toU8 : ErrorCode → UInt8
  | .genericError => genericErrorCode
  | .serverError => serverErrorCode
  | .protocolError => protocolErrorCode
  | .methodUnknown => methodUnknownCode

def ErrorCode.new (code : UInt8) : DhtResult ErrorCode :=
  if code = genericErrorCode then .ok .genericError
  else if code = serverErrorCode then .ok .serverError
  else if code = protocolErrorCode then .ok .protocolError
  else if code = methodUnknownCode then .ok .methodUnknown
  else .err (.invalidResponse (Str.concat
    [Str.ofAscii "Error Message Invalid Error Code ", Str.ofNat code.toNat]))

section Encode

/-- The three entries every request has, around its arguments. -/
def requestMap (transId method : Bytes) (args : Bencode) : Bencode :=
  benMap [(transactionIdKey, .bytes transId), (messageTypeKey, .bytes requestTypeKey),
    (requestTypeKey, .bytes method), (requestArgsKey, args)]

def responseMap (transId : Bytes) (args : Bencode) : Bencode :=
  benMap [(transactionIdKey, .bytes transId), (messageTypeKey, .bytes responseTypeKey),
    (responseTypeKey, args)]

def PingRequest.value (m : PingRequest) : Bencode :=
  requestMap m.transId pingTypeKey (benMap [(nodeIdKey, .bytes m.nodeId.asRef)])

def FindNodeRequest.value (m : FindNodeRequest) : Bencode :=
  requestMap m.transId findNodeTypeKey
    (benMap [(nodeIdKey, .bytes m.nodeId.asRef), (targetIdKey, .bytes m.targetId.asRef)])

def GetPeersRequest.value (m : GetPeersRequest) : Bencode :=
  requestMap m.transId getPeersTypeKey
    (benMap [(nodeIdKey, .bytes m.nodeId.asRef), (infoHashKey, .bytes m.infoHash.asRef)])

/-- The port that is shown and the value of `implied_port`. -/
def ConnectPort.shown : ConnectPort → UInt16 × Int64
  | .implied => (0, 1)
  | .explicit n => (n, 0)

def AnnouncePeerRequest.value (m : AnnouncePeerRequest) : Bencode :=
  requestMap m.transId announcePeerTypeKey
    (benMap [(nodeIdKey, .bytes m.nodeId.asRef), (impliedPortKey, .int m.port.shown.2),
      (infoHashKey, .bytes m.infoHash.asRef), (portKey, .int m.port.shown.1.toUInt64.toInt64),
      (tokenKey, .bytes m.token)])

def ActingResponse.value (m : ActingResponse) : Bencode :=
  responseMap m.transId (benMap [(nodeIdKey, .bytes m.nodeId.asRef)])

def FindNodeResponse.value (m : FindNodeResponse) : Bencode :=
  responseMap m.transId
    (benMap [(nodeIdKey, .bytes m.nodeId.asRef), (nodesKey, .bytes m.nodes.nodes)])

def valuesList (info : CompactValueInfo) : Bencode := .list (info.values.map .bytes)

def CompactInfoType.entries : CompactInfoType → List (Bytes × Bencode)
  | .nodes info => [(nodesKey, .bytes info.nodes)]
  | .values info => [(valuesKey, valuesList info)]
  | .both info peers => [(nodesKey, .bytes info.nodes), (valuesKey, valuesList peers)]

def tokenEntries : Option Bytes → List (Bytes × Bencode)
  | some token => [(tokenKey, .bytes token)]
  | none => []

def GetPeersResponse.value (m : GetPeersResponse) : Bencode :=
  responseMap m.transId
    (benMap ((nodeIdKey, .bytes m.nodeId.asRef) :: (tokenEntries m.token ++ m.infoType.entries)))

def ErrorMessage.value (m : ErrorMessage) : Bencode :=
  benMap [(transactionIdKey, .bytes m.transId), (messageTypeKey, .bytes errorTypeKey),
    (errorTypeKey, .list [.int m.code.toU8.toUInt64.toInt64, .bytes m.message.bytes])]

def FindNodeRequest.encode (m : FindNodeRequest) : Bytes := BencodeEncode.encode m.value
def GetPeersRequest.encode (m : GetPeersRequest) : Bytes := BencodeEncode.encode m.value
def AnnouncePeerRequest.encode (m : AnnouncePeerRequest) : Bytes := BencodeEncode.encode m.value
def ActingResponse.encode (m : ActingResponse) : Bytes := BencodeEncode.encode m.value
def FindNodeResponse.encode (m : FindNodeResponse) : Bytes := BencodeEncode.encode m.value
def GetPeersResponse.encode (m : GetPeersResponse) : Bytes := BencodeEncode.encode m.value
def ErrorMessage.encode (m : ErrorMessage) : Bytes := BencodeEncode.encode m.value

end Encode

section Read

def requestNodeId (transId nodeId : Bytes) : DhtResult NodeId :=
  match fromHash nodeId with
  | some id => .ok id
  | none => .err (.invalidRequest ⟨transId, .protocolError, Str.concat
      [Str.ofAscii "Node ID With Length ", Str.ofNat nodeId.length,
        Str.ofAscii " Is Not Valid"]⟩)

def requestInfoHash (transId infoHash : Bytes) : DhtResult InfoHash :=
  match fromHash infoHash with
  | some hash => .ok hash
  | none => .err (.invalidRequest ⟨transId, .protocolError, Str.concat
      [Str.ofAscii "InfoHash With Length ", Str.ofNat infoHash.length,
        Str.ofAscii " Is Not Valid"]⟩)

def responseNodeId (transId nodeId : Bytes) : DhtResult NodeId :=
  match fromHash nodeId with
  | some id => .ok id
  | none => .err (.invalidResponse (Str.concat
      [Str.ofAscii "TID ", Str.debugBytes transId,
        Str.ofAscii " Found Node ID With Invalid Length ", Str.ofNat nodeId.length]))

def validateNodes (transId nodes : Bytes) : DhtResult CompactNodeInfo :=
  match CompactNodeInfo.new nodes with
  | some info => .ok info
  | none => .err (.invalidResponse (Str.concat
      [Str.ofAscii "TID ", Str.debugBytes transId, Str.ofAscii " Found Nodes Structure With ",
        Str.ofNat nodes.length, Str.ofAscii " Number Of Bytes Instead Of Correct Multiple"]))

def collectPeers (transId : Bytes) : List Bencode → DhtResult (List Bytes)
  | [] => .ok []
  | v :: rest =>
    match bytes v with
    | some peer => do
      let peers ← collectPeers transId rest
      pure (peer :: peers)
    | none => .err (.invalidResponse (Str.concat
        [Str.ofAscii "TID ", Str.debugBytes transId,
          Str.ofAscii " Found Values Structure As Non Bytes Type"]))

def validateValues (transId : Bytes) (values : List Bencode) : DhtResult CompactValueInfo := do
  let peers ← collectPeers transId values
  match CompactValueInfo.new peers with
  | some info => .ok info
  | none => .err (.invalidResponse (Str.concat
      [Str.ofAscii "TID ", Str.debugBytes transId,
        Str.ofAscii " Found Values Structrue With Wrong Number Of Bytes"]))

def PingRequest.fromParts (root : Dict) (transId : Bytes) : DhtResult PingRequest := do
  let nodeId ← requestNodeId transId (← lookupAndConvertBytes .bencode root nodeIdKey)
  pure ⟨transId, nodeId⟩

def FindNodeRequest.fromParts (root : Dict) (transId targetKey : Bytes) :
    DhtResult FindNodeRequest := do
  let nodeId ← requestNodeId transId (← lookupAndConvertBytes .bencode root nodeIdKey)
  let targetId ← requestNodeId transId (← lookupAndConvertBytes .bencode root targetKey)
  pure ⟨transId, nodeId, targetId⟩

def GetPeersRequest.fromParts (root : Dict) (transId : Bytes) : DhtResult GetPeersRequest := do
  let nodeId ← requestNodeId transId (← lookupAndConvertBytes .bencode root nodeIdKey)
  let infoHash ← requestInfoHash transId (← lookupAndConvertBytes .bencode root infoHashKey)
  pure ⟨transId, nodeId, infoHash⟩

/-- Whether `implied_port` is an integer other than zero. -/
def portImplied (root : Dict) : Bool :=
  match (SortedMap.lookup impliedPortKey root).map int with
  | some (some n) => n ≠ 0
  | _ => false

def AnnouncePeerRequest.fromParts (root : Dict) (transId : Bytes) :
    DhtResult AnnouncePeerRequest := do
  let nodeId ← requestNodeId transId (← lookupAndConvertBytes .bencode root nodeIdKey)
  let infoHash ← requestInfoHash transId (← lookupAndConvertBytes .bencode root infoHashKey)
  let token ← lookupAndConvertBytes .bencode root tokenKey
  if portImplied root then
    pure ⟨transId, nodeId, infoHash, token, .implied⟩
  else
    let port ← lookupAndConvertInt .bencode root portKey
    pure ⟨transId, nodeId, infoHash, token, .explicit port.toUInt64.toUInt16⟩

/-- Validated as a request, so its error answers the sender. -/
def ActingResponse.fromParts (root : Dict) (transId : Bytes) : DhtResult ActingResponse := do
  let nodeId ← requestNodeId transId (← lookupAndConvertBytes .bencode root nodeIdKey)
  pure ⟨transId, nodeId⟩

def FindNodeResponse.new (transId : Bytes) (nodeId : NodeId) (nodes : Bytes) :
    DhtResult FindNodeResponse := do
  let compactNodes ← validateNodes transId nodes
  pure ⟨transId, nodeId, compactNodes⟩

def FindNodeResponse.fromParts (root : Dict) (transId : Bytes) : DhtResult FindNodeResponse := do
  let nodeId ← responseNodeId transId (← lookupAndConvertBytes .bencode root nodeIdKey)
  let nodes ← lookupAndConvertBytes .bencode root nodesKey
  FindNodeResponse.new transId nodeId nodes

/-- `Result::ok` on a lookup, which neither panics nor is cut off. -/
def found {α : Type} : DhtResult α → Option α
  | .ok a => some a
  | _ => none

def readInfoType (root : Dict) (transId : Bytes) : DhtResult CompactInfoType :=
  match found (lookupAndConvertBytes .bencode root nodesKey),
      found (lookupAndConvertList .bencode root valuesKey) with
  | some nodes, some values => do
    let nodesInfo ← validateNodes transId nodes
    let valuesInfo ← validateValues transId values
    pure (.both nodesInfo valuesInfo)
  | some nodes, none => do
    let nodesInfo ← validateNodes transId nodes
    pure (.nodes nodesInfo)
  | none, some values => do
    let valuesInfo ← validateValues transId values
    pure (.values valuesInfo)
  | none, none =>
    .err (.invalidResponse (Str.ofAscii "Failed To Find nodes Or values In Node Response"))

def GetPeersResponse.fromParts (root : Dict) (transId : Bytes) : DhtResult GetPeersResponse := do
  let nodeId ← responseNodeId transId (← lookupAndConvertBytes .bencode root nodeIdKey)
  let token := found (lookupAndConvertBytes .bencode root tokenKey)
  let infoType ← readInfoType root transId
  pure ⟨transId, nodeId, token, infoType⟩

/-- `args.get(i).unwrap()` -/
def argAt (args : List Bencode) (i : Nat) : DhtResult Bencode :=
  match args[i]? with
  | some v => .ok v
  | none => .panic

def extractErrorArgs (args : List Bencode) : DhtResult (UInt8 × Str) :=
  if args.length ≠ numErrorArgs then
    .err (.invalidResponse (Str.concat
      [Str.ofAscii "Error Message Invalid Number Of Error Args: ", Str.ofNat args.length]))
  else do
    let code ← convertInt .bencode (← argAt args 0) (errorArgsKey ++ text "[0]")
    let message ← convertStr .bencode (← argAt args 1) (errorArgsKey ++ text "[1]")
    pure (code.toUInt64.toUInt8, message)

def ErrorMessage.fromParts (root : Dict) (transId : Bytes) : DhtResult ErrorMessage := do
  let errorArgs ← lookupAndConvertList .bencode root errorArgsKey
  let (code, message) ← extractErrorArgs errorArgs
  let errorCode ← ErrorCode.new code
  pure ⟨transId, errorCode, message⟩

def forwardCompatibleFindNode (root : Dict) : Option Bytes :=
  match SortedMap.lookup targetIdKey root, SortedMap.lookup infoHashKey root with
  | some _, _ => some targetIdKey
  | none, some _ => some infoHashKey
  | none, none => none

def RequestType.fromParts (root : Dict) (transId : Bytes) (rqstType : Str) :
    DhtResult RequestType := do
  let rqstRoot ← lookupAndConvertDict .bencode root requestArgsKey
  if rqstType.bytes = pingTypeKey then
    return .ping (← PingRequest.fromParts rqstRoot transId)
  else if rqstType.bytes = findNodeTypeKey then
    return .findNode (← FindNodeRequest.fromParts rqstRoot transId targetIdKey)
  else if rqstType.bytes = getPeersTypeKey then
    return .getPeers (← GetPeersRequest.fromParts rqstRoot transId)
  else if rqstType.bytes = announcePeerTypeKey then
    return .announcePeer (← AnnouncePeerRequest.fromParts rqstRoot transId)
  else match forwardCompatibleFindNode rqstRoot with
    | some targetKey => return .findNode (← FindNodeRequest.fromParts rqstRoot transId targetKey)
    | none => .err (.invalidRequest ⟨transId, .methodUnknown, Str.concat
        [Str.ofAscii "Received Unknown Request Method: ", rqstType]⟩)

def ResponseType.fromParts (root : Dict) (transId : Bytes) : DhtResult ResponseType := do
  let rspRoot ← lookupAndConvertDict .bencode root responseArgsKey
  if (SortedMap.lookup tokenKey rspRoot).isSome then
    return .getPeers (← GetPeersResponse.fromParts rspRoot transId)
  else if (SortedMap.lookup nodesKey rspRoot).isSome then
    return .findNode (← FindNodeResponse.fromParts rspRoot transId)
  else
    return .acting (← ActingResponse.fromParts rspRoot transId)

def MessageType.new (message : Bencode) : DhtResult MessageType := do
  let msgRoot ← convertDict .bencode message rootIdKey
  let transId ← lookupAndConvertBytes .bencode msgRoot transactionIdKey
  let msgType ← lookupAndConvertStr .bencode msgRoot messageTypeKey
  if msgType.bytes = requestTypeKey then
    let rqstType ← lookupAndConvertStr .bencode msgRoot requestTypeKey
    return .request (← RequestType.fromParts msgRoot transId rqstType)
  else if msgType.bytes = responseTypeKey then
    return .response (← ResponseType.fromParts msgRoot transId)
  else if msgType.bytes = errorTypeKey then
    return .error (← ErrorMessage.fromParts msgRoot transId)
  else
    .err (.invalidMessage msgType)

end Read

end DhtMessage
