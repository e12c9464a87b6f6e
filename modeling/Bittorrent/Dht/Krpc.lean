import Bittorrent.Bencode.RoundTrip
import Bittorrent.Dht.Message

/-!
Writing a message and reading it back. A get_peers response without a token has no key that
tells it from the other responses; every other message returns as it was.
-/
namespace DhtKrpc
open Rust Outcome UtilSha BencodeValue BencodeEncode BencodeDecode BencodeRoundTrip BencodeConvert
  DhtNode DhtCompact DhtMessage SortedMap

/-- The bencode behind `encode` of the message that is held. -/
def requestValue : RequestType → Bencode
  | .ping m => m.value
  | .findNode m => m.value
  | .getPeers m => m.value
  | .announcePeer m => m.value

def responseValue : ResponseType → Bencode
  | .ping m => m.value
  | .findNode m => m.value
  | .getPeers m => m.value
  | .announcePeer m => m.value
  | .acting m => m.value

def messageValue : MessageType → Bencode
  | .request m => requestValue m
  | .response m => responseValue m
  | .error m => m.value

def encodeMessage (m : MessageType) : Bytes := BencodeEncode.encode (messageValue m)

/-- What a reader makes of a response: ping and announce_peer both return as acting. -/
def readAs : MessageType → MessageType
  | .response (.ping m) => .response (.acting m)
  | .response (.announcePeer m) => .response (.acting m)
  | m => m

/-- A get_peers response without a token. -/
def tokenless : MessageType → Bool
  | .response (.getPeers m) => m.token.isNone
  | _ => false

variable {args : Bencode} (m : MessageType)

section Shape

theorem shallow_ben_map {entries : List (Bytes × Bencode)} {bound : Nat}
    (all : ∀ e ∈ entries, Shallow e.2 bound) : Shallow (benMap entries) (bound + 1) :=
  shallow_dict (of_list_sorted entries) fun e member => all e (mem_of_list member)

theorem shallow_values (info : CompactValueInfo) : Shallow (valuesList info) 2 :=
  shallow_strings _ _

theorem shallow_request {transId method : Bytes} (inner : Shallow args 3) :
    Shallow (requestMap transId method args) 4 := by
  apply shallow_ben_map
  simp [inner]

theorem shallow_response {transId : Bytes} (inner : Shallow args 3) :
    Shallow (responseMap transId args) 4 := by
  apply shallow_ben_map
  simp [inner]

theorem shallow_get_peers (m : GetPeersResponse) : Shallow m.value 4 := by
  apply shallow_response
  apply shallow_ben_map
  have token : ∀ e ∈ tokenEntries m.token, Shallow e.2 2 := by
    cases m.token <;> simp [tokenEntries]
  have info : ∀ e ∈ m.infoType.entries, Shallow e.2 2 := by
    cases m.infoType <;> simp [CompactInfoType.entries, shallow_values]
  exact List.forall_mem_cons.mpr ⟨shallow_bytes _, List.forall_mem_append.mpr ⟨token, info⟩⟩

/-- Root, arguments, a list in the arguments and its items: four levels at most. -/
theorem shallow_message : Shallow (messageValue m) 4 := by
  cases m with
  | request m =>
    cases m with
    | _ m => exact shallow_request (shallow_ben_map (by simp))
  | response m =>
    cases m with
    | getPeers m => exact shallow_get_peers m
    | _ m => exact shallow_response (shallow_ben_map (by simp))
  | error m =>
    apply shallow_ben_map
    have args : Shallow (.list [.int m.code.toU8.toUInt64.toInt64, .bytes m.message.bytes]) 3 :=
      shallow_list (by simp)
    simp [args]

end Shape

section Reading

section
variable (transId : Bytes)
include transId

theorem request_node_id (id : NodeId) : requestNodeId transId id.asRef = .ok id := by
  simp [requestNodeId, from_hash_as_ref]

theorem request_info_hash (hash : InfoHash) : requestInfoHash transId hash.asRef = .ok hash := by
  simp [requestInfoHash, from_hash_as_ref]

theorem response_node_id (id : NodeId) : responseNodeId transId id.asRef = .ok id := by
  simp [responseNodeId, from_hash_as_ref]

theorem validate_nodes_info (info : CompactNodeInfo) : validateNodes transId info.nodes = .ok info := by
  simp [validateNodes, CompactNodeInfo.new, info.size]

theorem collect_peers_bytes (values : List Bytes) :
    collectPeers transId (values.map .bytes) = .ok values := by
  induction values with
  | nil => rfl
  | cons value rest ih => simp [collectPeers, bytes, ih]

theorem validate_values_info (info : CompactValueInfo) :
    validateValues transId (info.values.map .bytes) = .ok info := by
  obtain ⟨values, size⟩ := info
  unfold validateValues
  rw [collect_peers_bytes, ok_bind]
  simp only [CompactValueInfo.new]
  rw [dif_pos size]

end

theorem error_code_new (code : ErrorCode) : ErrorCode.new code.toU8 = .ok code := by
  cases code <;> rfl

theorem convert_str_bytes (s : Str) (key : Bytes) :
    convertStr DhtError.bencode (.bytes s.bytes) key = .ok s := by
  simp [convertStr, convert, str, bytes, from_utf8_bytes]

def requestRoot (transId method : Bytes) (args : Bencode) : Dict :=
  ofList [(transactionIdKey, .bytes transId), (messageTypeKey, .bytes requestTypeKey),
    (requestTypeKey, .bytes method), (requestArgsKey, args)]

def responseRoot (transId : Bytes) (args : Bencode) : Dict :=
  ofList [(transactionIdKey, .bytes transId), (messageTypeKey, .bytes responseTypeKey),
    (responseTypeKey, args)]

variable {transId : Bytes}

/-- A request returns as what the reader of its method makes of the arguments. -/
theorem new_request {α : Type} (method : Str) {parts : DhtResult α} {wrap : α → RequestType} {m : α}
    (dispatch : RequestType.fromParts (requestRoot transId method.bytes args) transId method = (do return wrap (← parts)))
    (read : parts = .ok m) :
    MessageType.new (requestMap transId method.bytes args) = .ok (.request (wrap m)) := by
  have named : lookupAndConvertStr DhtError.bencode (requestRoot transId method.bytes args)
      requestTypeKey = .ok method := convert_str_bytes method requestTypeKey
  change (do
    let rqstType ← lookupAndConvertStr DhtError.bencode
      (requestRoot transId method.bytes args) requestTypeKey
    return MessageType.request
      (← RequestType.fromParts (requestRoot transId method.bytes args) transId rqstType)) = _
  rw [named, ok_bind, dispatch, read]
  rfl

theorem new_response {α : Type} (wrap : α → ResponseType) {parts : DhtResult α} {m : α}
    (dispatch : ResponseType.fromParts (responseRoot transId args) transId = (do return wrap (← parts)))
    (read : parts = .ok m) :
    MessageType.new (responseMap transId args) = .ok (.response (wrap m)) := by
  change (do
    return MessageType.response (← ResponseType.fromParts (responseRoot transId args) transId)) = _
  rw [dispatch, read]
  rfl

theorem ping_read (m : PingRequest) :
    MessageType.new m.value = .ok (.request (.ping m)) := by
  let args : Dict := ofList [(nodeIdKey, .bytes m.nodeId.asRef)]
  have id : lookupAndConvertBytes DhtError.bencode args nodeIdKey = .ok m.nodeId.asRef := rfl
  have parts : PingRequest.fromParts args m.transId = .ok m := by
    simp [PingRequest.fromParts, id, request_node_id]
  exact new_request (Str.ofAscii "ping") rfl parts

theorem find_node_read (m : FindNodeRequest) :
    MessageType.new m.value = .ok (.request (.findNode m)) := by
  let args : Dict := ofList
    [(nodeIdKey, .bytes m.nodeId.asRef), (targetIdKey, .bytes m.targetId.asRef)]
  have id : lookupAndConvertBytes DhtError.bencode args nodeIdKey = .ok m.nodeId.asRef := rfl
  have target : lookupAndConvertBytes DhtError.bencode args targetIdKey =
      .ok m.targetId.asRef := rfl
  have parts : FindNodeRequest.fromParts args m.transId targetIdKey = .ok m := by
    simp [FindNodeRequest.fromParts, id, target, request_node_id]
  exact new_request (Str.ofAscii "find_node") rfl parts

theorem get_peers_read (m : GetPeersRequest) :
    MessageType.new m.value = .ok (.request (.getPeers m)) := by
  let args : Dict := ofList
    [(nodeIdKey, .bytes m.nodeId.asRef), (infoHashKey, .bytes m.infoHash.asRef)]
  have id : lookupAndConvertBytes DhtError.bencode args nodeIdKey = .ok m.nodeId.asRef := rfl
  have hash : lookupAndConvertBytes DhtError.bencode args infoHashKey =
      .ok m.infoHash.asRef := rfl
  have parts : GetPeersRequest.fromParts args m.transId = .ok m := by
    simp [GetPeersRequest.fromParts, id, hash, request_node_id, request_info_hash]
  exact new_request (Str.ofAscii "get_peers") rfl parts

theorem announce_peer_read (m : AnnouncePeerRequest) :
    MessageType.new m.value = .ok (.request (.announcePeer m)) := by
  obtain ⟨transId, nodeId, infoHash, token, connect⟩ := m
  let args : Dict := ofList
    [(nodeIdKey, .bytes nodeId.asRef), (impliedPortKey, .int connect.shown.2),
      (infoHashKey, .bytes infoHash.asRef), (portKey, .int connect.shown.1.toUInt64.toInt64),
      (tokenKey, .bytes token)]
  have id : lookupAndConvertBytes DhtError.bencode args nodeIdKey = .ok nodeId.asRef := rfl
  have hash : lookupAndConvertBytes DhtError.bencode args infoHashKey = .ok infoHash.asRef := rfl
  have given : lookupAndConvertBytes DhtError.bencode args tokenKey = .ok token := rfl
  have shown : lookupAndConvertInt DhtError.bencode args portKey =
      .ok connect.shown.1.toUInt64.toInt64 := rfl
  have implied : portImplied args = decide (connect.shown.2 ≠ 0) := rfl
  have parts : AnnouncePeerRequest.fromParts args transId =
      .ok ⟨transId, nodeId, infoHash, token, connect⟩ := by
    simp only [AnnouncePeerRequest.fromParts, id, hash, given, shown, implied, ok_bind,
      request_node_id, request_info_hash]
    cases connect with
    | implied => rfl
    | explicit n => simp [ConnectPort.shown]
  exact new_request (Str.ofAscii "announce_peer") rfl parts

theorem acting_parts {args : Dict} {nodeId : NodeId}
    (id : lookupAndConvertBytes DhtError.bencode args nodeIdKey = .ok nodeId.asRef) :
    ActingResponse.fromParts args transId = .ok ⟨transId, nodeId⟩ := by
  simp [ActingResponse.fromParts, id, request_node_id]

theorem acting_read (m : ActingResponse) :
    MessageType.new m.value = .ok (.response (.acting m)) := by
  let args : Dict := ofList [(nodeIdKey, .bytes m.nodeId.asRef)]
  have parts : ActingResponse.fromParts args m.transId = .ok m := acting_parts rfl
  exact new_response .acting rfl parts

theorem find_node_parts {args : Dict} {nodeId : NodeId} {info : CompactNodeInfo}
    (id : lookupAndConvertBytes DhtError.bencode args nodeIdKey = .ok nodeId.asRef)
    (nodes : lookupAndConvertBytes DhtError.bencode args nodesKey = .ok info.nodes) :
    FindNodeResponse.fromParts args transId = .ok ⟨transId, nodeId, info⟩ := by
  simp [FindNodeResponse.fromParts, FindNodeResponse.new, id, nodes, response_node_id,
    validate_nodes_info]

theorem find_node_response_read (m : FindNodeResponse) :
    MessageType.new m.value = .ok (.response (.findNode m)) := by
  let args : Dict := ofList
    [(nodeIdKey, .bytes m.nodeId.asRef), (nodesKey, .bytes m.nodes.nodes)]
  have parts : FindNodeResponse.fromParts args m.transId = .ok m := find_node_parts rfl rfl
  exact new_response .findNode rfl parts

def getPeersArgs (m : GetPeersResponse) : Dict :=
  ofList
    ((nodeIdKey, .bytes m.nodeId.asRef) :: (tokenEntries m.token ++ m.infoType.entries))

theorem info_type_read (transId : Bytes) (nodeId : NodeId) (token : Bytes)
    (info : CompactInfoType) :
    readInfoType (getPeersArgs ⟨transId, nodeId, some token, info⟩) transId = .ok info := by
  cases info with
  | nodes compact =>
    change (do return CompactInfoType.nodes (← validateNodes transId compact.nodes)) = _
    rw [validate_nodes_info]
    rfl
  | values peers =>
    change (do
      return CompactInfoType.values (← validateValues transId (peers.values.map .bytes))) = _
    rw [validate_values_info]
    rfl
  | both compact peers =>
    change (do
      let nodesInfo ← validateNodes transId compact.nodes
      let valuesInfo ← validateValues transId (peers.values.map .bytes)
      pure (CompactInfoType.both nodesInfo valuesInfo)) = _
    rw [validate_nodes_info, validate_values_info]
    rfl

theorem get_peers_response_read (m : GetPeersResponse) (held : m.token.isSome) :
    MessageType.new m.value = .ok (.response (.getPeers m)) := by
  obtain ⟨transId, nodeId, token, info⟩ := m
  obtain ⟨token, rfl⟩ := Option.isSome_iff_exists.mp held
  let m : GetPeersResponse := ⟨transId, nodeId, some token, info⟩
  have id : lookupAndConvertBytes DhtError.bencode (getPeersArgs m) nodeIdKey =
      .ok nodeId.asRef := by cases info <;> rfl
  have given : lookupAndConvertBytes DhtError.bencode (getPeersArgs m) tokenKey = .ok token := by
    cases info <;> rfl
  have parts : GetPeersResponse.fromParts (getPeersArgs m) transId = .ok m := by
    have read : readInfoType (getPeersArgs m) transId = .ok info :=
      info_type_read transId nodeId token info
    simp [GetPeersResponse.fromParts, id, given, found, read, response_node_id, m]
  have dispatch : ResponseType.fromParts (responseRoot transId (.dict (getPeersArgs m))) transId =
      (do return ResponseType.getPeers (← GetPeersResponse.fromParts (getPeersArgs m) transId)) := by
    cases info <;> rfl
  exact new_response .getPeers dispatch parts

def mistaken (transId : Bytes) (nodeId : NodeId) : CompactInfoType → ResponseType
  | .nodes info => .findNode ⟨transId, nodeId, info⟩
  | .values _ => .acting ⟨transId, nodeId⟩
  | .both info _ => .findNode ⟨transId, nodeId, info⟩

theorem tokenless_read (transId : Bytes) (nodeId : NodeId) (info : CompactInfoType) :
    MessageType.new (GetPeersResponse.value ⟨transId, nodeId, none, info⟩) =
      .ok (.response (mistaken transId nodeId info)) := by
  let args : Dict := getPeersArgs ⟨transId, nodeId, none, info⟩
  cases info with
  | nodes compact | both compact peers =>
    have parts : FindNodeResponse.fromParts args transId = .ok ⟨transId, nodeId, compact⟩ :=
      find_node_parts rfl rfl
    exact new_response .findNode rfl parts
  | values peers =>
    have parts : ActingResponse.fromParts args transId = .ok ⟨transId, nodeId⟩ := acting_parts rfl
    exact new_response .acting rfl parts

theorem error_read (m : ErrorMessage) : MessageType.new m.value = .ok (.error m) := by
  let args : List Bencode := [.int m.code.toU8.toUInt64.toInt64, .bytes m.message.bytes]
  let root : Dict := ofList [(transactionIdKey, .bytes m.transId),
    (messageTypeKey, .bytes errorTypeKey), (errorTypeKey, .list args)]
  have listed : lookupAndConvertList DhtError.bencode root errorArgsKey = .ok args := rfl
  have extracted : extractErrorArgs args = .ok (m.code.toU8, m.message) := by
    have message : convertStr DhtError.bencode (.bytes m.message.bytes)
        (errorArgsKey ++ text "[1]") = .ok m.message := convert_str_bytes _ _
    simp [extractErrorArgs, args, numErrorArgs, argAt, convertInt, convert, int, message]
  have parts : ErrorMessage.fromParts root m.transId = .ok m := by
    simp [ErrorMessage.fromParts, listed, extracted, error_code_new]
  change (do return MessageType.error (← ErrorMessage.fromParts root m.transId)) = _
  rw [parts]
  rfl

end Reading

section Main

theorem message_read (held : tokenless m = false) :
    MessageType.new (messageValue m) = .ok (readAs m) := by
  cases m with
  | request m =>
    cases m with
    | ping m => exact ping_read m
    | findNode m => exact find_node_read m
    | getPeers m => exact get_peers_read m
    | announcePeer m => exact announce_peer_read m
  | response m =>
    cases m with
    | ping m => exact acting_read m
    | findNode m => exact find_node_response_read m
    | getPeers m => exact get_peers_response_read m (by simpa [tokenless] using held)
    | announcePeer m | acting m => exact acting_read m
  | error m => exact error_read m

theorem tokenless_changed {m : MessageType} (missing : tokenless m = true) :
    MessageType.new (messageValue m) ≠ .ok (readAs m) := by
  match m, missing with
  | .response (.getPeers ⟨transId, nodeId, none, info⟩), _ =>
    intro same
    have read : Outcome.ok (.response (mistaken transId nodeId info)) =
        (.ok (.response (.getPeers ⟨transId, nodeId, none, info⟩)) : DhtResult MessageType) :=
      (tokenless_read transId nodeId info).symm.trans same
    cases info <;> simp [mistaken] at read

theorem message_decoded (fits : (encodeMessage m).length ≤ isizeMax) :
    ∃ r, BencodeRef.decode (encodeMessage m) BDecodeOpt.default = .ok r ∧
      r.kind = messageValue m := by
  obtain ⟨sorted, level⟩ := shallow_message m
  obtain ⟨r, decoded, value, _⟩ := decode_encode sorted fits
    (show _ ≤ BDecodeOpt.default.maxRecursion from level.trans (by decide))
  exact ⟨r, decoded, value⟩

/-- Every message comes back from its encoding as it was, with a ping or announce_peer response
    as acting, exactly if it is not a get_peers response without a token. -/
theorem message_round_trip (m : MessageType) (fits : (encodeMessage m).length ≤ isizeMax) :
    (∃ r, BencodeRef.decode (encodeMessage m) BDecodeOpt.default = .ok r ∧
      MessageType.new r.kind = .ok (readAs m)) ↔ tokenless m = false := by
  obtain ⟨r, decoded, value⟩ := message_decoded m fits
  constructor
  · intro ⟨other, reads, kept⟩
    rw [decoded] at reads
    cases reads
    rw [value] at kept
    cases missing : tokenless m with
    | false => rfl
    | true => exact absurd kept (tokenless_changed missing)
  · intro held
    refine ⟨r, decoded, ?_⟩
    rw [value]
    exact message_read m held

def peersFound (token : Option Bytes) : GetPeersResponse where
  transId := text "aa"
  nodeId := ⟨Vector.replicate 20 7⟩
  token := token
  infoType := .both ⟨List.replicate 26 1, rfl⟩ ⟨[[127, 0, 0, 1, 26, 225]], by decide⟩

theorem message_round_trip_peers :
    ∃ r, BencodeRef.decode (encodeMessage (.response (.getPeers (peersFound (some [5])))))
        BDecodeOpt.default = .ok r ∧
      MessageType.new r.kind = .ok (.response (.getPeers (peersFound (some [5])))) :=
  (message_round_trip (.response (.getPeers (peersFound (some [5])))) (by decide)).mpr rfl

/-- Without the token the peers are dropped and the message is taken for a find_node response. -/
theorem tokenless_peers_lost :
    ∃ r, BencodeRef.decode (encodeMessage (.response (.getPeers (peersFound none))))
        BDecodeOpt.default = .ok r ∧
      MessageType.new r.kind = .ok (.response (.findNode
        ⟨text "aa", ⟨Vector.replicate 20 7⟩, ⟨List.replicate 26 1, rfl⟩⟩)) ∧
      MessageType.new r.kind ≠ .ok (.response (.getPeers (peersFound none))) := by
  obtain ⟨r, decoded, value⟩ :=
    message_decoded (.response (.getPeers (peersFound none))) (by decide)
  refine ⟨r, decoded, ?_, ?_⟩
  · rw [value]
    exact tokenless_read _ _ _
  · rw [value]
    exact tokenless_changed rfl

end Main

end DhtKrpc
