import Bittorrent.Dht.Message

/-!
Reading a message always returns: the only index into a list is behind a check of its length.
-/
namespace DhtParsing
open Rust Outcome BencodeValue BencodeConvert DhtMessage

theorem request_node_id_settled (transId nodeId : Bytes) :
    Settled (requestNodeId transId nodeId) := by
  unfold requestNodeId
  split
  · exact settled_ok _
  · exact settled_err _

theorem request_info_hash_settled (transId infoHash : Bytes) :
    Settled (requestInfoHash transId infoHash) := by
  unfold requestInfoHash
  split
  · exact settled_ok _
  · exact settled_err _

theorem response_node_id_settled (transId nodeId : Bytes) :
    Settled (responseNodeId transId nodeId) := by
  unfold responseNodeId
  split
  · exact settled_ok _
  · exact settled_err _

theorem validate_nodes_settled (transId nodes : Bytes) : Settled (validateNodes transId nodes) := by
  unfold validateNodes
  split
  · exact settled_ok _
  · exact settled_err _

theorem collect_peers_settled (transId : Bytes) (values : List Bencode) :
    Settled (collectPeers transId values) := by
  induction values with
  | nil => exact settled_ok _
  | cons v rest ih =>
    unfold collectPeers
    split
    · exact settled_map ih
    · exact settled_err _

theorem validate_values_settled (transId : Bytes) (values : List Bencode) :
    Settled (validateValues transId values) := by
  refine settled_bind (collect_peers_settled transId values) fun peers => ?_
  split
  · exact settled_ok _
  · exact settled_err _

section Requests
variable (root : Dict) (transId : Bytes)

theorem field_settled {α β : Type} {read : Bytes → DhtResult α} {f : α → DhtResult β} (key : Bytes)
    (reads : ∀ bytes, Settled (read bytes)) (rest : ∀ a, Settled (f a)) :
    Settled (lookupAndConvertBytes DhtError.bencode root key >>= fun bytes => read bytes >>= f) :=
  settled_bind lookup_and_convert_settled fun bytes => settled_bind (reads bytes) rest

theorem ping_settled : Settled (PingRequest.fromParts root transId) :=
  field_settled root nodeIdKey (request_node_id_settled transId) fun _ => settled_ok _

theorem find_node_settled (targetKey : Bytes) :
    Settled (FindNodeRequest.fromParts root transId targetKey) :=
  field_settled root nodeIdKey (request_node_id_settled transId) fun _ =>
    field_settled root targetKey (request_node_id_settled transId) fun _ => settled_ok _

theorem get_peers_settled : Settled (GetPeersRequest.fromParts root transId) :=
  field_settled root nodeIdKey (request_node_id_settled transId) fun _ =>
    field_settled root infoHashKey (request_info_hash_settled transId) fun _ => settled_ok _

theorem announce_peer_settled : Settled (AnnouncePeerRequest.fromParts root transId) := by
  refine field_settled root nodeIdKey (request_node_id_settled transId) fun _ => ?_
  refine field_settled root infoHashKey (request_info_hash_settled transId) fun _ => ?_
  refine settled_bind lookup_and_convert_settled fun token => ?_
  split
  · exact settled_ok _
  · exact settled_map lookup_and_convert_settled

theorem request_settled (rqstType : Str) :
    Settled (RequestType.fromParts root transId rqstType) := by
  apply settled_bind lookup_and_convert_settled
  intro rqstRoot
  split
  · exact settled_map (ping_settled rqstRoot transId)
  split
  · exact settled_map (find_node_settled rqstRoot transId targetIdKey)
  split
  · exact settled_map (get_peers_settled rqstRoot transId)
  split
  · exact settled_map (announce_peer_settled rqstRoot transId)
  split
  · exact settled_map (find_node_settled rqstRoot transId _)
  · exact settled_err _

end Requests

section Responses
variable (root : Dict) (transId : Bytes)

theorem acting_settled : Settled (ActingResponse.fromParts root transId) :=
  field_settled root nodeIdKey (request_node_id_settled transId) fun _ => settled_ok _

theorem find_node_response_settled : Settled (FindNodeResponse.fromParts root transId) :=
  field_settled root nodeIdKey (response_node_id_settled transId) fun _ =>
    field_settled root nodesKey (validate_nodes_settled transId) fun _ => settled_ok _

theorem read_info_type_settled : Settled (readInfoType root transId) := by
  unfold readInfoType
  split
  · apply settled_bind (validate_nodes_settled transId _)
    intro nodes
    exact settled_map (validate_values_settled transId _)
  · exact settled_map (validate_nodes_settled transId _)
  · exact settled_map (validate_values_settled transId _)
  · exact settled_err _

theorem get_peers_response_settled : Settled (GetPeersResponse.fromParts root transId) :=
  field_settled root nodeIdKey (response_node_id_settled transId) fun _ =>
    settled_map (read_info_type_settled root transId)

theorem response_settled : Settled (ResponseType.fromParts root transId) := by
  apply settled_bind lookup_and_convert_settled
  intro rspRoot
  split
  · exact settled_map (get_peers_response_settled rspRoot transId)
  split
  · exact settled_map (find_node_response_settled rspRoot transId)
  · exact settled_map (acting_settled rspRoot transId)

end Responses

/-- Both arguments are there once there are two. -/
theorem extract_error_args_settled (args : List Bencode) : Settled (extractErrorArgs args) := by
  unfold extractErrorArgs
  split
  · exact settled_err _
  · rename_i two
    have enough : args.length = 2 := not_not.mp two
    have present : ∀ i, i < 2 → Settled (argAt args i) := by
      intro i small
      unfold argAt
      rw [List.getElem?_eq_getElem (by omega)]
      exact settled_ok _
    apply settled_bind (present 0 (by decide))
    intro code
    apply settled_bind convert_settled
    intro number
    apply settled_bind (present 1 (by decide))
    intro message
    exact settled_map convert_settled

theorem error_code_settled (code : UInt8) : Settled (ErrorCode.new code) := by
  unfold ErrorCode.new
  iterate 4 refine settled_ite (fun _ => settled_ok _) fun _ => ?_
  exact settled_err _

theorem error_settled (root : Dict) (transId : Bytes) :
    Settled (ErrorMessage.fromParts root transId) := by
  apply settled_bind lookup_and_convert_settled
  intro args
  apply settled_bind (extract_error_args_settled args)
  rintro ⟨code, message⟩
  exact settled_map (error_code_settled code)

theorem message_settled (v : Bencode) : Settled (MessageType.new v) := by
  apply settled_bind convert_settled
  intro root
  apply settled_bind lookup_and_convert_settled
  intro transId
  apply settled_bind lookup_and_convert_settled
  intro msgType
  split
  · apply settled_bind lookup_and_convert_settled
    intro rqstType
    exact settled_map (request_settled root transId rqstType)
  split
  · exact settled_map (response_settled root transId)
  split
  · exact settled_map (error_settled root transId)
  · exact settled_err _

end DhtParsing
