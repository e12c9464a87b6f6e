import Bittorrent.Dht.Handler

/-!
Nodes and peers in the compact form of an answer, and what a reader makes of them.
-/
namespace DhtContacts
open Rust Outcome UtilSha DhtNode DhtCompact DhtHandler
variable {ε : Type}

def itemOf (n : Node) : NodeId × SocketAddr := (n.id, n.addr)

theorem encode_v4 {n : Node} (four : n.addr.isV4) :
    (n.encode : Outcome ε Bytes) = .ok (record (itemOf n)) := by
  unfold Node.encode record itemOf
  cases family : n.addr with
  | v4 a b c d port => rfl
  | v6 ip port flowinfo scopeId =>
    rw [family] at four
    cases four

variable {nodes : List Node}

theorem encode_nodes_records (four : ∀ n ∈ nodes, n.addr.isV4) :
    (encodeNodes nodes : Outcome ε Bytes) = .ok ((nodes.map itemOf).flatMap record) := by
  induction nodes with
  | nil => rfl
  | cons n rest ih =>
    obtain ⟨first, others⟩ := List.forall_mem_cons.mp four
    rw [encodeNodes, encode_v4 first, ok_bind, ih others]
    rfl

theorem records_whole (four : ∀ n ∈ nodes, n.addr.isV4) :
    ((nodes.map itemOf).flatMap record).length % bytesPerCompactNodeInfo = 0 := by
  rw [records_length (List.forall_mem_map.mpr four)]
  exact Nat.mul_mod_left _ _

variable {addrs : List SocketAddr}

/-- An IPv6 address among the contacts leaves nothing behind. -/
theorem contact_bytes : addrs.flatMap contactInfo = (addrs.filter SocketAddr.isV4).flatMap socketBytes := by
  induction addrs with
  | nil => rfl
  | cons addr rest ih =>
    rw [List.flatMap_cons, ih]
    cases addr with
    | v4 a b c d port =>
      have low : (port &&& 0x00FF).toUInt8 = port.toUInt8 := by
        simp [← UInt8.toNat_inj, Nat.and_two_pow_sub_one_eq_mod _ 8]
      simp only [contactInfo, low]
      rfl
    | v6 ip port flowinfo scopeId => rfl

theorem chunks_of_sockets (four : ∀ addr ∈ addrs, addr.isV4) :
    ∀ (front : Bytes) {index : Nat}, front.length = index * 6 →
      (contactChunks (front ++ addrs.flatMap socketBytes) addrs.length index : Outcome ε _) =
        .ok (addrs.map socketBytes) := by
  induction addrs with
  | nil => exact fun _ _ _ => rfl
  | cons addr rest ih =>
    intro front index behind
    obtain ⟨first, others⟩ := List.forall_mem_cons.mp four
    have size := (socket_read (ε := ε) first).1
    have later := @ih others (front ++ socketBytes addr) (index + 1) (by simp [size, behind, Nat.add_mul])
    rw [List.append_assoc] at later
    rw [List.flatMap_cons, List.length_cons, contactChunks,
      slice_ok (by omega) (by simp [size, behind]), ok_bind, later,
      List.drop_left' behind, Nat.add_sub_cancel_left, List.take_left' size]
    rfl

theorem contact_chunks (addrs : List SocketAddr) :
    (contactChunks (addrs.flatMap contactInfo) ((addrs.flatMap contactInfo).length / 6) 0 :
      Outcome ε _) = .ok ((addrs.filter SocketAddr.isV4).map socketBytes) ∧
    ∀ chunk ∈ (addrs.filter SocketAddr.isV4).map socketBytes, chunk.length = bytesPerCompactIp := by
  have four : ∀ addr ∈ addrs.filter SocketAddr.isV4, addr.isV4 := fun _ member => List.of_mem_filter member
  have size : ∀ addr ∈ addrs.filter SocketAddr.isV4, (socketBytes addr).length = 6 :=
    fun addr member => (socket_read (ε := ε) (four addr member)).1
  have count : ((addrs.filter SocketAddr.isV4).flatMap socketBytes).length / 6 =
      (addrs.filter SocketAddr.isV4).length := by
    rw [List.length_flatMap, List.map_congr_left size]
    simp
  rw [contact_bytes, count]
  exact ⟨chunks_of_sockets four [] rfl, List.forall_mem_map.mpr size⟩

theorem sockets_read (four : ∀ addr ∈ addrs, addr.isV4) :
    (socketsFrom (addrs.map socketBytes) : Outcome ε _) = .ok addrs := by
  induction addrs with
  | nil => rfl
  | cons addr rest ih =>
    obtain ⟨first, others⟩ := List.forall_mem_cons.mp four
    rw [List.map_cons, socketsFrom, (socket_read first).2, ok_bind, ih others]
    rfl

/-- Lists of nodes and of peers with IPv4 addresses are read back as they were written. -/
theorem compact_lists_round_trip (ε : Type) (nodes : List Node) (peers : List SocketAddr)
    (fourNodes : ∀ n ∈ nodes, n.addr.isV4) (fourPeers : ∀ peer ∈ peers, peer.isV4) :
    (∃ bytes info, (encodeNodes nodes : Outcome ε Bytes) = .ok bytes ∧
      CompactNodeInfo.new bytes = some info ∧
      (info.toList : Outcome ε _) = .ok (nodes.map fun n => (n.id, n.addr))) ∧
    ∃ values info, (contactChunks (peers.flatMap contactInfo)
        ((peers.flatMap contactInfo).length / 6) 0 : Outcome ε _) = .ok values ∧
      CompactValueInfo.new values = some info ∧ (info.toList : Outcome ε _) = .ok peers := by
  constructor
  · have whole := records_whole fourNodes
    exact ⟨_, ⟨_, whole⟩, encode_nodes_records fourNodes, dif_pos whole,
      record_list (List.forall_mem_map.mpr fourNodes)⟩
  · obtain ⟨cut, sizes⟩ := contact_chunks (ε := ε) peers
    rw [List.filter_eq_self.mpr fourPeers] at cut sizes
    exact ⟨_, ⟨_, sizes⟩, cut, dif_pos sizes, sockets_read fourPeers⟩

def onePeer : SocketAddr := .v4 10 0 0 1 6881

def oneNode : Node := ⟨⟨⟨Vector.replicate 20 1⟩, onePeer⟩, none, none, none, 0⟩

theorem one_contact_round_trip :
    (∃ bytes info, (encodeNodes [oneNode] : Outcome Unit Bytes) = .ok bytes ∧
      CompactNodeInfo.new bytes = some info ∧
      (info.toList : Outcome Unit _) = .ok [(oneNode.id, onePeer)]) ∧
    ∃ values info, (contactChunks (contactInfo onePeer) 1 0 : Outcome Unit _) = .ok values ∧
      CompactValueInfo.new values = some info ∧ (info.toList : Outcome Unit _) = .ok [onePeer] :=
  compact_lists_round_trip Unit [oneNode] [onePeer] (by decide) (by decide)

end DhtContacts
