import Bittorrent.Dht.Node
import Bittorrent.Lib.Chunks

/-!
Compact node and peer information: 26 bytes for a node, 6 bytes for an IPv4 endpoint. The
constructors check the sizes once; the iterators then cut and unwrap without checking again.
-/
namespace DhtCompact
open Rust Outcome UtilSha DhtNode List

def bytesPerCompactIp : Nat := 6

def bytesPerCompactNodeInfo : Nat := 26

structure CompactNodeInfo where
  nodes : Bytes
  size : nodes.length % bytesPerCompactNodeInfo = 0
  deriving DecidableEq

def CompactNodeInfo.empty : CompactNodeInfo := ⟨[], rfl⟩

def CompactNodeInfo.new (nodes : Bytes) : Option CompactNodeInfo :=
  if size : nodes.length % bytesPerCompactNodeInfo = 0 then some ⟨nodes, size⟩ else none

structure CompactValueInfo where
  values : List Bytes
  size : ∀ value ∈ values, value.length = bytesPerCompactIp
  deriving DecidableEq

def CompactValueInfo.new (values : List Bytes) : Option CompactValueInfo :=
  if size : ∀ value ∈ values, value.length = bytesPerCompactIp then some ⟨values, size⟩ else none

section Parse
variable {ε : Type}

/-- The `Err` of the source is always unwrapped by its callers. -/
def socketV4FromBytesBe (bytes : Bytes) : Outcome ε SocketAddr :=
  match bytes with
  | [one, two, three, four, high, low] =>
    .ok (.v4 one two three four ((high.toUInt16 <<< 8) ||| low.toUInt16))
  | _ => .panic

def partsFromCompactInfo (compactInfo : Bytes) : Outcome ε (NodeId × SocketAddr) := do
  let idBytes ← slice compactInfo 0 shaHashLen
  match fromHash idBytes.bytes with
  | none => .panic
  | some nodeId =>
    let ipBytes ← slice compactInfo shaHashLen (shaHashLen + bytesPerCompactIp)
    let socket ← socketV4FromBytesBe ipBytes.bytes
    pure (nodeId, socket)

/-- `CompactNodeInfoIter::next` at a position, with the position after it. -/
def nextNode (nodes : Bytes) (pos : Nat) : Outcome ε (Option ((NodeId × SocketAddr) × Nat)) :=
  if pos = nodes.length then .ok none
  else do
    let offset := pos + bytesPerCompactNodeInfo
    let compactInfo ← slice nodes pos offset
    let item ← partsFromCompactInfo compactInfo.bytes
    pure (some (item, offset))

def nodesFrom (nodes : Bytes) : Nat → Nat → Outcome ε (List (NodeId × SocketAddr))
  | 0, _ => .unfinished
  | fuel + 1, pos => do
    match ← nextNode nodes pos with
    | none => pure []
    | some (item, pos) =>
      let rest ← nodesFrom nodes fuel pos
      pure (item :: rest)

/-- All items of the iterator. It moves 26 bytes at a time, so a turn for every byte suffices. -/
def CompactNodeInfo.toList (info : CompactNodeInfo) : Outcome ε (List (NodeId × SocketAddr)) :=
  nodesFrom info.nodes (info.nodes.length + 1) 0

def socketsFrom : List Bytes → Outcome ε (List SocketAddr)
  | [] => .ok []
  | value :: rest => do
    let socket ← socketV4FromBytesBe value
    let sockets ← socketsFrom rest
    pure (socket :: sockets)

def CompactValueInfo.toList (info : CompactValueInfo) : Outcome ε (List SocketAddr) :=
  socketsFrom info.values

def socketBytes : SocketAddr → Bytes
  | .v4 a b c d port => [a, b, c, d, (port >>> 8).toUInt8, port.toUInt8]
  | .v6 .. => []

theorem joined_port (high low : UInt8) :
    ((high.toUInt16 <<< 8) ||| low.toUInt16).toNat = high.toNat * 256 + low.toNat := by
  have shift : (8 : UInt16).toNat % 16 = 8 := rfl
  have bound := high.toNat_lt
  rw [UInt16.toNat_or, UInt16.toNat_shiftLeft, shift, UInt8.toNat_toUInt16, UInt8.toNat_toUInt16,
    Nat.shiftLeft_eq, Nat.mod_eq_of_lt (by omega), ← Nat.shiftLeft_eq,
    ← Nat.shiftLeft_add_eq_or_of_lt low.toNat_lt, Nat.shiftLeft_eq]

theorem split_port (port : UInt16) : (port >>> 8).toUInt8.toNat = port.toNat / 256 ∧
    port.toUInt8.toNat = port.toNat % 256 := by
  have bound := port.toNat_lt
  simp [Nat.shiftRight_eq_div_pow]
  omega

theorem socket_read {addr : SocketAddr} (four : addr.isV4) : (socketBytes addr).length = 6 ∧
    (socketV4FromBytesBe (socketBytes addr) : Outcome ε SocketAddr) = .ok addr := by
  cases addr with
  | v4 a b c d port =>
    have whole : ((port >>> 8).toUInt8.toUInt16 <<< 8) ||| port.toUInt8.toUInt16 = port := by
      rw [← UInt16.toNat_inj, joined_port, (split_port port).1, (split_port port).2]
      omega
    simp only [socketBytes, socketV4FromBytesBe, whole]
    exact ⟨rfl, trivial⟩
  | v6 ip port flowinfo scopeId => cases four

theorem socket_of_bytes (bytes : Bytes) (size : bytes.length = bytesPerCompactIp) :
    ∃ addr : SocketAddr, addr.isV4 ∧ bytes = socketBytes addr := by
  match bytes, size with
  | [one, two, three, four, high, low], _ =>
    refine ⟨.v4 one two three four ((high.toUInt16 <<< 8) ||| low.toUInt16), rfl, ?_⟩
    have parts := split_port ((high.toUInt16 <<< 8) ||| low.toUInt16)
    have bound := low.toNat_lt
    rw [joined_port] at parts
    have first : high.toNat = (high.toNat * 256 + low.toNat) / 256 := by omega
    have last : low.toNat = (high.toNat * 256 + low.toNat) % 256 := by omega
    rw [socketBytes, UInt8.toNat_inj.mp (parts.1.trans first.symm),
      UInt8.toNat_inj.mp (parts.2.trans last.symm)]

def record (item : NodeId × SocketAddr) : Bytes := item.1.asRef ++ socketBytes item.2

theorem record_length {item : NodeId × SocketAddr} (four : item.2.isV4) :
    (record item).length = 26 := by
  simp [record, (socket_read (ε := Unit) four).1, as_ref_length, shaHashLen]

theorem parts_record {item : NodeId × SocketAddr} (four : item.2.isV4) :
    (partsFromCompactInfo (record item) : Outcome ε _) = .ok item := by
  obtain ⟨size, read⟩ := socket_read (ε := ε) four
  have id := as_ref_length item.1
  have front : (slice (record item) 0 shaHashLen : Outcome ε SubSlice) = .ok ⟨0, item.1.asRef⟩ := by
    rw [slice_ok (by omega) (by simp [record, id]), record, drop_zero, Nat.sub_zero,
      take_left' id]
  have back : (slice (record item) shaHashLen (shaHashLen + bytesPerCompactIp) : Outcome ε _) =
      .ok ⟨shaHashLen, socketBytes item.2⟩ := by
    rw [slice_ok (by omega) (by simp [record, id, size, bytesPerCompactIp]), record,
      drop_left' id, Nat.add_sub_cancel_left,
      take_of_length_le (by simp [size, bytesPerCompactIp])]
  simp [partsFromCompactInfo, front, back, from_hash_as_ref, read]

theorem record_of_bytes (bytes : Bytes) (size : bytes.length = 26) :
    ∃ item : NodeId × SocketAddr, item.2.isV4 ∧ bytes = record item := by
  have front : (bytes.take 20).length = shaHashLen := by simp [size, shaHashLen]
  obtain ⟨addr, four, tail⟩ := socket_of_bytes (bytes.drop 20) (by simp [size, bytesPerCompactIp])
  refine ⟨(⟨⟨(bytes.take 20).toArray, front⟩⟩, addr), four, ?_⟩
  rw [record, ← tail]
  exact (take_append_drop 20 bytes).symm

variable {items : List (NodeId × SocketAddr)}

theorem records_of_bytes (bytes : Bytes) : bytes.length % 26 = 0 →
    ∃ items : List (NodeId × SocketAddr), (∀ item ∈ items, item.2.isV4) ∧
      bytes = items.flatMap record := by
  apply ListChunks.chunks_induction (show 0 < 26 by decide) _ _ bytes
  · exact fun _ => ⟨[], by simp, rfl⟩
  · intro bytes some ih size
    have positive := length_pos_iff.mpr some
    obtain ⟨item, first, front⟩ := record_of_bytes (bytes.take 26) (by simp; omega)
    obtain ⟨items, four, back⟩ := ih (by simp; omega)
    refine ⟨item :: items, forall_mem_cons.mpr ⟨first, four⟩, ?_⟩
    rw [flatMap_cons, ← front, ← back, take_append_drop]

section
variable (four : ∀ item ∈ items, item.2.isV4)
include four

theorem records_length : (items.flatMap record).length = items.length * 26 := by
  rw [length_flatMap, map_congr_left fun item member => record_length (four item member)]
  simp

theorem nodes_from_records : ∀ (front : Bytes) {fuel : Nat}, items.length < fuel →
      (nodesFrom (front ++ items.flatMap record) fuel front.length : Outcome ε _) = .ok items := by
  induction items with
  | nil =>
    intro front fuel enough
    obtain ⟨fuel, rfl⟩ := Nat.exists_eq_add_one.mpr (Nat.lt_of_le_of_lt (Nat.zero_le _) enough)
    simp [nodesFrom, nextNode]
  | cons item rest ih =>
    intro front fuel enough
    obtain ⟨fuel, rfl⟩ := Nat.exists_eq_add_one.mpr (Nat.lt_of_le_of_lt (Nat.zero_le _) enough)
    obtain ⟨first, others⟩ := forall_mem_cons.mp four
    have size := record_length first
    have later := ih others (front ++ record item) (Nat.lt_of_succ_lt_succ enough)
    rw [append_assoc, length_append, size] at later
    have next : (nextNode (front ++ (item :: rest).flatMap record) front.length : Outcome ε _) =
        .ok (some (item, front.length + 26)) := by
      rw [flatMap_cons, nextNode, if_neg (by simp [size])]
      dsimp only [bytesPerCompactNodeInfo]
      rw [slice_ok (by omega) (by simp [size]), ok_bind, drop_left' rfl,
        Nat.add_sub_cancel_left, take_left' size, parts_record first]
      rfl
    rw [nodesFrom, next, ok_bind]
    dsimp only
    rw [flatMap_cons, later]
    rfl

theorem record_list :
    (nodesFrom (items.flatMap record) ((items.flatMap record).length + 1) 0 : Outcome ε _) =
      .ok items := by
  have size := records_length four
  exact nodes_from_records four [] (by omega)

end

theorem node_info_ok (info : CompactNodeInfo) :
    ∃ items, (info.toList : Outcome ε _) = .ok items ∧ (items = [] ↔ info.nodes = []) ∧
      ∀ item ∈ items, ∃ a b c d port, item.2 = .v4 a b c d port := by
  obtain ⟨nodes, size⟩ := info
  obtain ⟨items, four, rfl⟩ := records_of_bytes nodes size
  refine ⟨items, record_list four, ?_, ?_⟩
  · rw [← length_eq_zero_iff, ← length_eq_zero_iff, records_length four]
    omega
  · intro item member
    have family := four item member
    cases addr : item.2 with
    | v4 a b c d port => exact ⟨a, b, c, d, port, rfl⟩
    | v6 ip port flowinfo scopeId =>
      rw [addr] at family
      cases family

end Parse

end DhtCompact
