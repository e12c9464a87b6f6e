import Bittorrent.Bencode.Canonical
import Bittorrent.Peer.Extended

/-!
Which extended messages come back from their own bytes. A builder may be given custom entries under
the keys of the fields, id types that spell a built-in name, and values of any depth; the message it
builds is read back exactly if none of these gets in the way.
-/
namespace PeerHandshake
open Rust Outcome NomParse BencodeValue BencodeConvert BencodeRoundTrip BencodeCanonical
  PeerExtended
open List hiding lookup

def custom (builder : ExtendedMessageBuilder) : Dict :=
  SortedMap.ofList (builder.customEntries.map fun e => (e.1.bytes, e.2.value))

section Ids

theorem id_from_id (id : Str) : (ExtendedType.fromId id).id = id := by
  unfold ExtendedType.fromId
  split
  · rename_i same
    exact same.symm
  · split
    · rename_i same
      exact same.symm
    · rfl

/-- A type that is not a custom spelling of a built-in one. -/
def Proper (extType : ExtendedType) : Prop := ExtendedType.fromId extType.id = extType

instance (extType : ExtendedType) : Decidable (Proper extType) := inferInstanceAs (Decidable (_ = _))

theorem proper_injective {a b : ExtendedType} (first : Proper a) (second : Proper b)
    (same : a.id.bytes = b.id.bytes) : a = b := by
  have ids : a.id = b.id := by
    cases ha : a.id
    cases hb : b.id
    rw [ha, hb] at same
    cases same
    rfl
  rw [← first, ← second, ids]

def idValue (v : Bencode) : Option UInt8 := (int v).map fun n => n.toUInt64.toUInt8

theorem id_of_eq (id : Bytes) (v : Bencode) :
    idOf id v = (Str.fromUtf8 id).bind fun s => (idValue v).map fun n => (.fromId s, n) := by
  unfold idOf idValue convertInt convert
  cases Str.fromUtf8 id with
  | none => rfl
  | some s =>
    cases int v <;> rfl

theorem id_of_some {id : Bytes} {v : Bencode} {e : ExtendedType × UInt8} (same : idOf id v = some e) :
    e.1.id.bytes = id ∧ Proper e.1 ∧ idValue v = some e.2 := by
  rw [id_of_eq] at same
  obtain ⟨s, isText, same⟩ := Option.bind_eq_some_iff.mp same
  obtain ⟨n, isValue, same⟩ := Option.map_eq_some_iff.mp same
  subst same
  unfold Str.fromUtf8 at isText
  split at isText
  · cases isText
    refine ⟨?_, ?_, isValue⟩
    · rw [id_from_id]
    · unfold Proper
      rw [id_from_id]
  · cases isText

theorem id_of_text (extType : ExtendedType) (v : Bencode) :
    idOf extType.id.bytes v = (idValue v).map fun n => (.fromId extType.id, n) := by
  rw [id_of_eq, from_utf8_bytes]
  rfl

/-- The pairs that are read out of an id map. -/
def pairsOf (entries : Dict) : IdMap := entries.filterMap fun e => idOf e.1 e.2

variable {entries : Dict}

theorem pairs_distinct (sorted : SortedMap.Sorted entries) :
    ((pairsOf entries).map Prod.fst).Nodup := by
  unfold pairsOf List.Nodup
  rw [pairwise_map, pairwise_filterMap]
  refine sorted.imp ?_
  intro a b less p first q second same
  have left := (id_of_some first).1
  have right := (id_of_some second).1
  rw [same, right] at left
  exact absurd left (ne_of_gt less)

theorem get_pairs (sorted : SortedMap.Sorted entries) (extType : ExtendedType) :
    AssocMap.get extType (pairsOf entries) =
      if Proper extType then (SortedMap.lookup extType.id.bytes entries).bind idValue else none := by
  induction entries with
  | nil => simp [pairsOf, AssocMap.get, SortedMap.lookup]
  | cons head rest ih =>
    obtain ⟨id, v⟩ := head
    obtain ⟨above, tail⟩ := pairwise_cons.mp sorted
    have later := ih tail
    by_cases here : id = extType.id.bytes
    · subst here
      -- nothing further down stands under the same id
      have absent : SortedMap.lookup extType.id.bytes rest = none := by
        rw [SortedMap.lookup_eq_none]
        intro member
        obtain ⟨e, inside, same⟩ := mem_map.mp member
        exact absurd same (ne_of_gt (above e inside))
      rw [absent] at later
      have none : AssocMap.get extType (pairsOf rest) = none := by
        rw [later]
        split <;> rfl
      rw [SortedMap.lookup, if_pos rfl, Option.bind_some]
      cases value : idValue v with
      | none =>
        have skipped : pairsOf ((extType.id.bytes, v) :: rest) = pairsOf rest :=
          filterMap_cons_none (by rw [id_of_text, value]; rfl)
        rw [skipped, none]
        split <;> rfl
      | some n =>
        have kept : pairsOf ((extType.id.bytes, v) :: rest) =
            (.fromId extType.id, n) :: pairsOf rest :=
          filterMap_cons_some (by rw [id_of_text, value]; rfl)
        rw [kept, AssocMap.get, none]
        rfl
    · rw [SortedMap.lookup, if_neg here, ← later]
      cases pair : idOf id v with
      | none =>
        have skipped : pairsOf ((id, v) :: rest) = pairsOf rest := filterMap_cons_none pair
        rw [skipped]
      | some e =>
        have kept : pairsOf ((id, v) :: rest) = e :: pairsOf rest := filterMap_cons_some pair
        have other : ¬ e.1 = extType := by
          intro same
          have spelled := (id_of_some pair).1
          rw [same] at spelled
          exact here spelled.symm
        rw [kept, AssocMap.get, if_neg other]

/-- What is read out of the value under the id map's key. -/
def idsOf (v : Bencode) : IdMap := parseIdMap [(idMapKey, v)]

theorem parse_id_map_eq (root : Dict) :
    parseIdMap root = ((SortedMap.lookup idMapKey root).map idsOf).getD [] := by
  have whole : ∀ root, accepted (lookupAndConvertDict IoError.bencodeConvert root idMapKey) =
      (SortedMap.lookup idMapKey root).bind dict := fun root => accepted_under root idMapKey
  unfold idsOf parseIdMap
  rw [whole]
  cases SortedMap.lookup idMapKey root with
  | none => rfl
  | some v =>
    rw [Option.map_some, Option.getD_some, whole, SortedMap.lookup, if_pos rfl]

theorem get_ids (sorted : SortedMap.Sorted entries) (extType : ExtendedType) :
    AssocMap.get extType (idsOf (.dict entries)) =
      if Proper extType then (SortedMap.lookup extType.id.bytes entries).bind idValue else none := by
  have read : idsOf (.dict entries) =
      (pairsOf entries).foldl (fun idMap e => AssocMap.insert e.1 e.2 idMap) [] := rfl
  rw [read, AssocMap.get_insert_all (pairs_distinct sorted), get_pairs sorted]
  simp [AssocMap.get]

theorem ben_id_map_eq (idMap : IdMap) : benIdMap idMap =
    SortedMap.ofList (idMap.map fun e => (e.1.id.bytes, .int e.2.toUInt64.toInt64)) := by
  unfold benIdMap SortedMap.ofList
  rw [foldl_map]

theorem id_value_back (n : UInt8) : idValue (.int n.toUInt64.toInt64) = some n := by
  simp [idValue, int]

theorem lookup_id {idMap : IdMap} (proper : ∀ e ∈ idMap, Proper e.1)
    (distinct : (idMap.map Prod.fst).Nodup) {extType : ExtendedType} (isProper : Proper extType) :
    (SortedMap.lookup extType.id.bytes (benIdMap idMap)).bind idValue =
      AssocMap.get extType idMap := by
  rw [ben_id_map_eq]
  induction idMap using List.reverseRecOn with
  | nil => rfl
  | append_singleton front last ih =>
    obtain ⟨lastType, n⟩ := last
    have before := ih (fun e member => proper e (mem_append_left _ member))
      (by
        rw [map_append] at distinct
        exact (nodup_append.mp distinct).1)
    have lastProper := proper (lastType, n) (by simp)
    rw [map_append, map_singleton, SortedMap.of_list_snoc, SortedMap.lookup_insert]
    by_cases same : extType = lastType
    · subst same
      rw [if_pos rfl, Option.bind_some, id_value_back]
      exact (AssocMap.get_of_mem distinct (by simp)).symm
    · have other : ¬ extType.id.bytes = lastType.id.bytes := fun ids =>
        same (proper_injective isProper lastProper ids)
      rw [if_neg other, before]
      have skip : AssocMap.get extType (front ++ [(lastType, n)]) = AssocMap.get extType front := by
        have away : ¬ lastType = extType := fun h => same h.symm
        clear before distinct proper ih
        induction front with
        | nil => simp [AssocMap.get, away]
        | cons head rest inner => simp [AssocMap.get, inner]
      exact skip.symm

/-- The id map that a builder writes is read back exactly if its types are proper. -/
theorem ids_back_iff {idMap : IdMap} (distinct : (idMap.map Prod.fst).Nodup) :
    (∀ extType, AssocMap.get extType (idsOf (.dict (benIdMap idMap))) = AssocMap.get extType idMap) ↔
      ∀ e ∈ idMap, Proper e.1 := by
  have sorted : SortedMap.Sorted (benIdMap idMap) := by
    rw [ben_id_map_eq]
    exact SortedMap.of_list_sorted _
  constructor
  · intro same e member
    have kept := same e.1
    rw [AssocMap.get_of_mem distinct member, get_ids sorted] at kept
    by_contra improper
    rw [if_neg improper] at kept
    cases kept
  · intro proper extType
    rw [get_ids sorted]
    by_cases isProper : Proper extType
    · rw [if_pos isProper, lookup_id proper distinct isProper]
    · rw [if_neg isProper]
      cases found : AssocMap.get extType idMap with
      | none => rfl
      | some n => exact absurd (proper _ (AssocMap.mem_of_get found)) isProper

end Ids

section Fields

variable (builder : ExtendedMessageBuilder)

theorem insert_custom_eq (dict : Dict) :
    insertCustom builder.customEntries dict =
      (builder.customEntries.map fun e => (e.1.bytes, e.2.value)).foldl
        (fun m e => SortedMap.insert e.1 e.2 m) dict := by
  rw [foldl_map]
  rfl

theorem lookup_insert_some (key k : Bytes) (value : Option Bencode) (dict : Dict) :
    SortedMap.lookup k (insertSome key value dict) =
      if k = key then value.or (SortedMap.lookup k dict) else SortedMap.lookup k dict := by
  cases value with
  | none => simp [insertSome]
  | some v =>
    rw [insertSome, SortedMap.lookup_insert]
    by_cases same : k = key <;> simp [same]

/-- Under a key the last thing inserted is found: the field, a custom entry, or the id map. -/
theorem lookup_root :
    let root := rootMap builder
    let own := fun key => SortedMap.lookup key (custom builder)
    SortedMap.lookup clientIdKey root =
      (builder.ourId.map fun id => .bytes id.bytes).or (own clientIdKey) ∧
    SortedMap.lookup clientTcpPortKey root =
      (builder.ourTcpPort.map fun port => .int port.toUInt64.toInt64).or (own clientTcpPortKey) ∧
    SortedMap.lookup ourIpKey root =
      (builder.theirIp.map fun ip => .bytes ip.octets).or (own ourIpKey) ∧
    SortedMap.lookup clientIpv6AddrKey root =
      (builder.ourIpv6Addr.map fun ip => .bytes ip.toList).or (own clientIpv6AddrKey) ∧
    SortedMap.lookup clientIpv4AddrKey root =
      (builder.ourIpv4Addr.map fun ip => .bytes ip.toList).or (own clientIpv4AddrKey) ∧
    SortedMap.lookup clientMaxRequestsKey root =
      (builder.ourMaxRequests.map .int).or (own clientMaxRequestsKey) ∧
    SortedMap.lookup metadataSizeKey root =
      (builder.metadataSize.map .int).or (own metadataSizeKey) ∧
    SortedMap.lookup idMapKey root =
      (own idMapKey).or (some (.dict (benIdMap builder.idMap))) := by
  simp +decide only [rootMap, lookup_insert_some, insert_custom_eq, SortedMap.lookup_insert_all,
    SortedMap.lookup_insert, SortedMap.lookup, custom, if_true, if_false, Option.or_none, and_self]

/-- A field that is written is read back, and one that is not must not be found elsewhere. -/
theorem field_back_iff {α : Type} {parse : Dict → Option α} {access : Bencode → Option α} {key : Bytes}
    (parse_eq : ∀ root, parse root = (SortedMap.lookup key root).bind access) {field : Option α}
    {write : α → Bencode} {builder : ExtendedMessageBuilder}
    (found : SortedMap.lookup key (rootMap builder) =
      (field.map write).or (SortedMap.lookup key (custom builder)))
    (back : ∀ a, access (write a) = some a) :
    parse (rootMap builder) = field ↔ (field = none → parse (custom builder) = none) := by
  rw [parse_eq, parse_eq, found]
  cases field with
  | none => simp
  | some a => simp [back]

theorem str_back (s : Str) : str (.bytes s.bytes) = some s := from_utf8_bytes s

theorem int_back (n : Int64) : int (.int n) = some n := rfl

theorem port_back (port : UInt16) : portOf port.toUInt64.toInt64 = some port := by
  simp [portOf]

theorem ipv6_back (ip : Ipv6Addr) : ipv6Of ip.toList = some ip := by
  unfold ipv6Of
  rw [dif_pos (by simp)]
  rfl

theorem ipv4_back (ip : Ipv4Addr) : ipv4Of ip.toList = some ip := by
  unfold ipv4Of
  rw [dif_pos (by simp)]
  rfl

theorem ip_back (ip : IpAddr) : ipOf ip.octets = some ip := by
  cases ip with
  | v4 a b c d => rfl
  | v6 ip =>
    have long : ipv4Of ip.toList = none := by
      unfold ipv4Of
      rw [dif_neg (by simp)]
    unfold ipOf IpAddr.octets
    rw [long, ipv6_back]
    rfl

end Fields

section Built

/-- Nothing a builder was given gets in the way of reading its message back. -/
structure PlainBuilder (builder : ExtendedMessageBuilder) : Prop where
  shallow : (Bencode.dict (rootMap builder)).level ≤ 50
  ids : match SortedMap.lookup idMapKey (custom builder) with
    | none => ∀ e ∈ builder.idMap, Proper e.1
    | some v => ∀ extType, AssocMap.get extType (idsOf v) = AssocMap.get extType builder.idMap
  ourId : builder.ourId = none → parseClientId (custom builder) = none
  ourTcpPort : builder.ourTcpPort = none → parseClientTcpPort (custom builder) = none
  theirIp : builder.theirIp = none → parseOurIp (custom builder) = none
  ourIpv6Addr : builder.ourIpv6Addr = none → parseClientIpv6Addr (custom builder) = none
  ourIpv4Addr : builder.ourIpv4Addr = none → parseClientIpv4Addr (custom builder) = none
  ourMaxRequests : builder.ourMaxRequests = none → parseClientMaxRequests (custom builder) = none
  metadataSize : builder.metadataSize = none → parseMetadataSize (custom builder) = none

variable (root : Dict)

theorem client_id_eq :
    parseClientId root = (SortedMap.lookup clientIdKey root).bind str := accepted_under root _

/-- A value found under a key goes through one more check. -/
theorem accepted_then {α β : Type} {access : Bencode → Option α} {expectedType : String}
    {handleError : BencodeConvertError → IoError} (check : α → Option β) (key : Bytes) :
    (accepted do
      convert handleError access expectedType (← lookup handleError root key) key).bind check =
      (SortedMap.lookup key root).bind fun v => (access v).bind check := by
  rw [accepted_under, Option.bind_assoc]

theorem client_tcp_port_eq : parseClientTcpPort root =
    (SortedMap.lookup clientTcpPortKey root).bind fun v => (int v).bind portOf :=
  accepted_then root portOf _

theorem our_ip_eq : parseOurIp root =
    (SortedMap.lookup ourIpKey root).bind fun v => (bytes v).bind ipOf :=
  accepted_then root ipOf _

theorem client_ipv6_addr_eq : parseClientIpv6Addr root =
    (SortedMap.lookup clientIpv6AddrKey root).bind fun v => (bytes v).bind ipv6Of :=
  accepted_then root ipv6Of _

theorem client_ipv4_addr_eq : parseClientIpv4Addr root =
    (SortedMap.lookup clientIpv4AddrKey root).bind fun v => (bytes v).bind ipv4Of :=
  accepted_then root ipv4Of _

theorem client_max_requests_eq :
    parseClientMaxRequests root = (SortedMap.lookup clientMaxRequestsKey root).bind int :=
  accepted_under root _

theorem metadata_size_eq :
    parseMetadataSize root = (SortedMap.lookup metadataSizeKey root).bind int :=
  accepted_under root _

variable (builder : ExtendedMessageBuilder)

theorem ids_root_iff :
    (∀ extType, AssocMap.get extType (parseIdMap (rootMap builder)) =
        AssocMap.get extType builder.idMap) ↔
      match SortedMap.lookup idMapKey (custom builder) with
      | none => ∀ e ∈ builder.idMap, Proper e.1
      | some v => ∀ extType, AssocMap.get extType (idsOf v) = AssocMap.get extType builder.idMap := by
  obtain ⟨_, _, _, _, _, _, _, found⟩ := lookup_root builder
  dsimp only at found
  rw [parse_id_map_eq, found]
  cases SortedMap.lookup idMapKey (custom builder) with
  | none => exact ids_back_iff builder.distinctTypes
  | some v => exact Iff.rfl

/-- The fields read out of the entries that were written agree with the builder exactly if it is
    plain, apart from its depth. -/
theorem read_root_iff
    (shallow : (Bencode.dict (rootMap builder)).level ≤ 50) :
    (ExtendedMessage.ofDict (rootMap builder) (bencodeFromBuilder builder)).Same
        (.fromBuilder builder) ↔ PlainBuilder builder := by
  obtain ⟨ourId, port, theirIp, ipv6, ipv4, requests, size, _⟩ := lookup_root builder
  have f1 := field_back_iff client_id_eq ourId str_back
  have f2 := field_back_iff client_tcp_port_eq port port_back
  have f3 := field_back_iff our_ip_eq theirIp ip_back
  have f4 := field_back_iff client_ipv6_addr_eq ipv6 ipv6_back
  have f5 := field_back_iff client_ipv4_addr_eq ipv4 ipv4_back
  have f6 := field_back_iff client_max_requests_eq requests int_back
  have f7 := field_back_iff metadata_size_eq size int_back
  constructor
  · intro same
    exact ⟨shallow, (ids_root_iff builder).mp same.idMap, f1.mp same.ourId, f2.mp same.ourTcpPort,
      f3.mp same.theirIp, f4.mp same.ourIpv6Addr, f5.mp same.ourIpv4Addr, f6.mp same.ourMaxRequests,
      f7.mp same.metadataSize⟩
  · intro plain
    exact ⟨(ids_root_iff builder).mpr plain.ids, f1.mpr plain.ourId, f2.mpr plain.ourTcpPort,
      f3.mpr plain.theirIp, f4.mpr plain.ourIpv6Addr, f5.mpr plain.ourIpv4Addr,
      f6.mpr plain.ourMaxRequests, f7.mpr plain.metadataSize, rfl⟩

end Built

section Bytes
variable {key : Bytes} {dict : Dict}

theorem sorted_insert {v : Bencode} (first : DictsSorted v) (rest : DictsSorted (.dict dict)) :
    DictsSorted (.dict (SortedMap.insert key v dict)) := by
  cases rest with
  | dict _ sorted all =>
    refine .dict _ (SortedMap.insert_sorted sorted) ?_
    intro e member
    rcases SortedMap.mem_insert member with new | old
    · rw [new]
      exact first
    · exact all e old

theorem sorted_nil : DictsSorted (.dict []) := .dict [] .nil (by simp)

theorem sorted_insert_some {value : Option Bencode} (first : ∀ v, value = some v → DictsSorted v)
    (rest : DictsSorted (.dict dict)) :
    DictsSorted (.dict (insertSome key value dict)) := by
  cases value with
  | none => exact rest
  | some v => exact sorted_insert (first v rfl) rest

theorem sorted_field {α : Type} {field : Option α} {write : α → Bencode}
    (leaf : ∀ a, DictsSorted (write a)) (rest : DictsSorted (.dict dict)) :
    DictsSorted (.dict (insertSome key (field.map write) dict)) := by
  refine sorted_insert_some ?_ rest
  intro v same
  obtain ⟨a, _, rfl⟩ := Option.map_eq_some_iff.mp same
  exact leaf a

theorem sorted_ids (idMap : IdMap) : DictsSorted (.dict (benIdMap idMap)) :=
  List.foldlRecOn (motive := (DictsSorted <| .dict ·)) idMap _ sorted_nil fun _ sorted _ _ =>
    sorted_insert (.int _) sorted

theorem sorted_custom (entries : List (Str × BencodeMut)) (sorted : DictsSorted (.dict dict)) :
    DictsSorted (.dict (insertCustom entries dict)) :=
  List.foldlRecOn (motive := (DictsSorted <| .dict ·)) entries _ sorted fun _ sorted e _ =>
    sorted_insert e.2.sorted sorted

variable (builder : ExtendedMessageBuilder)

theorem sorted_root : DictsSorted (.dict (rootMap builder)) := by
  apply sorted_field fun _ => .int _
  apply sorted_field fun _ => .int _
  apply sorted_field fun _ => .bytes _
  apply sorted_field fun _ => .bytes _
  apply sorted_field fun _ => .bytes _
  apply sorted_field fun _ => .int _
  apply sorted_field fun _ => .bytes _
  apply sorted_custom
  exact sorted_insert (sorted_ids _) sorted_nil

theorem settle_ok_iff {α : Type} {m : Outcome IoError α} {a : α} :
    settle m = .ok (.ok a) ↔ m = .ok a := by
  cases m <;> simp [settle]

theorem decode_io_ok_iff {raw : Bytes} {opts : BDecodeOpt} {r : BencodeRef} :
    decodeIo raw opts = .ok r ↔ BencodeDecode.BencodeRef.decode raw opts = .ok r := by
  unfold decodeIo
  cases BencodeDecode.BencodeRef.decode raw opts <;> simp

/-- Parsing from the front of a buffer that holds all of the announced bytes. -/
theorem parse_front_ok_iff {raw rest : Bytes} {len : UInt32} {msg : ExtendedMessage}
    (announced : len.toNat = raw.length) :
    ExtendedMessage.parseBytes (raw ++ rest) len = .ok (.ok msg) ↔
      ∃ r root, BencodeDecode.BencodeRef.decode raw .default = .ok r ∧ r.kind = .dict root ∧
        msg = .ofDict root raw := by
  have enough : len.toNat ≤ (raw ++ rest).length := by
    rw [length_append]
    omega
  have front : (raw ++ rest).take len.toNat = raw := by
    rw [announced, take_left']
    rfl
  unfold ExtendedMessage.parseBytes
  rw [if_pos enough, settle_ok_iff, front]
  dsimp only
  constructor
  · intro read
    obtain ⟨r, decoded, read⟩ := bind_eq_ok.mp read
    obtain ⟨root, isDict, read⟩ := bind_eq_ok.mp read
    cases read
    exact ⟨r, root, decode_io_ok_iff.mp decoded, dict_of (convert_ok_iff.mp isDict), rfl⟩
  · rintro ⟨r, root, decoded, isDict, rfl⟩
    rw [decode_io_ok_iff.mpr decoded, ok_bind, isDict]
    rfl

/-- A built message is read back from the front of a buffer exactly if its builder is plain. -/
theorem built_back_iff (rest : Bytes) {len : UInt32}
    (announced : len.toNat = (bencodeFromBuilder builder).length)
    (fits : (bencodeFromBuilder builder).length ≤ isizeMax) :
    (∃ msg, ExtendedMessage.parseBytes (bencodeFromBuilder builder ++ rest) len = .ok (.ok msg) ∧
        msg.Same (.fromBuilder builder)) ↔ PlainBuilder builder := by
  constructor
  · rintro ⟨msg, parsed, same⟩
    obtain ⟨r, root, decoded, isDict, rfl⟩ := (parse_front_ok_iff announced).mp parsed
    have shallow := decode_encode_shallow rfl (sorted_root builder) fits decoded
    obtain ⟨r', again, kind, _⟩ := decode_encode (sorted_root builder) fits shallow
    rw [bencodeFromBuilder, again] at decoded
    cases decoded
    rw [isDict] at kind
    cases kind
    exact (read_root_iff builder shallow).mp same
  · intro plain
    have shallow : (Bencode.dict (rootMap builder)).level ≤ BDecodeOpt.default.maxRecursion :=
      plain.shallow
    obtain ⟨r, decoded, kind, _⟩ := decode_encode (sorted_root builder) fits shallow
    exact ⟨_, (parse_front_ok_iff announced).mpr ⟨r, _, decoded, kind, rfl⟩,
      (read_root_iff builder plain.shallow).mpr plain⟩

end Bytes

end PeerHandshake
