import Bittorrent.Lib.Nom
import Bittorrent.Lib.Patch
import Bittorrent.Utp.Packet

/-!
The bytes of a uTP packet, as they are written, checked and read. `asRef` gives the bytes of a
packet that is known by what its getters show. The two views agree as long as the length byte of
every extension can hold its length; what is accepted is always of this kind.
-/
namespace UtpWire
open Rust Outcome NomParse ListPatch UtpPacket
open List hiding chain_cons range
variable {ε : Type}

section Header

/-- The first byte of a header of the version in use. -/
def typeVer (t : PacketType) : UInt8 := t.toU8 <<< 4 ||| 1

def u16At (raw : Bytes) (pos : Nat) : UInt16 := UInt16.ofNat (beNat (range raw pos 2))
def u32At (raw : Bytes) (pos : Nat) : UInt32 := UInt32.ofNat (beNat (range raw pos 4))

def getType (raw : Bytes) : Outcome ε PacketType := do
  let byte ← byteAt raw 0
  (PacketType.tryFromType (byte >>> 4)).unwrap

def connectionId (raw : Bytes) : UInt16 := u16At raw 2
def timestamp (raw : Bytes) : UInt32 := u32At raw 4
def timestampDifference (raw : Bytes) : UInt32 := u32At raw 8
def wndSize (raw : Bytes) : UInt32 := u32At raw 12
def seqNr (raw : Bytes) : UInt16 := u16At raw 16
def ackNr (raw : Bytes) : UInt16 := u16At raw 18

/-- `PacketHeader::try_from_type`, with the bytes of the header it returns. -/
def headerTryFromType (original : Bytes) : Outcome ParseError Bytes :=
  if original.length < headerSize then .err .invalidPacketLength
  else do
    let byte ← byteAt original 0
    if byte &&& 0x0F ≠ 1 then .err .unsupportedVersion
    else do
      let _ ← PacketType.tryFromType (byte >>> 4)
      .ok (original.take headerSize)

end Header

section Extensions

/-- The loop of `check_extensions`, with the type it stops at. -/
def checkFrom (data : Bytes) : Nat → Nat → ExtensionType → Outcome ParseError ExtensionType
  | 0, _, _ => .unfinished
  | fuel + 1, index, ty =>
    if index < data.length ∧ ty ≠ .none then
      if data.length < index + 2 then .err .invalidPacketLength
      else do
        let len ← byteAt data (index + 1)
        if len.toNat = 0 ∨ len.toNat % 4 ≠ 0 ∨ data.length < index + 2 + len.toNat then
          .err .invalidExtensionLength
        else do
          let next ← byteAt data index
          checkFrom data fuel (index + (len.toNat + 2)) (.fromU8 next)
    else .ok ty

def checkExtensions (data : Bytes) : Outcome ParseError Unit :=
  if data.length < headerSize then .err .invalidPacketLength
  else do
    let first ← byteAt data 1
    if data.length = headerSize ∧ ExtensionType.fromU8 first ≠ .none then
      .err .invalidExtensionLength
    else do
      let last ← checkFrom data (data.length + 1) headerSize (.fromU8 first)
      if last ≠ .none then .err .invalidPacketLength else .ok ()

/-- `Packet::try_from_type`. Both checks are made, and the first error counts. -/
def tryFromType (original : Bytes) : Outcome ParseError Bytes := do
  let _ ← headerTryFromType original
  checkExtensions original
  .ok original

/-- What is left of an `ExtensionIterator`, one extension after the other. -/
def extensionsFrom (raw : Bytes) : Nat → Nat → ExtensionType → Outcome ε (List Extension)
  | 0, _, _ => .unfinished
  | fuel + 1, index, next =>
    if next = .none then .ok []
    else if index < raw.length then do
      let len ← byteAt raw (index + 1)
      let data ← slice raw (index + 2) (index + 2 + len.toNat)
      let following ← byteAt raw index
      let rest ← extensionsFrom raw fuel (index + (len.toNat + 2)) (.fromU8 following)
      .ok (⟨next, data.bytes⟩ :: rest)
    else .ok []

def extensions (raw : Bytes) : Outcome ε (List Extension) := do
  let first ← byteAt raw 1
  extensionsFrom raw (raw.length + 1) headerSize (.fromU8 first)

/-- The loop of `payload`, with the index it stops at. -/
def skipFrom (raw : Bytes) : Nat → Nat → ExtensionType → Outcome ε Nat
  | 0, _, _ => .unfinished
  | fuel + 1, index, ty =>
    if index < raw.length ∧ ty ≠ .none then do
      let len ← byteAt raw (index + 1)
      let next ← byteAt raw index
      skipFrom raw fuel (index + (len.toNat + 2)) (.fromU8 next)
    else .ok index

def payload (raw : Bytes) : Outcome ε Bytes := do
  let first ← byteAt raw 1
  let index ← skipFrom raw (raw.length + 1) headerSize (.fromU8 first)
  sliceFrom raw index

/-- The loop of `set_sack`: the last extension is told that one more follows. -/
def markFrom : Nat → Bytes → Nat → ExtensionType → Outcome ε (Bytes × Nat)
  | 0, _, _, _ => .unfinished
  | fuel + 1, raw, index, ty =>
    if index < raw.length ∧ ty ≠ .none then do
      let len ← byteAt raw (index + 1)
      let next ← byteAt raw index
      let marked := if ExtensionType.fromU8 next = .none then
        raw.set index ExtensionType.selectiveAck.toU8 else raw
      markFrom fuel marked (index + (len.toNat + 2)) (.fromU8 next)
    else .ok (raw, index)

/-- The new extension is announced where the first one is, or by the last one; with the index
    where it goes. -/
def announceSack (raw : Bytes) (first : ExtensionType) : Outcome ε (Bytes × Nat) :=
  if first = .none then .ok (raw.set 1 ExtensionType.selectiveAck.toU8, headerSize)
  else markFrom (raw.length + 1) raw headerSize first

/-- `set_sack` inserts byte after byte; an index behind the end is a panic. -/
def insertSack (raw : Bytes) (index : Nat) (bv : Bytes) : Outcome ε Bytes :=
  if index ≤ raw.length then
    .ok (raw.take index ++ ExtensionType.none.toU8 :: UInt8.ofNat bv.length :: bv ++ raw.drop index)
  else .panic

def setSack (raw : Bytes) (bv : Bytes) : Outcome ε Bytes :=
  if 4 ≤ bv.length ∧ bv.length % 4 = 0 then do
    let first ← byteAt raw 1
    let (marked, index) ← announceSack raw (.fromU8 first)
    insertSack marked index bv
  else .panic

def shown (raw : Bytes) : Outcome ε Packet := do
  let ty ← getType raw
  let extensions ← extensions raw
  let payload ← payload raw
  .ok ⟨ty, extensions, connectionId raw, timestamp raw, timestampDifference raw, wndSize raw,
    seqNr raw, ackNr raw, payload⟩

end Extensions

section Layout

/-- The type that announces the first extension; behind the last one stands `closing`. -/
def leading (closing : ExtensionType) : List Extension → ExtensionType
  | [] => closing
  | e :: _ => e.ty

def chain (closing : ExtensionType) : List Extension → Bytes
  | [] => []
  | e :: rest =>
    (leading closing rest).toU8 :: UInt8.ofNat e.data.length :: (e.data ++ chain closing rest)

def header (p : Packet) : Bytes :=
  typeVer p.ty :: (leading .none p.extensions).toU8 ::
    (writeU16 p.connectionId ++ writeU32 p.timestamp ++ writeU32 p.timestampDifference ++
      writeU32 p.wndSize ++ writeU16 p.seqNr ++ writeU16 p.ackNr)

def asRef (p : Packet) : Bytes := header p ++ chain .none p.extensions ++ p.payload

@[simp] theorem header_length (p : Packet) : (header p).length = headerSize := by
  simp [header, headerSize]

variable (closing : ExtensionType)

theorem leading_append (list more : List Extension) :
    leading closing (list ++ more) = leading (leading closing more) list := by
  cases list with
  | nil => rfl
  | cons e rest => rfl

theorem chain_append (list more : List Extension) :
    chain closing (list ++ more) = chain (leading closing more) list ++ chain closing more := by
  induction list with
  | nil => rfl
  | cons e rest ih => simp [chain, leading_append, ih]

theorem chain_length (list : List Extension) :
    (chain closing list).length = (list.map fun e => e.data.length + 2).sum := by
  induction list with
  | nil => rfl
  | cons e rest ih =>
    simp only [chain, length_cons, length_append, map_cons, sum_cons, ih]
    omega

/-- The length that the congestion window counts is that of the bytes. -/
theorem as_ref_length (p : Packet) : (asRef p).length = p.len := by
  rw [asRef, length_append, length_append, header_length, chain_length, Packet.len]

end Layout

section Fields
attribute [local simp] patch range asRef header writeU16 writeU32 beBytes

variable (p : Packet)

theorem u16_at_write {raw : Bytes} {pos : Nat} {n : UInt16} (there : range raw pos 2 = writeU16 n) :
    u16At raw pos = n := by
  rw [u16At, there, writeU16, be_nat_bytes, Nat.mod_eq_of_lt (show n.toNat < 256 ^ 2 from n.toNat_lt),
    UInt16.ofNat_toNat]

theorem u32_at_write {raw : Bytes} {pos : Nat} {n : UInt32} (there : range raw pos 4 = writeU32 n) :
    u32At raw pos = n := by
  rw [u32At, there, writeU32, be_nat_bytes, Nat.mod_eq_of_lt (show n.toNat < 256 ^ 4 from n.toNat_lt),
    UInt32.ofNat_toNat]

theorem type_ver_type (t : PacketType) : PacketType.tryFromType (typeVer t >>> 4) = .ok t := by
  cases t <;> rfl

theorem type_ver_version (t : PacketType) : typeVer t &&& 0x0F = 1 := by
  cases t <;> rfl

theorem get_type_as_ref : (getType (asRef p) : Outcome ε PacketType) = .ok p.ty := by
  have first : (byteAt (asRef p) 0 : Outcome ε UInt8) = .ok (typeVer p.ty) := rfl
  rw [getType, first, ok_bind, type_ver_type, unwrap_ok]

theorem connection_id_as_ref : connectionId (asRef p) = p.connectionId :=
  u16_at_write (by simp)

theorem timestamp_as_ref : timestamp (asRef p) = p.timestamp :=
  u32_at_write (by simp)

theorem timestamp_difference_as_ref : timestampDifference (asRef p) = p.timestampDifference :=
  u32_at_write (by simp)

theorem wnd_size_as_ref : wndSize (asRef p) = p.wndSize :=
  u32_at_write (by simp)

theorem seq_nr_as_ref : seqNr (asRef p) = p.seqNr :=
  u16_at_write (by simp)

theorem ack_nr_as_ref : ackNr (asRef p) = p.ackNr :=
  u16_at_write (by simp)

theorem header_try_from_type_as_ref : headerTryFromType (asRef p) = .ok (header p) := by
  have long : ¬ (asRef p).length < headerSize := by
    rw [as_ref_length, Packet.len]
    omega
  have first : (byteAt (asRef p) 0 : Outcome ParseError UInt8) = .ok (typeVer p.ty) := rfl
  have cut : (asRef p).take headerSize = header p := by
    rw [asRef, append_assoc, take_left' (header_length p)]
  rw [headerTryFromType, if_neg long, first, ok_bind, if_neg (not_not.mpr (type_ver_version _)),
    type_ver_type, ok_bind, cut]

theorem leading_byte : (byteAt (asRef p) 1 : Outcome ε UInt8) = .ok (leading .none p.extensions).toU8 := rfl

end Fields

section Records

/-- One extension: the type of the following one, a length byte, the data. -/
def record (next : UInt8) (data : Bytes) : Bytes := next :: UInt8.ofNat data.length :: data

variable {raw front data : Bytes} {next : UInt8} {ty : ExtensionType}

theorem record_length (next : UInt8) : front.length + (data.length + 2) = (front ++ record next data).length := by
  simp [record]

variable (at_ : front ++ record next data <+: raw)
include at_

theorem record_inside : front.length + (data.length + 2) ≤ raw.length :=
  (record_length next).trans_le at_.length_le

theorem record_following : (byteAt raw front.length : Outcome ε UInt8) = .ok next := by
  obtain ⟨tail, rfl⟩ := at_
  simp [byteAt, record]

variable (short : data.length < 256)
include short

theorem record_size :
    ∃ size, (byteAt raw (front.length + 1) : Outcome ε UInt8) = .ok size ∧ size.toNat = data.length := by
  obtain ⟨tail, rfl⟩ := at_
  exact ⟨UInt8.ofNat data.length, by simp [byteAt, record], UInt8.toNat_ofNat_of_lt short⟩

variable (present : ty ≠ .none) (fuel : Nat)
include present

theorem check_from_record : checkFrom raw (fuel + 1) front.length ty =
      if data.length = 0 ∨ data.length % 4 ≠ 0 then .err .invalidExtensionLength
      else checkFrom raw fuel (front ++ record next data).length (.fromU8 next) := by
  have inside := record_inside at_
  obtain ⟨size, read, same⟩ := record_size (ε := ParseError) at_ short
  have fits : ¬ raw.length < front.length + 2 + data.length := by omega
  rw [checkFrom, if_pos ⟨by omega, present⟩, if_neg (by omega), read, ok_bind, same,
    record_following at_, ok_bind, record_length next]
  simp only [fits, or_false]

theorem extensions_from_record : (extensionsFrom raw (fuel + 1) front.length ty : Outcome ε (List Extension)) =
      extensionsFrom raw fuel (front ++ record next data).length (.fromU8 next) >>=
        fun rest => .ok (⟨ty, data⟩ :: rest) := by
  have inside := record_inside at_
  obtain ⟨size, read, same⟩ := record_size (ε := ε) at_ short
  have body : (raw.drop (front.length + 2)).take data.length = data := by
    obtain ⟨tail, rfl⟩ := at_
    rw [← drop_drop, append_assoc, drop_left]
    exact take_left
  rw [extensionsFrom, if_neg present, if_pos (by omega), read, ok_bind, same,
    slice_ok (by omega) (by omega), Nat.add_sub_cancel_left, body, ok_bind, record_following at_, ok_bind,
    record_length next]

theorem skip_from_record : (skipFrom raw (fuel + 1) front.length ty : Outcome ε Nat) =
      skipFrom raw fuel (front ++ record next data).length (.fromU8 next) := by
  have inside := record_inside at_
  obtain ⟨size, read, same⟩ := record_size (ε := ε) at_ short
  rw [skipFrom, if_pos ⟨by omega, present⟩, read, ok_bind, same, record_following at_, ok_bind,
    record_length next]

theorem mark_from_record : (markFrom (fuel + 1) raw front.length ty : Outcome ε (Bytes × Nat)) =
      markFrom fuel
        (if ExtensionType.fromU8 next = .none then raw.set front.length ExtensionType.selectiveAck.toU8 else raw)
        (front ++ record next data).length (.fromU8 next) := by
  have inside := record_inside at_
  obtain ⟨size, read, same⟩ := record_size (ε := ε) at_ short
  rw [markFrom, if_pos ⟨by omega, present⟩, read, ok_bind, same, record_following at_, ok_bind,
    record_length next]

end Records

section Chains

/-- The bytes of the extension tell its type and its length. -/
structure Legible (e : Extension) : Prop where
  present : e.ty ≠ .none
  plain : ExtensionType.fromU8 e.ty.toU8 = e.ty
  short : e.data.length < 256

/-- What `check_extensions` asks of an extension. -/
structure Valid (e : Extension) : Prop extends Legible e where
  filled : e.data.length ≠ 0
  words : e.data.length % 4 = 0

variable {list : List Extension}

theorem leading_plain (legible : ∀ e ∈ list, Legible e) :
    ExtensionType.fromU8 (leading .none list).toU8 = leading .none list := by
  cases list with
  | nil => rfl
  | cons e rest => exact (legible e mem_cons_self).plain

variable (front tail : Bytes)

theorem chain_cons (closing : ExtensionType) (e : Extension) (rest : List Extension) :
    front ++ chain closing (e :: rest) =
      front ++ record (leading closing rest).toU8 e.data ++ chain closing rest := by
  simp [record, chain]

theorem record_at_chain (closing : ExtensionType) (e : Extension) (rest : List Extension) :
    front ++ record (leading closing rest).toU8 e.data <+: front ++ chain closing (e :: rest) ++ tail :=
  ⟨chain closing rest ++ tail, by simp [record, chain]⟩

variable {spare : Nat}

theorem check_from_chain (valid : ∀ e ∈ list, Valid e) :
    checkFrom (front ++ chain .none list ++ tail) (spare + list.length + 1) front.length
      (leading .none list) = .ok .none := by
  induction list generalizing front with
  | nil => simp [checkFrom, leading]
  | cons e rest ih =>
    obtain ⟨first, others⟩ := forall_mem_cons.mp valid
    have sound : ¬ (e.data.length = 0 ∨ e.data.length % 4 ≠ 0) := by
      rintro (empty | odd)
      · exact first.filled empty
      · exact odd first.words
    rw [leading, check_from_record (record_at_chain front tail .none e rest) first.short first.present,
      if_neg sound, leading_plain fun e member => (others e member).toLegible, chain_cons]
    exact ih _ others

theorem extensions_from_chain (legible : ∀ e ∈ list, Legible e) :
    (extensionsFrom (front ++ chain .none list ++ tail) (spare + list.length + 1) front.length
      (leading .none list) : Outcome ε (List Extension)) = .ok list := by
  induction list generalizing front with
  | nil => simp [extensionsFrom, leading]
  | cons e rest ih =>
    obtain ⟨first, others⟩ := forall_mem_cons.mp legible
    rw [leading, extensions_from_record (record_at_chain front tail .none e rest) first.short first.present,
      leading_plain others, chain_cons]
    exact bind_congr (ih _ others) fun _ _ => rfl

theorem skip_from_chain (legible : ∀ e ∈ list, Legible e) :
    (skipFrom (front ++ chain .none list ++ tail) (spare + list.length + 1) front.length
      (leading .none list) : Outcome ε Nat) = .ok (front ++ chain .none list).length := by
  induction list generalizing front with
  | nil => simp [skipFrom, leading, chain]
  | cons e rest ih =>
    obtain ⟨first, others⟩ := forall_mem_cons.mp legible
    rw [leading, skip_from_record (record_at_chain front tail .none e rest) first.short first.present,
      leading_plain others, chain_cons]
    exact ih _ others

/-- The loop of `set_sack` walks past all extensions and changes only what the last one
    announces. -/
theorem mark_from_chain {e : Extension} {rest : List Extension}
    (legible : ∀ d ∈ e :: rest, Legible d) :
    (markFrom (spare + (rest.length + 1) + 1) (front ++ chain .none (e :: rest) ++ tail) front.length e.ty :
      Outcome ε (Bytes × Nat)) =
      .ok (front ++ chain .selectiveAck (e :: rest) ++ tail,
        (front ++ chain .selectiveAck (e :: rest)).length) := by
  induction rest generalizing front e with
  | nil =>
    have only := legible e mem_cons_self
    rw [mark_from_record (record_at_chain front tail .none e []) only.short only.present]
    simp [markFrom, record, chain, leading, ExtensionType.fromU8, ExtensionType.toU8]
  | cons second rest ih =>
    obtain ⟨first, others⟩ := forall_mem_cons.mp legible
    have announced : ExtensionType.fromU8 (leading .none (second :: rest)).toU8 = second.ty :=
      leading_plain others
    rw [mark_from_record (record_at_chain front tail .none e _) first.short first.present, announced,
      if_neg (others second mem_cons_self).present, chain_cons, chain_cons front .selectiveAck]
    exact ih _ others

end Chains

section Packets
variable {p : Packet}

/-- Every byte of the packet is a turn of the loops, so there are enough. -/
theorem fuel_enough (p : Packet) : ∃ spare, (asRef p).length = spare + p.extensions.length := by
  have each : p.extensions.length ≤ (p.extensions.map fun e => e.data.length + 2).sum := by
    induction p.extensions with
    | nil => rfl
    | cons e rest ih =>
      simp only [length_cons, map_cons, sum_cons]
      omega
  refine ⟨(asRef p).length - p.extensions.length, ?_⟩
  rw [as_ref_length, Packet.len]
  omega

section
variable (legible : ∀ e ∈ p.extensions, Legible e)
include legible

theorem extensions_as_ref : (extensions (asRef p) : Outcome ε (List Extension)) = .ok p.extensions := by
  obtain ⟨spare, enough⟩ := fuel_enough p
  rw [extensions, leading_byte, ok_bind, leading_plain legible, enough, ← header_length p]
  exact extensions_from_chain (header p) p.payload legible

theorem payload_as_ref : (payload (asRef p) : Outcome ε Bytes) = .ok p.payload := by
  obtain ⟨spare, enough⟩ := fuel_enough p
  have inside : (header p ++ chain .none p.extensions).length ≤
      (header p ++ chain .none p.extensions ++ p.payload).length := by simp
  rw [payload, leading_byte, ok_bind, leading_plain legible, enough, ← header_length p, asRef,
    skip_from_chain _ _ legible, ok_bind, slice_from_ok inside, drop_left]

/-- The getters show the packet that was written. -/
theorem shown_as_ref : (shown (asRef p) : Outcome ε Packet) = .ok p := by
  rw [shown, get_type_as_ref, ok_bind, extensions_as_ref legible, ok_bind,
    payload_as_ref legible, ok_bind, connection_id_as_ref, timestamp_as_ref,
    timestamp_difference_as_ref, wnd_size_as_ref, seq_nr_as_ref, ack_nr_as_ref]

end

/-- The packet up to its payload, with a selective acknowledgement announced behind the last
    extension. -/
def linked (p : Packet) : Bytes :=
  (header p).set 1 (leading .selectiveAck p.extensions).toU8 ++ chain .selectiveAck p.extensions

theorem linked_as_ref (p : Packet) (bv : Bytes) :
    asRef { p with extensions := p.extensions ++ [⟨.selectiveAck, bv⟩] } =
      linked p ++ chain .none [⟨.selectiveAck, bv⟩] ++ p.payload := by
  simp only [asRef, linked, header, chain_append, leading_append, set_cons_succ,
    set_cons_zero, append_assoc, cons_append]
  rfl

theorem announce_linked (legible : ∀ e ∈ p.extensions, Legible e) :
    (announceSack (asRef p) (leading .none p.extensions) : Outcome ε (Bytes × Nat)) =
      .ok (linked p ++ p.payload, (linked p).length) := by
  obtain ⟨spare, enough⟩ := fuel_enough p
  unfold announceSack
  cases list : p.extensions with
  | nil =>
    rw [leading, if_pos rfl]
    simp [linked, asRef, header, list, leading, chain, headerSize]
  | cons e rest =>
    rw [list] at legible
    have same : (header p).set 1 e.ty.toU8 = header p := by
      simp [header, list, leading]
    rw [leading, if_neg (legible e mem_cons_self).present, enough, asRef, linked, list, leading, same,
      ← header_length p]
    exact mark_from_chain (header p) p.payload legible

theorem insert_sack_at (front back bv : Bytes) :
    (insertSack (front ++ back) front.length bv : Outcome ε Bytes) =
      .ok (front ++ chain .none [⟨.selectiveAck, bv⟩] ++ back) := by
  rw [insertSack, if_pos (by simp), take_left, drop_left]
  simp [chain, leading]

theorem set_sack_as_ref (legible : ∀ e ∈ p.extensions, Legible e) (bv : Bytes) :
    (setSack (asRef p) bv : Outcome ε Bytes) = p.setSack bv >>= fun q => .ok (asRef q) := by
  by_cases sized : 4 ≤ bv.length ∧ bv.length % 4 = 0
  · rw [setSack, if_pos sized, leading_byte, ok_bind, leading_plain legible,
      announce_linked legible, ok_bind, Packet.setSack, if_pos sized, ok_bind, linked_as_ref]
    exact insert_sack_at _ _ _
  · rw [setSack, if_neg sized, Packet.setSack, if_neg sized, panic_bind]

theorem check_extensions_as_ref (valid : ∀ e ∈ p.extensions, Valid e) :
    checkExtensions (asRef p) = .ok () := by
  have legible : ∀ e ∈ p.extensions, Legible e := fun e member => (valid e member).toLegible
  obtain ⟨spare, enough⟩ := fuel_enough p
  have size : (asRef p).length = headerSize + (p.extensions.map fun e => e.data.length + 2).sum +
      p.payload.length := as_ref_length p
  have bare : ¬ ((asRef p).length = headerSize ∧ leading .none p.extensions ≠ .none) := by
    rintro ⟨short, announced⟩
    cases list : p.extensions with
    | nil => exact announced (by rw [list]; rfl)
    | cons e rest =>
      rw [short, list, map_cons, sum_cons] at size
      omega
  rw [checkExtensions, if_neg (by omega), leading_byte, ok_bind, leading_plain legible,
    if_neg bare, enough, ← header_length p, asRef, check_from_chain _ _ valid, ok_bind,
    if_neg (not_not.mpr rfl)]

theorem try_from_type_as_ref (valid : ∀ e ∈ p.extensions, Valid e) :
    tryFromType (asRef p) = .ok (asRef p) := by
  rw [tryFromType, header_try_from_type_as_ref, ok_bind, check_extensions_as_ref valid,
    ok_bind]

end Packets

section Accepted
variable {raw : Bytes}

theorem from_u8_to_u8 (byte : UInt8) : (ExtensionType.fromU8 byte).toU8 = byte := by
  unfold ExtensionType.fromU8
  split
  · rename_i zero
    exact zero.symm
  · split
    · rename_i one
      exact one.symm
    · rfl

/-- A record that passes the check is a valid extension. -/
theorem check_from_step {fuel index : Nat} {ty last : ExtensionType} (present : ty ≠ .none)
    (plain : ExtensionType.fromU8 ty.toU8 = ty) (inside : index < raw.length)
    (passes : checkFrom raw (fuel + 1) index ty = .ok last) :
    ∃ next data tail, raw.drop index = next :: UInt8.ofNat data.length :: (data ++ tail) ∧
      Valid ⟨ty, data⟩ ∧ checkFrom raw fuel (index + (data.length + 2)) (.fromU8 next) = .ok last := by
  rw [checkFrom, if_pos ⟨inside, present⟩] at passes
  by_cases short : raw.length < index + 2
  · rw [if_pos short] at passes
    cases passes
  · rw [if_neg short] at passes
    have two : raw.drop index = raw[index] :: raw[index + 1] :: raw.drop (index + 2) := by
      rw [drop_eq_getElem_cons inside, drop_eq_getElem_cons (by omega)]
    have next : (byteAt raw index : Outcome ParseError UInt8) = .ok raw[index] := by
      rw [byteAt, List.getElem?_eq_getElem inside]
    have size : (byteAt raw (index + 1) : Outcome ParseError UInt8) = .ok raw[index + 1] := by
      rw [byteAt, List.getElem?_eq_getElem (by omega)]
    rw [size, ok_bind] at passes
    by_cases wrong : raw[index + 1].toNat = 0 ∨ raw[index + 1].toNat % 4 ≠ 0 ∨
        raw.length < index + 2 + raw[index + 1].toNat
    · rw [if_pos wrong] at passes
      cases passes
    · rw [if_neg wrong, next, ok_bind] at passes
      push Not at wrong
      obtain ⟨filled, words, fits⟩ := wrong
      have small := raw[index + 1].toNat_lt
      have cut : ((raw.drop (index + 2)).take raw[index + 1].toNat).length = raw[index + 1].toNat := by
        simp only [length_take, length_drop]
        omega
      refine ⟨raw[index], (raw.drop (index + 2)).take raw[index + 1].toNat,
        (raw.drop (index + 2)).drop raw[index + 1].toNat, ?_, ⟨⟨present, plain, ?_⟩, ?_, ?_⟩, ?_⟩
      · rw [two, take_append_drop, cut, UInt8.ofNat_toNat]
      · rw [cut]
        exact small
      · rwa [cut]
      · rwa [cut]
      · rwa [cut]

theorem check_from_accepted {fuel index : Nat} {ty : ExtensionType} (inside : index ≤ raw.length)
    (plain : ExtensionType.fromU8 ty.toU8 = ty) (passes : checkFrom raw fuel index ty = .ok .none) :
    ∃ list tail, raw.drop index = chain .none list ++ tail ∧ ty = leading .none list ∧
      ∀ e ∈ list, Valid e := by
  induction fuel generalizing index ty with
  | zero => cases passes
  | succ fuel ih =>
    by_cases more : index < raw.length ∧ ty ≠ .none
    · obtain ⟨next, data, tail, split, valid, rest⟩ :=
        check_from_step more.2 plain more.1 passes
      have size := congrArg List.length split
      simp only [length_drop, length_cons, length_append] at size
      obtain ⟨list, tail', behind, announced, others⟩ := ih (by omega)
        (congrArg _ (from_u8_to_u8 next)) rest
      have tail_eq : tail = chain .none list ++ tail' := by
        rw [← behind, ← drop_drop, split]
        simp
      refine ⟨⟨ty, data⟩ :: list, tail', ?_, rfl, ?_⟩
      · rw [split, tail_eq, chain, ← announced, from_u8_to_u8]
        simp
      · exact forall_mem_cons.mpr ⟨valid, others⟩
    · rw [checkFrom, if_neg more] at passes
      cases passes
      exact ⟨[], raw.drop index, rfl, rfl, fun e member => absurd member not_mem_nil⟩

theorem packet_type_byte {byte : UInt8} {t : PacketType}
    (known : PacketType.tryFromType byte = .ok t) : byte = t.toU8 := by
  unfold PacketType.tryFromType at known
  split_ifs at known with data fin state reset syn <;> cases known
  · exact data
  · exact fin
  · exact state
  · exact reset
  · exact syn

theorem type_ver_of_header {byte : UInt8} {t : PacketType} (version : byte &&& 0x0F = 1)
    (known : PacketType.tryFromType (byte >>> 4) = .ok t) : byte = typeVer t := by
  have low : byte.toNat % 16 = 1 := by
    have digit := congrArg UInt8.toNat version
    rw [UInt8.toNat_and] at digit
    exact (Nat.and_two_pow_sub_one_eq_mod byte.toNat 4).symm.trans digit
  have high : byte.toNat / 16 = t.toU8.toNat := by
    have digit := congrArg UInt8.toNat (packet_type_byte known)
    rw [UInt8.toNat_shiftRight, Nat.shiftRight_eq_div_pow] at digit
    exact digit
  have value : (typeVer t).toNat = 16 * t.toU8.toNat + 1 := by
    cases t <;> rfl
  apply UInt8.toNat_inj.mp
  omega

theorem header_split (long : headerSize ≤ raw.length) :
    ∃ first second connectionId timestamp timestampDifference wndSize seqNr ackNr rest,
      raw = first :: second :: (writeU16 connectionId ++ writeU32 timestamp ++
        writeU32 timestampDifference ++ writeU32 wndSize ++ writeU16 seqNr ++ writeU16 ackNr) ++ rest := by
  obtain ⟨first, rest, rfl⟩ := exists_cons_of_length_pos (Nat.lt_of_lt_of_le (by decide) long)
  simp only [headerSize, length_cons] at long
  obtain ⟨second, rest, rfl⟩ := exists_cons_of_length_pos (show 0 < rest.length by omega)
  simp only [length_cons] at long
  obtain ⟨connectionId, rest, rfl⟩ := be_u16_split (show 2 ≤ rest.length by omega)
  simp only [length_append, write_u16_length] at long
  obtain ⟨timestamp, rest, rfl⟩ := be_u32_split (show 4 ≤ rest.length by omega)
  simp only [length_append, write_u32_length] at long
  obtain ⟨timestampDifference, rest, rfl⟩ := be_u32_split (show 4 ≤ rest.length by omega)
  simp only [length_append, write_u32_length] at long
  obtain ⟨wndSize, rest, rfl⟩ := be_u32_split (show 4 ≤ rest.length by omega)
  simp only [length_append, write_u32_length] at long
  obtain ⟨seqNr, rest, rfl⟩ := be_u16_split (show 2 ≤ rest.length by omega)
  simp only [length_append, write_u16_length] at long
  obtain ⟨ackNr, rest, rfl⟩ := be_u16_split (show 2 ≤ rest.length by omega)
  exact ⟨first, second, connectionId, timestamp, timestampDifference, wndSize, seqNr, ackNr, rest,
    by simp⟩

theorem header_accepted {head : Bytes} (accepted : headerTryFromType raw = .ok head) :
    headerSize ≤ raw.length ∧ ∃ first t, (byteAt raw 0 : Outcome ParseError UInt8) = .ok first ∧
      first = typeVer t := by
  unfold headerTryFromType at accepted
  split at accepted
  · cases accepted
  · rename_i long
    obtain ⟨first, read, accepted⟩ := bind_eq_ok.mp accepted
    split at accepted
    · cases accepted
    · rename_i version
      obtain ⟨t, known, _⟩ := bind_eq_ok.mp accepted
      exact ⟨not_lt.mp long, first, t, read, type_ver_of_header (not_not.mp version) known⟩

theorem check_extensions_accepted {second : UInt8}
    (read : (byteAt raw 1 : Outcome ParseError UInt8) = .ok second)
    (accepted : checkExtensions raw = .ok ()) :
    ∃ list tail, raw.drop headerSize = chain .none list ++ tail ∧
      second = (leading .none list).toU8 ∧ ∀ e ∈ list, Valid e := by
  unfold checkExtensions at accepted
  split at accepted
  · cases accepted
  · rename_i long
    rw [read, ok_bind] at accepted
    split at accepted
    · cases accepted
    · obtain ⟨last, walked, ended⟩ := bind_eq_ok.mp accepted
      split at ended
      · cases ended
      · rename_i done
        rw [not_not.mp done] at walked
        obtain ⟨list, tail, chained, announced, valid⟩ := check_from_accepted (not_lt.mp long)
          (congrArg _ (from_u8_to_u8 second)) walked
        refine ⟨list, tail, chained, ?_, valid⟩
        rw [← announced, from_u8_to_u8]

variable {raw' : Bytes}

/-- What is accepted was written by a packet with valid extensions, the one its getters show. -/
theorem accepted_shown (accepted : tryFromType raw = .ok raw') :
    raw' = raw ∧ ∃ p, (shown raw : Outcome ε Packet) = .ok p ∧ asRef p = raw ∧
      ∀ e ∈ p.extensions, Valid e := by
  obtain ⟨_, headed, accepted⟩ := bind_eq_ok.mp accepted
  obtain ⟨_, checked, accepted⟩ := bind_eq_ok.mp accepted
  cases accepted
  obtain ⟨long, byte, t, read, start⟩ := header_accepted headed
  obtain ⟨first, second, connectionId, timestamp, timestampDifference, wndSize, seqNr, ackNr, rest,
    split⟩ := header_split long
  have same : first = byte := by
    rw [split] at read
    exact Outcome.ok.inj read
  have behind : raw.drop headerSize = rest := by
    rw [split]
    exact drop_left' (by simp [headerSize])
  obtain ⟨list, tail, chained, announced, valid⟩ :=
    check_extensions_accepted (by rw [split]; rfl) checked
  let p : Packet :=
    ⟨t, list, connectionId, timestamp, timestampDifference, wndSize, seqNr, ackNr, tail⟩
  have written : asRef p = raw := by
    rw [split, same, start, announced, ← behind, chained]
    simp [p, asRef, header]
  refine ⟨rfl, p, ?_, written, valid⟩
  rw [← written]
  exact shown_as_ref fun e member => (valid e member).toLegible

/-- The header, the records that `extensions` iterates over and the payload are the accepted bytes. -/
theorem accepted_decomposes (accepted : tryFromType raw = .ok raw') :
    ∃ list rest, (extensions raw : Outcome ε (List Extension)) = .ok list ∧
      (payload raw : Outcome ε Bytes) = .ok rest ∧
      raw = raw.take headerSize ++ chain .none list ++ rest ∧
      raw[1]? = some (leading .none list).toU8 := by
  obtain ⟨_, p, _, rfl, valid⟩ := accepted_shown (ε := ε) accepted
  have legible : ∀ e ∈ p.extensions, Legible e := fun e member => (valid e member).toLegible
  refine ⟨p.extensions, p.payload, extensions_as_ref legible, payload_as_ref legible, ?_, rfl⟩
  nth_rewrite 1 [asRef]
  rw [asRef, append_assoc, append_assoc, take_left' (header_length p)]

theorem sack_decomposes : ∃ raw : Bytes, tryFromType raw = .ok raw ∧
    (extensions raw : Outcome Unit (List Extension)) = .ok [⟨.selectiveAck, [1, 0, 0, 0]⟩] ∧
    ∃ rest, (payload raw : Outcome Unit Bytes) = .ok rest := by
  refine ⟨[0x21, 1] ++ List.replicate 18 0 ++ [0, 4, 1, 0, 0, 0, 7], rfl, rfl, ?_⟩
  obtain ⟨_, rest, _, read, _⟩ := accepted_decomposes (ε := Unit)
    (show tryFromType ([0x21, 1] ++ List.replicate 18 0 ++ [0, 4, 1, 0, 0, 0, 7]) = .ok _ from rfl)
  exact ⟨rest, read⟩

/-- A selective acknowledgement goes behind the last extension, and nothing else changes. -/
theorem set_sack_conservative {bv : Bytes} (accepted : tryFromType raw = .ok raw')
    (words : bv.length % 4 = 0) (least : 4 ≤ bv.length) (most : bv.length ≤ 252) :
    ∃ p written, (shown raw : Outcome ε Packet) = .ok p ∧
      (setSack raw bv : Outcome ε Bytes) = .ok written ∧ tryFromType written = .ok written ∧
      (shown written : Outcome ε Packet) =
        .ok { p with extensions := p.extensions ++ [⟨.selectiveAck, bv⟩] } := by
  obtain ⟨_, p, shows, rfl, valid⟩ := accepted_shown (ε := ε) accepted
  have extended : ∀ e ∈ p.extensions ++ [⟨.selectiveAck, bv⟩], Valid e := by
    refine forall_mem_append.mpr ⟨valid, forall_mem_singleton.mpr ?_⟩
    exact ⟨⟨nofun, rfl, by dsimp only; omega⟩, by dsimp only; omega, words⟩
  refine ⟨p, _, shows, ?_, try_from_type_as_ref extended,
    shown_as_ref fun e member => (extended e member).toLegible⟩
  rw [set_sack_as_ref fun e member => (valid e member).toLegible, Packet.setSack,
    if_pos ⟨least, words⟩, ok_bind]

theorem sack_on_state_conservative : ∃ raw written : Bytes, tryFromType raw = .ok raw ∧
    (setSack raw [1, 0, 0, 0] : Outcome Unit Bytes) = .ok written ∧
    tryFromType written = .ok written := by
  obtain ⟨_, written, _, set, again, _⟩ := set_sack_conservative (ε := Unit)
    (show tryFromType (0x21 :: List.replicate 19 0) = .ok _ from rfl)
    (show ([1, 0, 0, 0] : Bytes).length % 4 = 0 from rfl) (by decide) (by decide)
  exact ⟨_, written, rfl, set, again⟩

end Accepted

end UtpWire
