import Bittorrent.Lib.Bytes

/-!
uTP packets as their getters show them. `len` is the length of the encoded packet, two bytes of
link and length in front of the data of every extension.
-/
namespace UtpPacket
open Rust

def headerSize : Nat := 20

inductive PacketType where
  | data | fin | state | reset | syn
  deriving DecidableEq, Repr

inductive ParseError where
  | invalidExtensionLength
  | invalidPacketLength
  | invalidPacketType (n : UInt8)
  | unsupportedVersion
  deriving DecidableEq, Repr

def PacketType.tryFromType (original : UInt8) : Outcome ParseError PacketType :=
  if original = 0 then .ok .data
  else if original = 1 then .ok .fin
  else if original = 2 then .ok .state
  else if original = 3 then .ok .reset
  else if original = 4 then .ok .syn
  else .err (.invalidPacketType original)

def PacketType.toU8 : PacketType → UInt8
  | .data => 0
  | .fin => 1
  | .state => 2
  | .reset => 3
  | .syn => 4

inductive ExtensionType where
  | none | selectiveAck | unknown (n : UInt8)
  deriving DecidableEq, Repr

def ExtensionType.fromU8 (original : UInt8) : ExtensionType :=
  if original = 0 then .none else if original = 1 then .selectiveAck else .unknown original

def ExtensionType.toU8 : ExtensionType → UInt8
  | .none => 0
  | .selectiveAck => 1
  | .unknown n => n

structure Extension where
  ty : ExtensionType
  data : Bytes
  deriving DecidableEq, Repr

structure Packet where
  ty : PacketType
  extensions : List Extension
  connectionId : UInt16
  timestamp : UInt32
  timestampDifference : UInt32
  wndSize : UInt32
  seqNr : UInt16
  ackNr : UInt16
  payload : Bytes
  deriving DecidableEq, Repr

def Packet.new : Packet := ⟨.data, [], 0, 0, 0, 0, 0, 0, []⟩

def Packet.withPayload (payload : Bytes) : Packet := { Packet.new with payload := payload }

def Packet.len (p : Packet) : Nat :=
  headerSize + (p.extensions.map fun e => e.data.length + 2).sum + p.payload.length

/-- `set_sack` with its two assertions. -/
def Packet.setSack {ε : Type} (p : Packet) (bv : Bytes) : Outcome ε Packet :=
  if 4 ≤ bv.length ∧ bv.length % 4 = 0 then
    .ok { p with extensions := p.extensions ++ [⟨.selectiveAck, bv⟩] }
  else .panic

/-- The bits of an extension, least significant first within each byte. -/
def Extension.iter (e : Extension) : List Bool :=
  e.data.flatMap fun byte => (List.range 8).map fun i => byte.toNat.testBit i

def Extension.countOnes (e : Extension) : Nat := e.iter.count true

end UtpPacket
