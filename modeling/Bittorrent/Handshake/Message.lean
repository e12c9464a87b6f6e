import Bittorrent.Lib.Nom
import Bittorrent.Util.ShaHash

/-!
The handshake of the peer protocol: the name of a protocol behind its length, eight bytes of extension
bits, an info hash and a peer id.
-/
namespace HandshakeMessages
open Rust Outcome NomParse UtilSha

def btProtocol : Bytes :=
  [66, 105, 116, 84, 111, 114, 114, 101, 110, 116, 32, 112, 114, 111, 116, 111, 99, 111, 108]

def btProtocolLen : Nat := 19

def u8Max : Nat := 255

inductive Protocol where
  | bitTorrent
  | custom (raw : Bytes)
  deriving DecidableEq, Repr

def Protocol.writeBytes : Protocol → Bytes
  | .bitTorrent => UInt8.ofNat btProtocolLen :: btProtocol
  | .custom raw => UInt8.ofNat raw.length :: raw

def Protocol.writeLen : Protocol → Nat
  | .bitTorrent => btProtocolLen
  | .custom raw => raw.length

def numExtensionBytes : Nat := 8

structure Extensions where
  bytes : Vector UInt8 numExtensionBytes
  deriving DecidableEq, Repr

def Extensions.new : Extensions := ⟨Vector.replicate numExtensionBytes 0⟩

/-- What `from_parts` lets through: the length of the protocol has to fit into its byte. -/
structure HandshakeMessage where
  prot : Protocol
  ext : Extensions
  hash : ShaHash
  pid : ShaHash
  fits : prot.writeLen ≤ u8Max
  deriving DecidableEq

theorem bit_torrent_fits : Protocol.bitTorrent.writeLen ≤ u8Max := by
  decide

def HandshakeMessage.fromParts {ε : Type} (prot : Protocol) (ext : Extensions) (hash pid : ShaHash) :
    Outcome ε HandshakeMessage :=
  -- the source looks at custom protocols only, but the other one fits
  if fits : prot.writeLen ≤ u8Max then .ok ⟨prot, ext, hash, pid, fits⟩ else .panic

def HandshakeMessage.writeBytes (m : HandshakeMessage) : Bytes :=
  m.prot.writeBytes ++ m.ext.bytes.toList ++ m.hash.asRef ++ m.pid.asRef

def writeLenWithProtocolLen (protocolLen : UInt8) : Nat :=
  1 + protocolLen.toNat + numExtensionBytes + shaHashLen + shaHashLen

def HandshakeMessage.writeLen (m : HandshakeMessage) : Nat :=
  writeLenWithProtocolLen (UInt8.ofNat m.prot.writeLen)

section Parse

def parseRawProtocol : Parser Bytes := fun input => do
  let (length, rest) ← beU8 input
  take length.toNat rest

def parseRealProtocol : Parser Protocol := fun input => do
  let (raw, rest) ← parseRawProtocol input
  return (if raw = btProtocol then .bitTorrent else .custom raw, rest)

def parseExtensionBits : Parser Extensions := fun input => do
  let (bytes, rest) ← countFixed beU8 numExtensionBytes input
  return (⟨bytes⟩, rest)

/-- `parse_remote_hash` and `parse_remote_pid`: twenty bytes, and `from_hash(..).unwrap()`. -/
def parseRemoteHash : Parser ShaHash := fun input => do
  let (raw, rest) ← take shaHashLen input
  match fromHash raw with
  | some hash => return (hash, rest)
  | none => .panic

def parseRemoteHandshake : Parser HandshakeMessage := fun input => do
  let (prot, rest) ← parseRealProtocol input
  let (ext, rest) ← parseExtensionBits rest
  let (hash, rest) ← parseRemoteHash rest
  let (pid, rest) ← parseRemoteHash rest
  let message ← HandshakeMessage.fromParts prot ext hash pid
  return (message, rest)

end Parse

section RoundTrip

/-- Not the custom spelling of the built-in protocol. -/
def Protocol.Proper (prot : Protocol) : Prop := prot ≠ .custom btProtocol

def Protocol.name : Protocol → Bytes
  | .bitTorrent => btProtocol
  | .custom raw => raw

theorem name_length (prot : Protocol) : prot.name.length = prot.writeLen := by
  cases prot <;> rfl

theorem write_protocol_eq (prot : Protocol) :
    prot.writeBytes = UInt8.ofNat prot.writeLen :: prot.name := by
  cases prot <;> rfl

variable {prot : Protocol}

theorem length_byte (fits : prot.writeLen ≤ u8Max) :
    (UInt8.ofNat prot.writeLen).toNat = prot.writeLen :=
  UInt8.toNat_ofNat_of_lt (Nat.lt_of_le_of_lt fits (by decide))

theorem protocol_of_name (proper : prot.Proper) :
    (if prot.name = btProtocol then Protocol.bitTorrent else .custom prot.name) = prot := by
  cases prot with
  | bitTorrent => rfl
  | custom raw =>
    have other : raw ≠ btProtocol := fun same => proper (by rw [same])
    exact if_neg other

theorem parse_written_protocol (fits : prot.writeLen ≤ u8Max) (proper : prot.Proper)
    (rest : Bytes) : parseRealProtocol (prot.writeBytes ++ rest) = .ok (prot, rest) := by
  have name : take prot.writeLen (prot.name ++ rest) = .ok (prot.name, rest) :=
    take_append rest (name_length prot)
  have raw : parseRawProtocol (prot.writeBytes ++ rest) = .ok (prot.name, rest) := by
    rw [write_protocol_eq, List.cons_append, parseRawProtocol, be_u8_cons, ok_bind]
    dsimp only
    rw [length_byte fits, name]
  rw [parseRealProtocol, raw, ok_bind]
  dsimp only
  rw [protocol_of_name proper]
  rfl

theorem hash_length (hash : ShaHash) : hash.asRef.length = shaHashLen := hash.hash.length_toList

theorem parse_written_hash (hash : ShaHash) (rest : Bytes) :
    parseRemoteHash (hash.asRef ++ rest) = .ok (hash, rest) := by
  have back : fromHash hash.asRef = some hash := by
    rw [fromHash, dif_pos (hash_length hash)]
    rfl
  rw [parseRemoteHash, take_append rest (hash_length hash), ok_bind]
  simp only [back]
  rfl

theorem parse_written_extensions (ext : Extensions) (rest : Bytes) :
    parseExtensionBits (ext.bytes.toList ++ rest) = .ok (ext, rest) := by
  rw [parseExtensionBits, count_fixed_be_u8, ok_bind]
  rfl

theorem parse_written {m : HandshakeMessage} (proper : m.prot.Proper) (rest : Bytes) :
    parseRemoteHandshake (m.writeBytes ++ rest) = .ok (m, rest) := by
  simp only [HandshakeMessage.writeBytes, List.append_assoc]
  rw [parseRemoteHandshake, parse_written_protocol m.fits proper, ok_bind]
  dsimp only
  rw [parse_written_extensions, ok_bind]
  rw [parse_written_hash, ok_bind]
  rw [parse_written_hash, ok_bind]
  rw [HandshakeMessage.fromParts, dif_pos m.fits]
  rfl

theorem written_length (m : HandshakeMessage) : m.writeBytes.length = m.writeLen := by
  unfold HandshakeMessage.writeBytes HandshakeMessage.writeLen writeLenWithProtocolLen
  rw [length_byte m.fits]
  simp only [List.length_append, write_protocol_eq, List.length_cons, name_length,
    Vector.length_toList, hash_length]
  omega

theorem written_head (m : HandshakeMessage) :
    ∃ rest, m.writeBytes = UInt8.ofNat m.prot.writeLen :: rest := by
  refine ⟨m.prot.name ++ m.ext.bytes.toList ++ m.hash.asRef ++ m.pid.asRef, ?_⟩
  rw [HandshakeMessage.writeBytes, write_protocol_eq]
  rfl

theorem announced_is_written {length : UInt8} {rest : Bytes}
    (whole : (length :: rest).length = writeLenWithProtocolLen length) :
    ∃ m : HandshakeMessage, m.prot.Proper ∧ m.writeBytes = length :: rest := by
  unfold writeLenWithProtocolLen numExtensionBytes shaHashLen at whole
  rw [List.length_cons] at whole
  have part : ∀ (bytes : Bytes) (size : Nat), size ≤ bytes.length → ∃ front back,
      bytes = front ++ back ∧ front.length = size ∧ back.length = bytes.length - size := by
    intro bytes size inside
    refine ⟨bytes.take size, bytes.drop size, (List.take_append_drop ..).symm, ?_, List.length_drop⟩
    rw [List.length_take]
    omega
  obtain ⟨name, behindName, rfl, nameSize, more⟩ := part rest length.toNat (by omega)
  obtain ⟨ext, behindExt, rfl, extSize, more⟩ := part behindName 8 (by omega)
  obtain ⟨hash, pid, rfl, hashSize, pidSize⟩ := part behindExt 20 (by omega)
  have pidSize : pid.length = 20 := by omega
  have small := length.toNat_lt
  obtain ⟨prot, proper, isName⟩ : ∃ prot : Protocol, prot.Proper ∧ prot.name = name := by
    by_cases same : name = btProtocol
    · exact ⟨.bitTorrent, by simp [Protocol.Proper], same.symm⟩
    · exact ⟨.custom name, fun other => same (Protocol.custom.inj other), rfl⟩
  have protSize : prot.writeLen = length.toNat := by rw [← name_length, isName, nameSize]
  refine ⟨⟨prot, ⟨⟨ext.toArray, by simpa [numExtensionBytes] using extSize⟩⟩,
    ⟨⟨hash.toArray, by simpa [shaHashLen] using hashSize⟩⟩,
    ⟨⟨pid.toArray, by simpa [shaHashLen] using pidSize⟩⟩, by unfold u8Max; omega⟩, proper, ?_⟩
  simp [HandshakeMessage.writeBytes, write_protocol_eq, ShaHash.asRef, Vector.toList, protSize, isName]

end RoundTrip

end HandshakeMessages
