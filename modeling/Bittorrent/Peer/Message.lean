import Bittorrent.Peer.Extended

/-!
The messages of the peer wire protocol: their sizes, how they are written, and how they are parsed
out of a buffer. A message is recognised by its length prefix and its id, through alternatives that
are tried one after another. Writing goes into memory and does not fail by itself.
-/
namespace PeerMessage
open Rust NomParse BencodeValue BencodeConvert BencodeEncode PeerExtended
variable {ε : Type}

section Constants

def keepAliveMessageLen : UInt32 := 0
def chokeMessageLen : UInt32 := 1
def unchokeMessageLen : UInt32 := 1
def interestedMessageLen : UInt32 := 1
def uninterestedMessageLen : UInt32 := 1
def haveMessageLen : UInt32 := 5
def baseBitfieldMessageLen : Nat := 1
def requestMessageLen : UInt32 := 13
def basePieceMessageLen : Nat := 9
def cancelMessageLen : UInt32 := 13
def portMessageLen : UInt32 := 3
def baseExtendedMessageLen : Nat := 2

def chokeMessageId : UInt8 := 0
def unchokeMessageId : UInt8 := 1
def interestedMessageId : UInt8 := 2
def uninterestedMessageId : UInt8 := 3
def haveMessageId : UInt8 := 4
def bitfieldMessageId : UInt8 := 5
def requestMessageId : UInt8 := 6
def pieceMessageId : UInt8 := 7
def cancelMessageId : UInt8 := 8
def portMessageId : UInt8 := 9
def extendedMessageId : UInt8 := 20
def extendedMessageHandshakeId : UInt8 := 0

def messageLengthLenBytes : Nat := 4
def headerLen : Nat := 5
def baseProtExtensionMessageLen : Nat := 2
def extensionHeaderLen : Nat := 6

end Constants

def subU32 (a b : UInt32) : Outcome ε UInt32 := if b ≤ a then .ok (a - b) else .panic

def writeLengthIdPair (length : UInt32) (optId : Option UInt8) : Bytes :=
  writeU32 length ++ optId.toList

section Standard

structure HaveMessage where
  pieceIndex : UInt32
  deriving DecidableEq, Repr

def HaveMessage.parseBytes (bytes : Bytes) : Parsed (IoResult HaveMessage) := do
  let (index, _) ← beU32 bytes
  return .ok ⟨index⟩

def HaveMessage.writeBytes (msg : HaveMessage) : Bytes :=
  writeLengthIdPair haveMessageLen (some haveMessageId) ++ writeU32 msg.pieceIndex

structure BitFieldMessage where
  bytes : Bytes
  deriving DecidableEq, Repr

def BitFieldMessage.parseBytes (bytes : Bytes) (len : UInt32) : Parsed (IoResult BitFieldMessage) :=
  if len.toNat ≤ bytes.length then .ok (.ok ⟨bytes.take len.toNat⟩) else .err .incomplete

def BitFieldMessage.writeBytes (msg : BitFieldMessage) : Bytes :=
  writeLengthIdPair (UInt32.ofNat (1 + msg.bytes.length)) (some bitfieldMessageId) ++ msg.bytes

/-- The fields that a request and a cancel message share. -/
structure Block where
  pieceIndex : UInt32
  blockOffset : UInt32
  blockLength : Nat
  deriving DecidableEq, Repr

def Block.parseBytes (bytes : Bytes) : Parsed (IoResult Block) := do
  let (index, rest) ← beU32 bytes
  let (offset, rest) ← beU32 rest
  let (length, _) ← beU32 rest
  return .ok ⟨index, offset, length.toNat⟩

def Block.writeFields (block : Block) : Bytes :=
  writeU32 block.pieceIndex ++ (writeU32 block.blockOffset ++ writeU32 (UInt32.ofNat block.blockLength))

abbrev RequestMessage := Block

def RequestMessage.parseBytes (bytes : Bytes) : Parsed (IoResult RequestMessage) :=
  Block.parseBytes bytes

def RequestMessage.writeBytes (msg : RequestMessage) : Bytes :=
  writeLengthIdPair requestMessageLen (some requestMessageId) ++ msg.writeFields

abbrev CancelMessage := Block

def CancelMessage.parseBytes (bytes : Bytes) : Parsed (IoResult CancelMessage) :=
  Block.parseBytes bytes

def CancelMessage.writeBytes (msg : CancelMessage) : Bytes :=
  writeLengthIdPair cancelMessageLen (some cancelMessageId) ++ msg.writeFields

structure PieceMessage where
  pieceIndex : UInt32
  blockOffset : UInt32
  block : Bytes
  deriving DecidableEq, Repr

def PieceMessage.parseBytes (bytes : Bytes) (len : UInt32) : Parsed (IoResult PieceMessage) := do
  let (pieceIndex, rest) ← beU32 bytes
  let (blockOffset, rest) ← beU32 rest
  let blockLen ← subU32 len 8
  let _ ← take blockLen.toNat rest
  let block ← slice bytes 8 (8 + blockLen.toNat)
  return .ok ⟨pieceIndex, blockOffset, block.bytes⟩

def PieceMessage.writeBytes (msg : PieceMessage) : Bytes :=
  writeLengthIdPair (UInt32.ofNat (9 + msg.block.length)) (some pieceMessageId) ++
    (writeU32 msg.pieceIndex ++ (writeU32 msg.blockOffset ++ msg.block))

end Standard

section BitsExtension

structure PortMessage where
  port : UInt16
  deriving DecidableEq, Repr

def PortMessage.parseBytes (bytes : Bytes) : Parsed (IoResult PortMessage) := do
  let (port, _) ← beU16 bytes
  return .ok ⟨port⟩

def PortMessage.writeBytes (msg : PortMessage) : Bytes :=
  writeLengthIdPair portMessageLen (some portMessageId) ++ writeU16 msg.port

def writeExtended (msg : ExtendedMessage) : Bytes :=
  writeLengthIdPair (UInt32.ofNat (2 + msg.bencodeSize)) (some extendedMessageId) ++
    extendedMessageHandshakeId :: msg.rawBencode

inductive BitsExtensionMessage where
  | port (msg : PortMessage)
  | extended (msg : ExtendedMessage)
  deriving DecidableEq

def BitsExtensionMessage.writeBytes : BitsExtensionMessage → Bytes
  | .port msg => msg.writeBytes
  | .extended msg => writeExtended msg

def BitsExtensionMessage.messageSize : BitsExtensionMessage → Nat
  | .port _ => portMessageLen.toNat
  | .extended msg => baseExtendedMessageLen + msg.bencodeSize

/-- The first alternative of `parse_extension`. -/
def parsePort (bytes : Bytes) : Parsed (IoResult BitsExtensionMessage) := do
  let (messageLen, rest) ← beU32 bytes
  let (id, _) ← beU8 rest
  if messageLen = portMessageLen ∧ id = portMessageId then
    let res ← PortMessage.parseBytes (← sliceFrom bytes headerLen)
    return res.map .port
  else .err .error

/-- The second alternative of `parse_extension`. -/
def parseHandshake (bytes : Bytes) : Parsed (IoResult BitsExtensionMessage) := do
  let (messageLen, rest) ← beU32 bytes
  let (id, rest) ← beU8 rest
  let (handshake, _) ← beU8 rest
  if id = extendedMessageId ∧ handshake = extendedMessageHandshakeId then
    let body ← sliceFrom bytes (headerLen + 1)
    let res ← ExtendedMessage.parseBytes body (← subU32 messageLen 2)
    return res.map .extended
  else .err .error

def BitsExtensionMessage.parseBytes (bytes : Bytes) : Parsed (IoResult BitsExtensionMessage) :=
  alt (parsePort bytes) (parseHandshake bytes)

end BitsExtension

section Metadata

def messageTypeKey : Bytes := text "msg_type"
def pieceIndexKey : Bytes := text "piece"
def totalSizeKey : Bytes := text "total_size"
def metadataErrorKey : Bytes := text "PeerExtensionProtocolMessage"

def requestMessageTypeId : UInt8 := 0
def dataMessageTypeId : UInt8 := 1
def rejectMessageTypeId : UInt8 := 2

/-- The dictionary of a request and of a reject message. -/
def benPiece (typeId : UInt8) (piece : Int64) : Bencode :=
  .dict (SortedMap.ofList [(messageTypeKey, .int typeId.toUInt64.toInt64),
    (pieceIndexKey, .int piece)])

def benData (piece totalSize : Int64) : Bencode :=
  .dict (SortedMap.ofList [(messageTypeKey, .int dataMessageTypeId.toUInt64.toInt64),
    (pieceIndexKey, .int piece), (totalSizeKey, .int totalSize)])

structure UtMetadataRequestMessage where
  piece : Int64
  bencodeSize : Nat
  deriving DecidableEq, Repr

def UtMetadataRequestMessage.new (piece : Int64) : UtMetadataRequestMessage :=
  ⟨piece, (encode (benPiece requestMessageTypeId piece)).length⟩

structure UtMetadataDataMessage where
  piece : Int64
  totalSize : Int64
  data : Bytes
  bencodeSize : Nat
  deriving DecidableEq, Repr

def UtMetadataDataMessage.new (piece totalSize : Int64) (data : Bytes) : UtMetadataDataMessage :=
  ⟨piece, totalSize, data, (encode (benData piece totalSize)).length⟩

structure UtMetadataRejectMessage where
  piece : Int64
  bencodeSize : Nat
  deriving DecidableEq, Repr

def UtMetadataRejectMessage.new (piece : Int64) : UtMetadataRejectMessage :=
  ⟨piece, (encode (benPiece rejectMessageTypeId piece)).length⟩

inductive UtMetadataMessage where
  | request (msg : UtMetadataRequestMessage)
  | data (msg : UtMetadataDataMessage)
  | reject (msg : UtMetadataRejectMessage)
  deriving DecidableEq, Repr

def UtMetadataMessage.writeBytes : UtMetadataMessage → Bytes
  | .request msg => encode (benPiece requestMessageTypeId msg.piece)
  | .data msg => encode (benData msg.piece msg.totalSize) ++ msg.data
  | .reject msg => encode (benPiece rejectMessageTypeId msg.piece)

def UtMetadataMessage.messageSize : UtMetadataMessage → Nat
  | .request msg => msg.bencodeSize
  | .data msg => msg.bencodeSize + msg.data.length
  | .reject msg => msg.bencodeSize

def parseMessageType (root : Dict) : Outcome IoError UInt8 := do
  return (← lookupAndConvertInt .bencodeConvert root messageTypeKey).toUInt64.toUInt8

def parsePieceIndex (root : Dict) : Outcome IoError Int64 :=
  lookupAndConvertInt .bencodeConvert root pieceIndexKey

def parseTotalSize (root : Dict) : Outcome IoError Int64 :=
  lookupAndConvertInt .bencodeConvert root totalSizeKey

/-- Flat dictionaries only, and whatever stands behind one is left alone. -/
def metadataDecodeOpts : BDecodeOpt := ⟨2, false, false⟩

def UtMetadataMessage.parseBytes (bytes : Bytes) : Outcome IoError UtMetadataMessage := do
  let bencode ← decodeIo bytes metadataDecodeOpts
  let root ← convertDict .bencodeConvert bencode.kind metadataErrorKey
  let msgType ← parseMessageType root
  let piece ← parsePieceIndex root
  let bencodeSize := bencode.buffer.bytes.length
  let extraBytes ← sliceFrom bytes bencodeSize
  if msgType = requestMessageTypeId then return .request ⟨piece, bencodeSize⟩
  else if msgType = rejectMessageTypeId then return .reject ⟨piece, bencodeSize⟩
  else if msgType = dataMessageTypeId then
    let totalSize ← parseTotalSize root
    return .data ⟨piece, totalSize, extraBytes, bencodeSize⟩
  else .err (.unknownType msgType)

end Metadata

section ProtExtension

/-- Messages of the null protocol: there are none. -/
abbrev NullProtocolMessage := Empty

inductive PeerExtensionProtocolMessage where
  | utMetadata (msg : UtMetadataMessage)
  | custom (msg : NullProtocolMessage)
  deriving DecidableEq

def PeerExtensionProtocolMessage.messageSize : PeerExtensionProtocolMessage → Nat
  | .utMetadata msg => msg.messageSize

def PeerExtensionProtocolMessage.writeBytes (msg : PeerExtensionProtocolMessage)
    (extended : Option ExtendedMessage) : Outcome IoError Bytes :=
  match msg, extended with
  | .utMetadata msg, some extendedMsg =>
    match extendedMsg.queryId .utMetadata with
    | some extId => .ok (writeLengthIdPair (UInt32.ofNat (2 + msg.messageSize))
        (some extendedMessageId) ++ extId :: msg.writeBytes)
    | none => .err .noIdMapping
  | .utMetadata _, none => .err .sentBeforeExtended

def parseExtensionsWithId (bytes : Bytes) (extendedMsg : ExtendedMessage) (messageLen : UInt32)
    (messageId : UInt8) : Parsed (IoResult PeerExtensionProtocolMessage) := do
  let msgLen := (← subU32 messageLen 2).toNat
  let tempBytes ← sliceFrom bytes extensionHeaderLen
  if tempBytes.length < msgLen then return .error (.tooShort msgLen)
  else if extendedMsg.queryId .utMetadata = some messageId then
    let res ← settle (UtMetadataMessage.parseBytes (tempBytes.take msgLen))
    return res.map .utMetadata
  else return .error (.unknownId messageId)

def parseExtensions (bytes : Bytes) (extendedMsg : ExtendedMessage) :
    Parsed (IoResult PeerExtensionProtocolMessage) := do
  let (messageLen, rest) ← beU32 bytes
  let (id, rest) ← beU8 rest
  let (messageId, _) ← beU8 rest
  if id = extendedMessageId then parseExtensionsWithId bytes extendedMsg messageLen messageId
  else .err .error

/-- The result of a parser that has to be done, with the error for one that is not. -/
def finish {α : Type} (failed : IoError) : Parsed (IoResult α) → Outcome IoError α
  | .ok (.ok a) => .ok a
  | .ok (.error e) => .err e
  | .err _ => .err failed
  | .panic => .panic
  | .unfinished => .unfinished

def PeerExtensionProtocolMessage.parseBytes (bytes : Bytes) (extended : Option ExtendedMessage) :
    Outcome IoError PeerExtensionProtocolMessage :=
  match extended with
  | some extendedMsg => finish .failedToParseExtension (parseExtensions bytes extendedMsg)
  | none => .err .receivedBeforeExtended

end ProtExtension

section Wire

inductive PeerWireProtocolMessage where
  | keepAlive
  | choke
  | unChoke
  | interested
  | unInterested
  | have (msg : HaveMessage)
  | bitField (msg : BitFieldMessage)
  | request (msg : RequestMessage)
  | piece (msg : PieceMessage)
  | cancel (msg : CancelMessage)
  | bitsExtension (ext : BitsExtensionMessage)
  | protExtension (ext : PeerExtensionProtocolMessage)
  deriving DecidableEq

namespace PeerWireProtocolMessage

def writeBytes (msg : PeerWireProtocolMessage) (extended : Option ExtendedMessage) :
    Outcome IoError Bytes :=
  match msg with
  | .keepAlive => .ok (writeLengthIdPair keepAliveMessageLen none)
  | .choke => .ok (writeLengthIdPair chokeMessageLen (some chokeMessageId))
  | .unChoke => .ok (writeLengthIdPair unchokeMessageLen (some unchokeMessageId))
  | .interested => .ok (writeLengthIdPair interestedMessageLen (some interestedMessageId))
  | .unInterested => .ok (writeLengthIdPair uninterestedMessageLen (some uninterestedMessageId))
  | .have msg => .ok msg.writeBytes
  | .bitField msg => .ok msg.writeBytes
  | .request msg => .ok (RequestMessage.writeBytes msg)
  | .piece msg => .ok msg.writeBytes
  | .cancel msg => .ok (CancelMessage.writeBytes msg)
  | .bitsExtension ext => .ok ext.writeBytes
  | .protExtension ext => ext.writeBytes extended

def messageSize (msg : PeerWireProtocolMessage) : Nat :=
  messageLengthLenBytes + match msg with
    | .keepAlive => keepAliveMessageLen.toNat
    | .choke => chokeMessageLen.toNat
    | .unChoke => unchokeMessageLen.toNat
    | .interested => interestedMessageLen.toNat
    | .unInterested => uninterestedMessageLen.toNat
    | .have _ => haveMessageLen.toNat
    | .bitField msg => baseBitfieldMessageLen + msg.bytes.length
    | .request _ => requestMessageLen.toNat
    | .piece msg => basePieceMessageLen + msg.block.length
    | .cancel _ => cancelMessageLen.toNat
    | .bitsExtension ext => ext.messageSize
    | .protExtension ext => baseProtExtensionMessageLen + ext.messageSize

end PeerWireProtocolMessage

/-- The arms of the `switch!` over the length and the id, in their order. -/
def parseStandardArm (bytes : Bytes) (messageLen : UInt32) (id : Option UInt8) :
    Parsed (IoResult PeerWireProtocolMessage) :=
  if messageLen = keepAliveMessageLen ∧ id = none then return .ok .keepAlive
  else if messageLen = keepAliveMessageLen ∧ id = some 0 then return .ok .keepAlive
  else if messageLen = chokeMessageLen ∧ id = some chokeMessageId then return .ok .choke
  else if messageLen = unchokeMessageLen ∧ id = some unchokeMessageId then return .ok .unChoke
  else if messageLen = interestedMessageLen ∧ id = some interestedMessageId then return .ok .interested
  else if messageLen = uninterestedMessageLen ∧ id = some uninterestedMessageId then
    return .ok .unInterested
  else if messageLen = haveMessageLen ∧ id = some haveMessageId then do
    let res ← HaveMessage.parseBytes (← sliceFrom bytes headerLen)
    return res.map .have
  else if id = some bitfieldMessageId then do
    let body ← sliceFrom bytes headerLen
    let res ← BitFieldMessage.parseBytes body (← subU32 messageLen 1)
    return res.map .bitField
  else if messageLen = requestMessageLen ∧ id = some requestMessageId then do
    let res ← RequestMessage.parseBytes (← sliceFrom bytes headerLen)
    return res.map .request
  else if id = some pieceMessageId then do
    let body ← sliceFrom bytes headerLen
    let res ← PieceMessage.parseBytes body (← subU32 messageLen 1)
    return res.map .piece
  else if messageLen = cancelMessageLen ∧ id = some cancelMessageId then do
    let res ← CancelMessage.parseBytes (← sliceFrom bytes headerLen)
    return res.map .cancel
  else .err .error

/-- The first alternative of `parse_message`. -/
def parseStandard (bytes : Bytes) : Parsed (IoResult PeerWireProtocolMessage) := do
  let (messageLen, rest) ← beU32 bytes
  let (id, _) ← opt beU8 rest
  parseStandardArm bytes messageLen id

def parseMessage (bytes : Bytes) (extended : Option ExtendedMessage) :
    Parsed (IoResult PeerWireProtocolMessage) :=
  alt (parseStandard bytes) (alt
    (do return (← BitsExtensionMessage.parseBytes bytes).map .bitsExtension)
    (do return (← settle (PeerExtensionProtocolMessage.parseBytes bytes extended)).map .protExtension))

def PeerWireProtocolMessage.parseBytes (bytes : Bytes) (extended : Option ExtendedMessage) :
    Outcome IoError PeerWireProtocolMessage :=
  finish .failedToParse (parseMessage bytes extended)

end Wire

section Codec

structure PeerWireMessageCodec where
  ourExtendedMsg : Option ExtendedMessage
  theirExtendedMsg : Option ExtendedMessage

def PeerWireMessageCodec.new : PeerWireMessageCodec := ⟨none, none⟩

/-- A handshake that arrives is remembered. -/
def PeerWireMessageCodec.parseBytes (codec : PeerWireMessageCodec) (bytes : Bytes) :
    Outcome IoError PeerWireProtocolMessage × PeerWireMessageCodec :=
  match PeerWireProtocolMessage.parseBytes bytes codec.ourExtendedMsg with
  | .ok (.bitsExtension (.extended msg)) =>
    (.ok (.bitsExtension (.extended msg)), { codec with theirExtendedMsg := some msg })
  | other => (other, codec)

/-- A handshake that is written is remembered. -/
def PeerWireMessageCodec.writeBytes (codec : PeerWireMessageCodec) (msg : PeerWireProtocolMessage) :
    Outcome IoError Bytes × PeerWireMessageCodec :=
  match msg.writeBytes codec.theirExtendedMsg, msg with
  | .ok bytes, .bitsExtension (.extended msg) =>
    (.ok bytes, { codec with ourExtendedMsg := some msg })
  | other, _ => (other, codec)

end Codec

end PeerMessage
