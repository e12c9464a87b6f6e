import Bittorrent.Bencode.Convert
import Bittorrent.Bencode.Decode
import Bittorrent.Bencode.Encode
import Bittorrent.Lib.AssocMap
import Bittorrent.Lib.Net
import Bittorrent.Lib.Nom

/-!
The extended handshake message: what a builder writes into its dictionary, and what is read out of a
dictionary that arrives. Hash maps are association lists; a builder keeps their keys distinct. The
texts of errors are not read by anything and stand for their constructors.
-/
namespace PeerExtended
open Rust NomParse BencodeValue BencodeConvert BencodeEncode

inductive IoError where
  | failedToParse
  | failedToParseExtension
  | receivedBeforeExtended
  | sentBeforeExtended
  | noIdMapping
  | tooShort (msgLen : Nat)
  | unknownId (messageId : UInt8)
  | unknownType (msgType : UInt8)
  | bencodeConvert (error : BencodeConvertError)
  | bencodeParse (error : BencodeParseError)
  deriving DecidableEq

abbrev IoResult := Except IoError

/-- A function that returns an `io::Result`, as the value of a parser that is done. -/
def settle {α : Type} : Outcome IoError α → Parsed (IoResult α)
  | .ok a => .ok (.ok a)
  | .err e => .ok (.error e)
  | .panic => .panic
  | .unfinished => .unfinished

section Types

inductive ExtendedType where
  | utMetadata
  | utPex
  | custom (id : Str)
  deriving DecidableEq

def utMetadataId : Str := Str.ofAscii "ut_metadata"
def utPexId : Str := Str.ofAscii "ut_pex"

def ExtendedType.fromId (id : Str) : ExtendedType :=
  if id = utMetadataId then .utMetadata
  else if id = utPexId then .utPex
  else .custom id

def ExtendedType.id : ExtendedType → Str
  | .utMetadata => utMetadataId
  | .utPex => utPexId
  | .custom id => id

abbrev Ipv4Addr := Vector UInt8 4
abbrev Ipv6Addr := Vector UInt8 16
abbrev IdMap := List (ExtendedType × UInt8)

structure ExtendedMessageBuilder where
  idMap : IdMap
  distinctTypes : (idMap.map Prod.fst).Nodup
  ourId : Option Str
  ourTcpPort : Option UInt16
  theirIp : Option IpAddr
  ourIpv6Addr : Option Ipv6Addr
  ourIpv4Addr : Option Ipv4Addr
  ourMaxRequests : Option Int64
  metadataSize : Option Int64
  customEntries : List (Str × BencodeMut)
  distinctEntries : (customEntries.map Prod.fst).Nodup

structure ExtendedMessage where
  idMap : IdMap
  ourId : Option Str
  ourTcpPort : Option UInt16
  theirIp : Option IpAddr
  ourIpv6Addr : Option Ipv6Addr
  ourIpv4Addr : Option Ipv4Addr
  ourMaxRequests : Option Int64
  metadataSize : Option Int64
  rawBencode : Bytes
  deriving DecidableEq

end Types

section Keys

def idMapKey : Bytes := text "m"
def clientIdKey : Bytes := text "v"
def clientTcpPortKey : Bytes := text "p"
def ourIpKey : Bytes := text "yourip"
def clientIpv6AddrKey : Bytes := text "ipv6"
def clientIpv4AddrKey : Bytes := text "ipv4"
def clientMaxRequestsKey : Bytes := text "reqq"
def metadataSizeKey : Bytes := text "metadata_size"
def rootErrorKey : Bytes := text "ExtendedMessage"

end Keys

section Builder

namespace ExtendedMessageBuilder

def new : ExtendedMessageBuilder where
  idMap := []
  distinctTypes := List.nodup_nil
  ourId := none
  ourTcpPort := none
  theirIp := none
  ourIpv6Addr := none
  ourIpv4Addr := none
  ourMaxRequests := none
  metadataSize := none
  customEntries := []
  distinctEntries := List.nodup_nil

def withExtendedType (builder : ExtendedMessageBuilder) (extType : ExtendedType)
    (optValue : Option UInt8) : ExtendedMessageBuilder :=
  match optValue with
  | some value => { builder with
      idMap := AssocMap.insert extType value builder.idMap
      distinctTypes := AssocMap.insert_nodup builder.distinctTypes }
  | none => { builder with
      idMap := AssocMap.remove extType builder.idMap
      distinctTypes := AssocMap.remove_nodup builder.distinctTypes }

end ExtendedMessageBuilder

def insertSome (key : Bytes) (value : Option Bencode) (dict : Dict) : Dict :=
  match value with
  | some v => SortedMap.insert key v dict
  | none => dict

def benIdMap (idMap : IdMap) : Dict :=
  idMap.foldl (fun dict e => SortedMap.insert e.1.id.bytes (.int e.2.toUInt64.toInt64) dict) []

def insertCustom (entries : List (Str × BencodeMut)) (dict : Dict) : Dict :=
  entries.foldl (fun dict e => SortedMap.insert e.1.bytes e.2.value dict) dict

/-- The entries before they are encoded. Custom entries go in behind the id map and before the
    fields. -/
def rootMap (builder : ExtendedMessageBuilder) : Dict :=
  let ids := SortedMap.insert idMapKey (.dict (benIdMap builder.idMap)) []
  let custom := insertCustom builder.customEntries ids
  let named := insertSome clientIdKey (builder.ourId.map fun id => .bytes id.bytes) custom
  let port := insertSome clientTcpPortKey
    (builder.ourTcpPort.map fun port => .int port.toUInt64.toInt64) named
  let seen := insertSome ourIpKey (builder.theirIp.map fun ip => .bytes ip.octets) port
  let sixth := insertSome clientIpv6AddrKey (builder.ourIpv6Addr.map fun ip => .bytes ip.toList) seen
  let fourth := insertSome clientIpv4AddrKey (builder.ourIpv4Addr.map fun ip => .bytes ip.toList) sixth
  let requests := insertSome clientMaxRequestsKey (builder.ourMaxRequests.map .int) fourth
  insertSome metadataSizeKey (builder.metadataSize.map .int) requests

def bencodeFromBuilder (builder : ExtendedMessageBuilder) : Bytes := encode (.dict (rootMap builder))

def ExtendedMessage.fromBuilder (builder : ExtendedMessageBuilder) : ExtendedMessage where
  idMap := builder.idMap
  ourId := builder.ourId
  ourTcpPort := builder.ourTcpPort
  theirIp := builder.theirIp
  ourIpv6Addr := builder.ourIpv6Addr
  ourIpv4Addr := builder.ourIpv4Addr
  ourMaxRequests := builder.ourMaxRequests
  metadataSize := builder.metadataSize
  rawBencode := bencodeFromBuilder builder

end Builder

section Parse

def idOf (id : Bytes) (v : Bencode) : Option (ExtendedType × UInt8) :=
  match Str.fromUtf8 id, accepted (convertInt IoError.bencodeConvert v id) with
  | some strId, some value => some (.fromId strId, value.toUInt64.toUInt8)
  | _, _ => none

def parseIdMap (root : Dict) : IdMap :=
  match accepted (lookupAndConvertDict IoError.bencodeConvert root idMapKey) with
  | some entries => (entries.filterMap fun e => idOf e.1 e.2).foldl
      (fun idMap e => AssocMap.insert e.1 e.2 idMap) []
  | none => []

def parseClientId (root : Dict) : Option Str :=
  accepted (lookupAndConvertStr IoError.bencodeConvert root clientIdKey)

def portOf (port : Int64) : Option UInt16 :=
  if port.toUInt64.toUInt16.toUInt64.toInt64 = port then some port.toUInt64.toUInt16 else none

def parseClientTcpPort (root : Dict) : Option UInt16 :=
  (accepted (lookupAndConvertInt IoError.bencodeConvert root clientTcpPortKey)).bind portOf

def ipv4Of (raw : Bytes) : Option Ipv4Addr :=
  if size : raw.length = 4 then some ⟨raw.toArray, by simpa using size⟩ else none

def ipv6Of (raw : Bytes) : Option Ipv6Addr :=
  if size : raw.length = 16 then some ⟨raw.toArray, by simpa using size⟩ else none

def ipOf (raw : Bytes) : Option IpAddr :=
  match ipv4Of raw with
  | some ip => some (.v4 ip[0] ip[1] ip[2] ip[3])
  | none => (ipv6Of raw).map .v6

def parseOurIp (root : Dict) : Option IpAddr :=
  (accepted (lookupAndConvertBytes IoError.bencodeConvert root ourIpKey)).bind ipOf

def parseClientIpv6Addr (root : Dict) : Option Ipv6Addr :=
  (accepted (lookupAndConvertBytes IoError.bencodeConvert root clientIpv6AddrKey)).bind ipv6Of

def parseClientIpv4Addr (root : Dict) : Option Ipv4Addr :=
  (accepted (lookupAndConvertBytes IoError.bencodeConvert root clientIpv4AddrKey)).bind ipv4Of

def parseClientMaxRequests (root : Dict) : Option Int64 :=
  accepted (lookupAndConvertInt IoError.bencodeConvert root clientMaxRequestsKey)

def parseMetadataSize (root : Dict) : Option Int64 :=
  accepted (lookupAndConvertInt IoError.bencodeConvert root metadataSizeKey)

/-- `BencodeRef::decode` with its error as an `io::Error`. -/
def decodeIo (raw : Bytes) (opts : BDecodeOpt) : Outcome IoError BencodeRef :=
  match BencodeDecode.BencodeRef.decode raw opts with
  | .ok bencode => .ok bencode
  | .err e => .err (.bencodeParse e)
  | .panic => .panic
  | .unfinished => .unfinished

def ExtendedMessage.ofDict (root : Dict) (raw : Bytes) : ExtendedMessage where
  idMap := parseIdMap root
  ourId := parseClientId root
  ourTcpPort := parseClientTcpPort root
  theirIp := parseOurIp root
  ourIpv6Addr := parseClientIpv6Addr root
  ourIpv4Addr := parseClientIpv4Addr root
  ourMaxRequests := parseClientMaxRequests root
  metadataSize := parseMetadataSize root
  rawBencode := raw

def ExtendedMessage.parseBytes (bytes : Bytes) (len : UInt32) : Parsed (IoResult ExtendedMessage) :=
  if len.toNat ≤ bytes.length then
    settle do
      let raw := bytes.take len.toNat
      let bencode ← decodeIo raw .default
      let root ← convertDict IoError.bencodeConvert bencode.kind rootErrorKey
      return .ofDict root raw
  else .err .incomplete

end Parse

def ExtendedMessage.bencodeSize (msg : ExtendedMessage) : Nat := msg.rawBencode.length

def ExtendedMessage.queryId (msg : ExtendedMessage) (extType : ExtendedType) : Option UInt8 :=
  AssocMap.get extType msg.idMap

/-- `Eq`, which compares the id maps as maps. -/
structure ExtendedMessage.Same (a b : ExtendedMessage) : Prop where
  idMap : ∀ extType, a.queryId extType = b.queryId extType
  ourId : a.ourId = b.ourId
  ourTcpPort : a.ourTcpPort = b.ourTcpPort
  theirIp : a.theirIp = b.theirIp
  ourIpv6Addr : a.ourIpv6Addr = b.ourIpv6Addr
  ourIpv4Addr : a.ourIpv4Addr = b.ourIpv4Addr
  ourMaxRequests : a.ourMaxRequests = b.ourMaxRequests
  metadataSize : a.metadataSize = b.metadataSize
  rawBencode : a.rawBencode = b.rawBencode

end PeerExtended
