import Bittorrent.Bencode.Convert
import Bittorrent.Bencode.Decode
import Bittorrent.Lib.Path
import Bittorrent.Util.ShaHash

/-!
Reading a metainfo file: which keys of the dictionaries are looked at, in which order, and what is
made of their values. SHA-1 is a parameter. Texts of the root dictionary besides `info` are kept as
they are read; nothing else in the code looks at them.
-/
namespace MetainfoInfo
open Rust Outcome UtilSha BencodeValue BencodeConvert

inductive ParseError where
  | bencodeConvert (error : BencodeConvertError)
  | bencodeParse (error : BencodeParseError)
  | missingData (details : Str)
  deriving DecidableEq

abbrev ParseResult := Outcome ParseError

structure File where
  len : UInt64
  path : Path
  md5sum : Option Bytes
  deriving DecidableEq

structure Info where
  infoHash : ShaHash
  files : List File
  pieces : List ShaHash
  pieceLen : UInt64
  isPrivate : Option Bool
  fileDirectory : Option Path
  deriving DecidableEq

structure Metainfo where
  comment : Option Str
  announce : Option Str
  announceList : Option (List (List Str))
  encoding : Option Str
  createdBy : Option Str
  creationDate : Option Int64
  info : Info
  deriving DecidableEq

def Metainfo.fromInfo (info : Info) : Metainfo := ⟨none, none, none, none, none, none, info⟩

section Keys

def rootErrorKey : Bytes := text "root"
def announceListKey : Bytes := text "announce-list"
def announceUrlKey : Bytes := text "announce"
def creationDateKey : Bytes := text "creation date"
def commentKey : Bytes := text "comment"
def createdByKey : Bytes := text "created by"
def encodingKey : Bytes := text "encoding"
def infoKey : Bytes := text "info"
def pieceLengthKey : Bytes := text "piece length"
def piecesKey : Bytes := text "pieces"
def privateKey : Bytes := text "private"
def nameKey : Bytes := text "name"
def filesKey : Bytes := text "files"
def lengthKey : Bytes := text "length"
def md5sumKey : Bytes := text "md5sum"
def pathKey : Bytes := text "path"

end Keys

section Parse

def parseRootDict (root : Bencode) : ParseResult Dict :=
  convertDict .bencodeConvert root rootErrorKey

def parsePieceLength (dict : Dict) : ParseResult UInt64 := do
  return (← lookupAndConvertInt .bencodeConvert dict pieceLengthKey).toUInt64

def parsePieces (dict : Dict) : ParseResult Bytes :=
  lookupAndConvertBytes .bencodeConvert dict piecesKey

def parsePrivate (dict : Dict) : Option Bool :=
  (accepted (lookupAndConvertInt ParseError.bencodeConvert dict privateKey)).map fun p =>
    decide (p = 1)

def parseName (dict : Dict) : ParseResult Str := lookupAndConvertStr .bencodeConvert dict nameKey

def parseFilesList (dict : Dict) : ParseResult (List Bencode) :=
  lookupAndConvertList .bencodeConvert dict filesKey

def parseFileDict (file : Bencode) : ParseResult Dict := convertDict .bencodeConvert file filesKey

def parseLength (dict : Dict) : ParseResult UInt64 := do
  return (← lookupAndConvertInt .bencodeConvert dict lengthKey).toUInt64

def parseMd5sum (dict : Dict) : Option Bytes :=
  accepted (lookupAndConvertBytes ParseError.bencodeConvert dict md5sumKey)

def parsePathList (dict : Dict) : ParseResult (List Bencode) :=
  lookupAndConvertList .bencodeConvert dict pathKey

def parsePathStr (path : Bencode) : ParseResult Str := convertStr .bencodeConvert path pathKey

def parseText (dict : Dict) (key : Bytes) : Option Str :=
  accepted (lookupAndConvertStr ParseError.bencodeConvert dict key)

def parseCreationDate (dict : Dict) : Option Int64 :=
  accepted (lookupAndConvertInt ParseError.bencodeConvert dict creationDateKey)

def parseAnnounceList (dict : Dict) : Option (List Bencode) :=
  accepted (lookupAndConvertList ParseError.bencodeConvert dict announceListKey)

def convertAnnounceList (entries : List Bencode) : List (List Str) :=
  (entries.filterMap list).map fun entry => entry.filterMap str

end Parse

section Files

/-- A `for` loop with `?` that pushes what it reads. -/
def collect {α β : Type} (read : α → ParseResult β) : List α → ParseResult (List β)
  | [] => .ok []
  | a :: rest => do
    let b ← read a
    return b :: (← collect read rest)

theorem collect_forall {α β : Type} {read : α → ParseResult β} {R : β → α → Prop}
    (each : ∀ a b, read a = .ok b → R b a) {list : List α} : ∀ {results : List β},
    collect read list = .ok results → List.Forall₂ R results list := by
  induction list with
  | nil =>
    intro results same
    cases same
    exact .nil
  | cons a rest ih =>
    intro results same
    obtain ⟨b, first, same⟩ := bind_eq_ok.mp same
    obtain ⟨more, later, same⟩ := bind_eq_ok.mp same
    cases same
    exact .cons (each a b first) (ih later)

theorem names_of {items : List Bencode} : ∀ {names : List Str},
    collect parsePathStr items = .ok names → items = (names.map Str.bytes).map .bytes := by
  induction items with
  | nil =>
    intro names same
    cases same
    rfl
  | cons item rest ih =>
    intro names same
    obtain ⟨name, first, same⟩ := bind_eq_ok.mp same
    obtain ⟨more, later, same⟩ := bind_eq_ok.mp same
    cases same
    rw [str_of (convert_ok_iff.mp first), ih later]
    rfl

def File.asSingleFile (dict : Dict) : ParseResult File := do
  let length ← parseLength dict
  let name ← parseName dict
  return ⟨length, name.bytes, parseMd5sum dict⟩

def File.asMultiFile (dict : Dict) : ParseResult File := do
  let length ← parseLength dict
  let pathList ← parsePathList dict
  let names ← collect parsePathStr pathList
  return ⟨length, names.foldl (fun buf name => push buf name.bytes) [], parseMd5sum dict⟩

def parseFile (file : Bencode) : ParseResult File := do
  File.asMultiFile (← parseFileDict file)

end Files

section Dictionary

/-- The hash that a full chunk fills. -/
def hashAt (pieces : Bytes) (index : Nat) : ShaHash :=
  ⟨Vector.ofFn fun i => pieces.getD (index * shaHashLen + i) 0⟩

def allocatePieces (pieces : Bytes) : ParseResult (List ShaHash) :=
  if pieces.length % shaHashLen ≠ 0 then
    .err (.missingData (Str.concat [Str.ofAscii "Piece Hash Length Of ", Str.ofNat pieces.length,
      Str.ofAscii " Is Invalid"]))
  else
    .ok ((List.range (pieces.length / shaHashLen)).map (hashAt pieces))

def isMultiFileTorrent (dict : Dict) : Bool := (accepted (parseLength dict)).isNone

variable (sha : Bytes → ShaHash)

def parseInfoDictionary (bencode : BencodeRef) : ParseResult Info := do
  let infoHash := sha bencode.buffer.bytes
  let dict ← parseRootDict bencode.kind
  let pieceLen ← parsePieceLength dict
  let isPrivate := parsePrivate dict
  let pieces ← parsePieces dict
  let pieceBuffers ← allocatePieces pieces
  if isMultiFileTorrent dict then do
    let name ← parseName dict
    let filesList ← parseFilesList dict
    let files ← collect parseFile filesList
    return ⟨infoHash, files, pieceBuffers, pieceLen, isPrivate, some (push [] name.bytes)⟩
  else do
    let file ← File.asSingleFile dict
    return ⟨infoHash, [file], pieceBuffers, pieceLen, isPrivate, none⟩

def decoded (bytes : Bytes) : ParseResult BencodeRef :=
  match BencodeDecode.BencodeRef.decode bytes .default with
  | .ok r => .ok r
  | .err e => .err (.bencodeParse e)
  | .panic => .panic
  | .unfinished => .unfinished

def Info.fromBytes (bytes : Bytes) : ParseResult Info := do
  parseInfoDictionary sha (← decoded bytes)

def parseInfoBencode (root : BencodeRef) : ParseResult BencodeRef :=
  match root with
  | .dict entries _ =>
    match SortedMap.lookup infoKey entries with
    | some info => .ok info
    | none => .err (.bencodeConvert (.missingKey infoKey))
  | _ => .err (.bencodeConvert (.wrongType rootErrorKey "Dictionary"))

def Metainfo.fromBytes (bytes : Bytes) : ParseResult Metainfo := do
  let root ← decoded bytes
  let dict ← parseRootDict root.kind
  let infoBencode ← parseInfoBencode root
  let info ← parseInfoDictionary sha infoBencode
  return {
    comment := parseText dict commentKey
    announce := parseText dict announceUrlKey
    announceList := (parseAnnounceList dict).map convertAnnounceList
    encoding := parseText dict encodingKey
    createdBy := parseText dict createdByKey
    creationDate := parseCreationDate dict
    info := info }

end Dictionary

end MetainfoInfo
