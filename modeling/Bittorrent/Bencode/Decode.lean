import Bittorrent.Bencode.Value
import Bittorrent.Lib.Utf8

/-!
The decoder of `reference/decode.rs`. Every addition on a position, every slice and the one
`unwrap` can panic. The loops of `decode_list` and `decode_dict` and the recursion through
`decode` share one fuel; `BencodeRef.decode` gives enough of it for any input.
-/
namespace BencodeDecode
open Rust DecimalText BencodeValue

def peekByte (bytes : Bytes) (pos : Nat) : BencodeParseResult UInt8 :=
  match bytes[pos]? with
  | some n => .ok n
  | none => .err (.bytesEmpty pos)

def decodeInt (bytes : Bytes) (pos : Nat) (delim : UInt8) : BencodeParseResult (Int64 × Nat) := do
  let beginDecode ← sliceFrom bytes pos
  match beginDecode.findIdx? (· = delim) with
  | none => .err (.invalidIntNoDelimiter pos)
  | some relativeEndPos =>
    let intByteSlice := beginDecode.take relativeEndPos
    -- negative zero would not be caught by the conversion
    if 1 < intByteSlice.length ∧ intByteSlice[0]? = some minus ∧ intByteSlice[1]? = some 48 then
      .err (.invalidIntNegativeZero pos)
    else if 1 < intByteSlice.length ∧ intByteSlice[0]? = some 48 then
      .err (.invalidIntZeroPadding pos)
    else if validUtf8 intByteSlice = false then
      .err (.invalidIntParseError pos)
    else
      let absoluteEndPos ← usizeAdd pos relativeEndPos
      let nextPos ← usizeAdd absoluteEndPos 1
      match readInt64 intByteSlice with
      | some n => .ok (n, nextPos)
      | none => .err (.invalidIntParseError pos)

def decodeBytes (bytes : Bytes) (pos : Nat) : BencodeParseResult (Bytes × Nat) := do
  let (numBytes, startPos) ← decodeInt bytes pos byteLenEnd
  if numBytes.toInt < 0 then
    .err (.invalidLengthNegative pos)
  else
    -- the cast to usize keeps every non-negative i64
    let numBytes := numBytes.toInt.toNat
    let rest ← sliceFrom bytes startPos
    if rest.length < numBytes then
      .err (.invalidLengthOverflow pos)
    else
      let nextPos ← usizeAdd startPos numBytes
      let content ← slice bytes startPos nextPos
      .ok (content.bytes, nextPos)

/-- The guard on a new key: only with `check_key_sort`, and only against the greatest key. -/
def keyOutOfOrder (opts : BDecodeOpt) (dict : List (Bytes × BencodeRef)) (key : Bytes) : Prop :=
  ∃ last, SortedMap.lastKey dict = some last ∧ opts.checkKeySort = true ∧ key < last

instance (opts : BDecodeOpt) (dict : List (Bytes × BencodeRef)) (key : Bytes) :
    Decidable (keyOutOfOrder opts dict key) :=
  match h : SortedMap.lastKey dict with
  | none => isFalse (by simp [keyOutOfOrder, h])
  | some last => decidable_of_iff (opts.checkKeySort = true ∧ key < last)
      (by simp [keyOutOfOrder, h])

mutual

def decode : Nat → Bytes → Nat → BDecodeOpt → Nat → BencodeParseResult (BencodeRef × Nat)
  | 0, _, _, _, _ => .unfinished
  | fuel + 1, bytes, pos, opts, depth =>
    if opts.maxRecursion ≤ depth then
      .err (.invalidRecursionExceeded pos depth)
    else do
      let currByte ← peekByte bytes pos
      if currByte = intStart then do
        let begin ← usizeAdd pos 1
        let (bencode, nextPos) ← decodeInt bytes begin benEnd
        let buffer ← slice bytes pos nextPos
        .ok (.int bencode buffer, nextPos)
      else if currByte = listStart then do
        let begin ← usizeAdd pos 1
        let (bencode, nextPos) ← decodeList fuel bytes begin opts depth []
        let buffer ← slice bytes pos nextPos
        .ok (.list bencode buffer, nextPos)
      else if currByte = dictStart then do
        let begin ← usizeAdd pos 1
        let (bencode, nextPos) ← decodeDict fuel bytes begin opts depth []
        let buffer ← slice bytes pos nextPos
        .ok (.dict bencode buffer, nextPos)
      else if byteLenLow ≤ currByte ∧ currByte ≤ byteLenHigh then do
        -- the length digit belongs to the value, so the position is not advanced
        let (bencode, nextPos) ← decodeBytes bytes pos
        let buffer ← slice bytes pos nextPos
        .ok (.bytes bencode buffer, nextPos)
      else
        .err (.invalidByte pos)
termination_by structural fuel => fuel

/-- The `while` loop of `decode_list`, with the vector built so far. -/
def decodeList : Nat → Bytes → Nat → BDecodeOpt → Nat → List BencodeRef →
    BencodeParseResult (List BencodeRef × Nat)
  | 0, _, _, _, _, _ => .unfinished
  | fuel + 1, bytes, currPos, opts, depth, bencodeList => do
    let currByte ← peekByte bytes currPos
    if currByte = benEnd then do
      let nextPos ← usizeAdd currPos 1
      .ok (bencodeList, nextPos)
    else do
      let deeper ← usizeAdd depth 1
      let (bencode, nextPos) ← decode fuel bytes currPos opts deeper
      decodeList fuel bytes nextPos opts depth (bencodeList ++ [bencode])
termination_by structural fuel => fuel

/-- The `while` loop of `decode_dict`, with the map built so far. A failure to decode a value is
    unwrapped, unlike a failure to decode a key. -/
def decodeDict : Nat → Bytes → Nat → BDecodeOpt → Nat → List (Bytes × BencodeRef) →
    BencodeParseResult (List (Bytes × BencodeRef) × Nat)
  | 0, _, _, _, _, _ => .unfinished
  | fuel + 1, bytes, currPos, opts, depth, bencodeDict => do
    let currByte ← peekByte bytes currPos
    if currByte = benEnd then do
      let nextPos ← usizeAdd currPos 1
      .ok (bencodeDict, nextPos)
    else do
      let (keyBytes, valuePos) ← decodeBytes bytes currPos
      if keyOutOfOrder opts bencodeDict keyBytes then
        .err (.invalidKeyOrdering currPos keyBytes)
      else do
        let deeper ← usizeAdd depth 1
        let (value, nextPos) ← (decode fuel bytes valuePos opts deeper).unwrap
        match SortedMap.lookup keyBytes bencodeDict with
        | some _ => .err (.invalidKeyDuplicates valuePos keyBytes)
        | none =>
          decodeDict fuel bytes nextPos opts depth (SortedMap.insert keyBytes value bencodeDict)
termination_by structural fuel => fuel

end

/-- `BencodeRef::decode`. Every round of a loop and every container costs at most two units of
    fuel per byte consumed. -/
def BencodeRef.decode (bytes : Bytes) (opts : BDecodeOpt) : BencodeParseResult BencodeRef := do
  let (bencode, endPos) ← BencodeDecode.decode (2 * bytes.length + 1) bytes 0 opts 0
  if endPos ≠ bytes.length ∧ opts.enforceFullDecode = true then
    .err (.bytesEmpty endPos)
  else
    .ok bencode

end BencodeDecode
