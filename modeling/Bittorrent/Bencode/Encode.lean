import Bittorrent.Bencode.Value

/-!
The encoder of `mutable/encode.rs`. Rust appends to one output vector; here every function
returns the bytes it appends.
-/
namespace BencodeEncode
open Rust DecimalText BencodeValue

def encodeInt (val : Int64) : Bytes := intStart :: (printInt val.toInt ++ [benEnd])

def encodeBytes (list : Bytes) : Bytes := printNat list.length ++ byteLenEnd :: list

/-- Dictionary entries in the order they are written. Sorting looks only at the keys, so it may
    follow the encoding of the values. -/
def sortDict (entries : List (Bytes × Bytes)) : List (Bytes × Bytes) :=
  entries.insertionSort fun a b => a.1 ≤ b.1

def encodeDict (entries : List (Bytes × Bytes)) : Bytes :=
  dictStart :: ((sortDict entries).flatMap (fun e => encodeBytes e.1 ++ e.2) ++ [benEnd])

def encode : Bencode → Bytes
  | .int n => encodeInt n
  | .bytes b => encodeBytes b
  | .list items => listStart :: (encodeItems items ++ [benEnd])
  | .dict entries => encodeDict (encodeValues entries)
where
  encodeItems : List Bencode → Bytes
    | [] => []
    | v :: rest => encode v ++ encodeItems rest
  encodeValues : List (Bytes × Bencode) → List (Bytes × Bytes)
    | [] => []
    | (key, v) :: rest => (key, encode v) :: encodeValues rest

/-- `BencodeMut::encode` -/
def encodeMut (v : BencodeMut) : Bytes := encode v.value

theorem encode_items_eq (items : List Bencode) :
    encode.encodeItems items = items.flatMap encode := by
  induction items with
  | nil => rfl
  | cons v rest ih => simp [encode.encodeItems, ih]

theorem encode_values_eq (entries : List (Bytes × Bencode)) :
    encode.encodeValues entries = SortedMap.mapValues encode entries := by
  induction entries with
  | nil => rfl
  | cons e rest ih =>
    obtain ⟨key, v⟩ := e
    simp [encode.encodeValues, SortedMap.mapValues, ih]

theorem sort_dict_sorted {entries : List (Bytes × Bytes)} (sorted : SortedMap.Sorted entries) :
    sortDict entries = entries := by
  apply List.Pairwise.insertionSort_eq
  exact sorted.imp fun less => le_of_lt less

end BencodeEncode
