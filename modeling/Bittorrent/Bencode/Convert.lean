import Bittorrent.Bencode.Value
import Bittorrent.Lib.Utf8

/-!
Looking into bencoded values: the accessors of `BRefAccess` and the conversions of `BConvert`,
whose errors name the key and the type that was expected.
-/
namespace BencodeConvert
open Rust Outcome BencodeValue

inductive BencodeConvertError where
  | wrongType (key : Bytes) (expectedType : String)
  | missingKey (key : Bytes)
  deriving DecidableEq, Repr

abbrev Dict := List (Bytes × Bencode)

def int : Bencode → Option Int64
  | .int n => some n
  | _ => none

def bytes : Bencode → Option Bytes
  | .bytes b => some b
  | _ => none

def str (v : Bencode) : Option Str := (bytes v).bind Str.fromUtf8

def list : Bencode → Option (List Bencode)
  | .list items => some items
  | _ => none

def dict : Bencode → Option Dict
  | .dict entries => some entries
  | _ => none

section Convert
variable {ε α : Type} (handleError : BencodeConvertError → ε)

def convert (access : Bencode → Option α) (expectedType : String) (v : Bencode) (errorKey : Bytes) :
    Outcome ε α :=
  match access v with
  | some a => .ok a
  | none => .err (handleError (.wrongType errorKey expectedType))

def convertInt (v : Bencode) (errorKey : Bytes) : Outcome ε Int64 :=
  convert handleError int "Integer" v errorKey

def convertBytes (v : Bencode) (errorKey : Bytes) : Outcome ε Bytes :=
  convert handleError bytes "Bytes" v errorKey

def convertStr (v : Bencode) (errorKey : Bytes) : Outcome ε Str :=
  convert handleError str "UTF-8 Bytes" v errorKey

def convertList (v : Bencode) (errorKey : Bytes) : Outcome ε (List Bencode) :=
  convert handleError list "List" v errorKey

def convertDict (v : Bencode) (errorKey : Bytes) : Outcome ε Dict :=
  convert handleError dict "Dictionary" v errorKey

def lookup (dictionary : Dict) (key : Bytes) : Outcome ε Bencode :=
  match SortedMap.lookup key dictionary with
  | some n => .ok n
  | none => .err (handleError (.missingKey key))

def lookupAndConvertInt (dictionary : Dict) (key : Bytes) : Outcome ε Int64 := do
  convertInt handleError (← lookup handleError dictionary key) key

def lookupAndConvertBytes (dictionary : Dict) (key : Bytes) : Outcome ε Bytes := do
  convertBytes handleError (← lookup handleError dictionary key) key

def lookupAndConvertStr (dictionary : Dict) (key : Bytes) : Outcome ε Str := do
  convertStr handleError (← lookup handleError dictionary key) key

def lookupAndConvertList (dictionary : Dict) (key : Bytes) : Outcome ε (List Bencode) := do
  convertList handleError (← lookup handleError dictionary key) key

def lookupAndConvertDict (dictionary : Dict) (key : Bytes) : Outcome ε Dict := do
  convertDict handleError (← lookup handleError dictionary key) key

end Convert

section Inversion
variable {ε : Type}
variable {v : Bencode} {handleError : BencodeConvertError → ε} {key : Bytes}

theorem convert_ok_iff {α : Type} {access : Bencode → Option α} {expectedType : String} {a : α} :
    convert handleError access expectedType v key = .ok a ↔ access v = some a := by
  unfold convert
  cases access v <;> simp

theorem lookup_ok_iff {dict : Dict} :
    lookup handleError dict key = .ok v ↔ SortedMap.lookup key dict = some v := by
  unfold lookup
  cases SortedMap.lookup key dict <;> simp

theorem int_of {n : Int64} (same : int v = some n) : v = .int n := by
  cases v <;> cases same
  rfl

theorem bytes_of {b : Bytes} (same : bytes v = some b) : v = .bytes b := by
  cases v <;> cases same
  rfl

theorem list_of {items : List Bencode} (same : list v = some items) : v = .list items := by
  cases v <;> cases same
  rfl

theorem dict_of {entries : Dict} (same : dict v = some entries) : v = .dict entries := by
  cases v <;> cases same
  rfl

theorem str_of {s : Str} (same : str v = some s) : v = .bytes s.bytes := by
  obtain ⟨raw, isRaw, valid⟩ := Option.bind_eq_some_iff.mp same
  rw [bytes_of isRaw]
  unfold Str.fromUtf8 at valid
  split at valid
  · cases valid
    rfl
  · cases valid

section
variable {α : Type} {access : Bencode → Option α} {expectedType : String} {dict : Dict}

theorem found_under {a : α} {b : Bencode}
    (read : (lookup handleError dict key >>= (convert handleError access expectedType · key)) = .ok a)
    (shape : ∀ {v}, access v = some a → v = b) : SortedMap.lookup key dict = some b := by
  obtain ⟨v, found, converted⟩ := bind_eq_ok.mp read
  rw [lookup_ok_iff.mp found, shape (convert_ok_iff.mp converted)]

theorem int_under {n : Int64} (read : lookupAndConvertInt handleError dict key = .ok n) :
    SortedMap.lookup key dict = some (.int n) := found_under read int_of

theorem bytes_under {b : Bytes} (read : lookupAndConvertBytes handleError dict key = .ok b) :
    SortedMap.lookup key dict = some (.bytes b) := found_under read bytes_of

theorem str_under {s : Str} (read : lookupAndConvertStr handleError dict key = .ok s) :
    SortedMap.lookup key dict = some (.bytes s.bytes) := found_under read str_of

theorem list_under {items : List Bencode}
    (read : lookupAndConvertList handleError dict key = .ok items) :
    SortedMap.lookup key dict = some (.list items) := found_under read list_of

theorem accepted_under (dict : Dict) (key : Bytes) :
    accepted (do convert handleError access expectedType (← lookup handleError dict key) key) =
      (SortedMap.lookup key dict).bind access := by
  unfold lookup
  cases SortedMap.lookup key dict with
  | none => rfl
  | some v =>
    rw [ok_bind, Option.bind_some]
    unfold convert
    cases access v <;> rfl

end

end Inversion

section Settled
open Outcome
variable {α : Type} {handleError : BencodeConvertError → ε} {access : Bencode → Option α}
  {expectedType : String} {key : Bytes}

theorem convert_settled {v : Bencode} : Settled (convert handleError access expectedType v key) := by
  unfold convert
  split
  · exact settled_ok _
  · exact settled_err _

theorem lookup_settled {dictionary : Dict} : Settled (lookup handleError dictionary key) := by
  unfold lookup
  split
  · exact settled_ok _
  · exact settled_err _

/-- The five functions that look up a key and convert what they find. -/
theorem lookup_and_convert_settled {dictionary : Dict} :
    Settled (do convert handleError access expectedType (← lookup handleError dictionary key) key) :=
  settled_bind lookup_settled fun _ => convert_settled

end Settled

end BencodeConvert
