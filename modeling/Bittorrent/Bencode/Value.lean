import Bittorrent.Lib.Bytes
import Bittorrent.Lib.Decimal
import Bittorrent.Lib.SortedMap

/-!
Bencode values. `Bencode` is what the `BRefAccess` trait shows of a value, `BencodeMut` adds
the ordering that its `BTreeMap` dictionaries keep, and `BencodeRef` adds to every node the
slice of the input it was read from.
-/
namespace BencodeValue
open Rust SortedMap

def benEnd : UInt8 := 101
def dictStart : UInt8 := 100
def listStart : UInt8 := 108
def intStart : UInt8 := 105
def byteLenLow : UInt8 := 48
def byteLenHigh : UInt8 := 57
def byteLenEnd : UInt8 := 58

inductive Bencode where
  | int : Int64 → Bencode
  | bytes : Bytes → Bencode
  | list : List Bencode → Bencode
  | dict : List (Bytes × Bencode) → Bencode

inductive BencodeRef where
  | int : Int64 → SubSlice → BencodeRef
  | bytes : Bytes → SubSlice → BencodeRef
  | list : List BencodeRef → SubSlice → BencodeRef
  | dict : List (Bytes × BencodeRef) → SubSlice → BencodeRef

def BencodeRef.buffer : BencodeRef → SubSlice
  | .int _ buffer => buffer
  | .bytes _ buffer => buffer
  | .list _ buffer => buffer
  | .dict _ buffer => buffer

/-- The value behind `BRefAccess`, down to the leaves. -/
def BencodeRef.kind : BencodeRef → Bencode
  | .int n _ => .int n
  | .bytes b _ => .bytes b
  | .list items _ => .list (kindList items)
  | .dict entries _ => .dict (kindEntries entries)
where
  kindList : List BencodeRef → List Bencode
    | [] => []
    | v :: rest => v.kind :: kindList rest
  kindEntries : List (Bytes × BencodeRef) → List (Bytes × Bencode)
    | [] => []
    | (key, v) :: rest => (key, v.kind) :: kindEntries rest

theorem kind_list_eq (items : List BencodeRef) :
    BencodeRef.kind.kindList items = items.map BencodeRef.kind := by
  induction items with
  | nil => rfl
  | cons v rest ih => simp [BencodeRef.kind.kindList, ih]

variable (entries : List (Bytes × BencodeRef))

theorem kind_entries_eq :
    BencodeRef.kind.kindEntries entries = mapValues BencodeRef.kind entries := by
  induction entries with
  | nil => rfl
  | cons e rest ih =>
    obtain ⟨key, v⟩ := e
    simp [BencodeRef.kind.kindEntries, mapValues, ih]

@[simp] theorem kind_int (n : Int64) (buffer : SubSlice) :
    (BencodeRef.int n buffer).kind = .int n := by rw [BencodeRef.kind]

@[simp] theorem kind_bytes (b : Bytes) (buffer : SubSlice) :
    (BencodeRef.bytes b buffer).kind = .bytes b := by rw [BencodeRef.kind]

@[simp] theorem kind_list (items : List BencodeRef) (buffer : SubSlice) :
    (BencodeRef.list items buffer).kind = .list (items.map BencodeRef.kind) := by
  rw [BencodeRef.kind, kind_list_eq]

@[simp] theorem kind_dict (buffer : SubSlice) :
    (BencodeRef.dict entries buffer).kind = .dict (mapValues BencodeRef.kind entries) := by
  rw [BencodeRef.kind, kind_entries_eq]

/-- Induction over a value, with the children of a container reached through membership. -/
@[elab_as_elim]
theorem Bencode.induct {motive : Bencode → Prop}
    (int : ∀ n, motive (.int n)) (bytes : ∀ b, motive (.bytes b))
    (list : ∀ items, (∀ v ∈ items, motive v) → motive (.list items))
    (dict : ∀ entries : List (Bytes × Bencode), (∀ e ∈ entries, motive e.2) →
      motive (.dict entries)) : ∀ v, motive v :=
  @Bencode.rec motive (fun items => ∀ v ∈ items, motive v)
    (fun entries => ∀ e ∈ entries, motive e.2) (fun e => motive e.2) int bytes list dict
    (by simp) (fun _ _ first later => List.forall_mem_cons.mpr ⟨first, later⟩)
    (by simp) (fun _ _ first later => List.forall_mem_cons.mpr ⟨first, later⟩)
    (by intro key v h; exact h)

/-- Every dictionary below this value has strictly increasing keys. -/
inductive DictsSorted : Bencode → Prop where
  | int (n : Int64) : DictsSorted (.int n)
  | bytes (b : Bytes) : DictsSorted (.bytes b)
  | list (items : List Bencode) (all : ∀ v ∈ items, DictsSorted v) : DictsSorted (.list items)
  | dict (entries : List (Bytes × Bencode)) (sorted : Sorted entries)
      (all : ∀ e ∈ entries, DictsSorted e.2) : DictsSorted (.dict entries)

structure BencodeMut where
  value : Bencode
  sorted : DictsSorted value

/-- Nesting level: a scalar or an empty container counts one. -/
def Bencode.level : Bencode → Nat
  | .int _ => 1
  | .bytes _ => 1
  | .list items => levelList items + 1
  | .dict entries => levelEntries entries + 1
where
  levelList : List Bencode → Nat
    | [] => 0
    | v :: rest => max v.level (levelList rest)
  levelEntries : List (Bytes × Bencode) → Nat
    | [] => 0
    | (_, v) :: rest => max v.level (levelEntries rest)

theorem level_list_le {items : List Bencode} {bound : Nat} :
    Bencode.level.levelList items ≤ bound ↔ ∀ v ∈ items, v.level ≤ bound := by
  induction items with
  | nil => simp [Bencode.level.levelList]
  | cons v rest ih => simp [Bencode.level.levelList, ih]

theorem level_entries_le {entries : List (Bytes × Bencode)} {bound : Nat} :
    Bencode.level.levelEntries entries ≤ bound ↔ ∀ e ∈ entries, e.2.level ≤ bound := by
  induction entries with
  | nil => simp [Bencode.level.levelEntries]
  | cons e rest ih =>
    obtain ⟨key, v⟩ := e
    simp [Bencode.level.levelEntries, ih]

/-- The dictionaries are sorted and nothing is nested deeper than the bound. -/
structure Shallow (v : Bencode) (bound : Nat) : Prop where
  sorted : DictsSorted v
  level : v.level ≤ bound

section Shallow
variable {bound : Nat}

@[simp] theorem shallow_bytes (b : Bytes) : Shallow (.bytes b) (bound + 1) :=
  ⟨.bytes b, by rw [Bencode.level]; omega⟩

@[simp] theorem shallow_int (n : Int64) : Shallow (.int n) (bound + 1) :=
  ⟨.int n, by rw [Bencode.level]; omega⟩

theorem shallow_list {items : List Bencode} (all : ∀ v ∈ items, Shallow v bound) :
    Shallow (.list items) (bound + 1) :=
  ⟨.list _ fun v member => (all v member).sorted,
    Nat.succ_le_succ (level_list_le.mpr fun v member => (all v member).level)⟩

theorem shallow_strings {α : Type} (f : α → Bytes) (items : List α) :
    Shallow (.list (items.map fun a => .bytes (f a))) (bound + 2) :=
  shallow_list (List.forall_mem_map.mpr fun _ _ => shallow_bytes _)

theorem shallow_dict {entries : List (Bytes × Bencode)} (sorted : Sorted entries)
    (all : ∀ e ∈ entries, Shallow e.2 bound) : Shallow (.dict entries) (bound + 1) :=
  ⟨.dict _ sorted fun e member => (all e member).sorted,
    Nat.succ_le_succ (level_entries_le.mpr fun e member => (all e member).level)⟩

end Shallow

structure BDecodeOpt where
  maxRecursion : Nat
  checkKeySort : Bool
  enforceFullDecode : Bool
  deriving DecidableEq, Repr

def BDecodeOpt.default : BDecodeOpt := ⟨50, false, true⟩

inductive BencodeParseError where
  | bytesEmpty (pos : Nat)
  | invalidByte (pos : Nat)
  | invalidIntNoDelimiter (pos : Nat)
  | invalidIntNegativeZero (pos : Nat)
  | invalidIntZeroPadding (pos : Nat)
  | invalidIntParseError (pos : Nat)
  | invalidKeyOrdering (pos : Nat) (key : Bytes)
  | invalidKeyDuplicates (pos : Nat) (key : Bytes)
  | invalidLengthNegative (pos : Nat)
  | invalidLengthOverflow (pos : Nat)
  | invalidRecursionExceeded (pos max : Nat)
  deriving DecidableEq, Repr

abbrev BencodeParseResult := Outcome BencodeParseError

end BencodeValue
