import Mathlib.Data.List.Lex
import Bittorrent.Lib.Outcome

/-!
Byte strings and the pointer-sized arithmetic on them, for a target with 64-bit pointers.
Additions are checked: an overflow is a panic, as with overflow checks on.
-/
namespace Rust
open List
variable {ε : Type}

instance linearOrderByte : LinearOrder UInt8 where
  le_refl := UInt8.le_refl
  le_trans := fun _ _ _ => UInt8.le_trans
  le_antisymm := fun _ _ => UInt8.le_antisymm
  le_total := UInt8.le_total
  lt_iff_le_not_ge := fun a b => by
    simp only [UInt8.lt_iff_toNat_lt, UInt8.le_iff_toNat_le]
    omega
  toDecidableLE := inferInstance
  toDecidableLT := inferInstance
  toDecidableEq := inferInstance
  min_def := fun _ _ => rfl
  max_def := fun _ _ => rfl

abbrev Bytes := List UInt8

/-- No Rust allocation, so no slice and no `Vec<u8>`, is longer than `isize::MAX` bytes. -/
def isizeMax : Nat := 2 ^ 63 - 1

def usizeMax : Nat := 2 ^ 64 - 1

def usizeAdd (a b : Nat) : Outcome ε Nat := if a + b ≤ usizeMax then .ok (a + b) else .panic

def usizeMul (a b : Nat) : Outcome ε Nat := if a * b ≤ usizeMax then .ok (a * b) else .panic

/-- A slice of a byte string: where it starts and the bytes it shows. -/
structure SubSlice where
  start : Nat
  bytes : Bytes
  deriving DecidableEq, Repr

/-- `&bytes[start..stop]` -/
def slice (bytes : Bytes) (start stop : Nat) : Outcome ε SubSlice :=
  if start ≤ stop ∧ stop ≤ bytes.length then .ok ⟨start, (bytes.drop start).take (stop - start)⟩
  else .panic

/-- `bytes[index]` -/
def byteAt (bytes : Bytes) (index : Nat) : Outcome ε UInt8 :=
  match bytes[index]? with
  | some byte => .ok byte
  | none => .panic

/-- `&bytes[start..]`, and the second half of `bytes.split_at(start)` -/
def sliceFrom (bytes : Bytes) (start : Nat) : Outcome ε Bytes :=
  if start ≤ bytes.length then .ok (bytes.drop start) else .panic

theorem usize_add_ok {a b : Nat} (small : a + b ≤ usizeMax) :
    (usizeAdd a b : Outcome ε Nat) = .ok (a + b) := by simp [usizeAdd, small]

theorem usize_mul_ok {a b : Nat} (small : a * b ≤ usizeMax) :
    (usizeMul a b : Outcome ε Nat) = .ok (a * b) := by simp [usizeMul, small]

variable {bytes : Bytes}

theorem slice_ok {start stop : Nat} (ordered : start ≤ stop) (inside : stop ≤ bytes.length) :
    (slice bytes start stop : Outcome ε SubSlice) =
      .ok ⟨start, (bytes.drop start).take (stop - start)⟩ := by
  simp [slice, ordered, inside]

theorem slice_from_ok {start : Nat} (inside : start ≤ bytes.length) :
    (sliceFrom bytes start : Outcome ε Bytes) = .ok (bytes.drop start) := by
  simp [sliceFrom, inside]

theorem usize_add_finished (a b : Nat) : (usizeAdd a b : Outcome ε Nat) ≠ .unfinished := by
  unfold usizeAdd
  split <;> simp

theorem slice_finished (bytes : Bytes) (start stop : Nat) :
    (slice bytes start stop : Outcome ε SubSlice) ≠ .unfinished := by
  unfold slice
  split <;> simp

theorem slice_from_finished (bytes : Bytes) (start : Nat) :
    (sliceFrom bytes start : Outcome ε Bytes) ≠ .unfinished := by
  unfold sliceFrom
  split <;> simp

theorem usize_add_value {a b c : Nat}
    (sum : (usizeAdd a b : Outcome ε Nat) = .ok c) : c = a + b := by
  unfold usizeAdd at sum
  split at sum
  · exact (Outcome.ok.inj sum).symm
  · simp at sum

/-- Positions in an allocated buffer, and one past its end, stay far below `usize::MAX`. -/
theorem usize_add_inside {a b : Nat} (fits : bytes.length ≤ isizeMax)
    (inside : a + b ≤ bytes.length + 1) : (usizeAdd a b : Outcome ε Nat) = .ok (a + b) := by
  apply usize_add_ok
  simp only [isizeMax, usizeMax] at *
  omega

/-- The byte string `s` stands in `bytes` from position `pos` on. -/
def StandsAt (bytes : Bytes) (pos : Nat) (s : Bytes) : Prop := ∃ rest, bytes.drop pos = s ++ rest

theorem stands_at_nil (bytes : Bytes) (pos : Nat) : StandsAt bytes pos [] :=
  ⟨bytes.drop pos, rfl⟩

theorem stands_at_whole (bytes : Bytes) : StandsAt bytes 0 bytes := ⟨[], by simp⟩

variable {pos : Nat}
variable {s : Bytes}

theorem stands_at_append {t : Bytes} :
    StandsAt bytes pos (s ++ t) ↔ StandsAt bytes pos s ∧ StandsAt bytes (pos + s.length) t := by
  constructor
  · rintro ⟨rest, split⟩
    refine ⟨⟨t ++ rest, by rw [split, append_assoc]⟩, rest, ?_⟩
    rw [← drop_drop, split, append_assoc, drop_left]
  · rintro ⟨⟨rest, first⟩, after, second⟩
    rw [← drop_drop, first, drop_left] at second
    exact ⟨after, by rw [first, second, append_assoc]⟩

theorem stands_at_singleton {c : UInt8} : StandsAt bytes pos [c] ↔ bytes[pos]? = some c := by
  constructor
  · rintro ⟨rest, split⟩
    have first : (bytes.drop pos)[0]? = some c := by simp [split]
    simpa using first
  · intro here
    have inside : pos < bytes.length := (List.getElem?_eq_some_iff.mp here).1
    have value : bytes[pos] = c := (List.getElem?_eq_some_iff.mp here).2
    exact ⟨bytes.drop (pos + 1), by rw [drop_eq_getElem_cons inside, value]; rfl⟩

theorem stands_at_cons {c : UInt8} :
    StandsAt bytes pos (c :: s) ↔ bytes[pos]? = some c ∧ StandsAt bytes (pos + 1) s := by
  rw [← singleton_append, stands_at_append, stands_at_singleton]
  rfl

theorem stands_at_inside (stands : StandsAt bytes pos s) (nonempty : s ≠ []) :
    pos + s.length ≤ bytes.length := by
  obtain ⟨rest, split⟩ := stands
  have lengths := congrArg List.length split
  have positive : 0 < s.length := length_pos_iff.mpr nonempty
  simp only [length_drop, length_append] at lengths
  omega

theorem stands_at_unique {t : Bytes} (first : StandsAt bytes pos s) (second : StandsAt bytes pos t)
    (length : s.length = t.length) : s = t := by
  obtain ⟨rest, split⟩ := first
  obtain ⟨after, other⟩ := second
  exact (append_inj (split.symm.trans other) length).1

theorem slice_of_stands (stands : StandsAt bytes pos s) (nonempty : s ≠ []) :
    (slice bytes pos (pos + s.length) : Outcome ε SubSlice) = .ok ⟨pos, s⟩ := by
  have inside := stands_at_inside stands nonempty
  obtain ⟨rest, split⟩ := stands
  rw [slice_ok (by omega) inside, split]
  simp

end Rust
