import Bittorrent.Lib.Bytes
import Bittorrent.Lib.Decimal

/-!
Well-formed UTF-8 as `str::from_utf8` accepts it. The scanner carries how many continuation
bytes are still owed and the range the next one must lie in. A `Str` is a byte string with the
proof that it is well formed.
-/
namespace Rust
open DecimalText List

/-- What a first byte announces: owed continuation bytes and the bounds of the next one. -/
def announce (c : UInt8) : Option (Nat × UInt8 × UInt8) :=
  if c ≤ 0x7F then some (0, 0x80, 0xBF)
  else if 0xC2 ≤ c ∧ c ≤ 0xDF then some (1, 0x80, 0xBF)
  else if c = 0xE0 then some (2, 0xA0, 0xBF)
  else if 0xE1 ≤ c ∧ c ≤ 0xEC then some (2, 0x80, 0xBF)
  else if c = 0xED then some (2, 0x80, 0x9F)
  else if 0xEE ≤ c ∧ c ≤ 0xEF then some (2, 0x80, 0xBF)
  else if c = 0xF0 then some (3, 0x90, 0xBF)
  else if 0xF1 ≤ c ∧ c ≤ 0xF3 then some (3, 0x80, 0xBF)
  else if c = 0xF4 then some (3, 0x80, 0x8F)
  else none

def scan : Nat → UInt8 → UInt8 → Bytes → Bool
  | 0, _, _, [] => true
  | _ + 1, _, _, [] => false
  | 0, _, _, c :: rest =>
    match announce c with
    | some (owed, low, high) => scan owed low high rest
    | none => false
  | owed + 1, low, high, c :: rest =>
    if low ≤ c ∧ c ≤ high then scan owed 0x80 0xBF rest else false

def validUtf8 (s : Bytes) : Bool := scan 0 0x80 0xBF s

theorem ascii_valid {s : Bytes} (ascii : ∀ c ∈ s, c ≤ 0x7F) : validUtf8 s = true := by
  simp only [validUtf8]
  induction s with
  | nil => rfl
  | cons c rest ih =>
    have first : c ≤ 0x7F := ascii c (by simp)
    simp only [scan, announce, first, ↓reduceIte]
    exact ih (forall_mem_cons.mp ascii).2

/-- With nothing owed the bounds of a continuation byte do not matter. -/
theorem scan_zero (low high : UInt8) (s : Bytes) : scan 0 low high s = validUtf8 s := by
  cases s <;> rfl

theorem scan_append (b : Bytes) : ∀ (a : Bytes) (owed : Nat) (low high : UInt8),
    scan owed low high a = true → scan owed low high (a ++ b) = validUtf8 b := by
  intro a
  induction a with
  | nil =>
    intro owed low high whole
    cases owed with
    | zero => exact scan_zero low high b
    | succ owed => simp [scan] at whole
  | cons c rest ih =>
    intro owed low high whole
    cases owed with
    | zero =>
      rw [cons_append]
      rw [scan] at whole ⊢
      cases first : announce c with
      | none => simp [first] at whole
      | some bounds =>
        simp only [first] at whole ⊢
        exact ih _ _ _ whole
    | succ owed =>
      rw [cons_append]
      rw [scan] at whole ⊢
      by_cases inside : low ≤ c ∧ c ≤ high
      · rw [if_pos inside] at whole ⊢
        exact ih _ _ _ whole
      · rw [if_neg inside] at whole
        simp at whole

theorem announce_low {c low high : UInt8} {owed : Nat} (same : announce c = some (owed, low, high)) :
    0x7F < low := by
  unfold announce at same
  repeat' split at same
  all_goals
    cases same
    try decide

/-- A text can be cut at an ASCII letter. -/
theorem scan_split {c : UInt8} (ascii : c ≤ 0x7F) (b : Bytes) :
    ∀ (a : Bytes) (owed : Nat) (low high : UInt8), 0x7F < low →
      scan owed low high (a ++ c :: b) = true → scan owed low high a = true ∧ validUtf8 b = true := by
  intro a
  induction a with
  | nil =>
    intro owed low high above whole
    cases owed with
    | zero =>
      simp only [nil_append, scan, announce, ascii, ↓reduceIte] at whole
      exact ⟨rfl, whole⟩
    | succ owed =>
      have outside : ¬ (low ≤ c ∧ c ≤ high) := by
        rintro ⟨under, _⟩
        exact absurd (lt_of_lt_of_le above (le_trans under ascii)) (lt_irrefl _)
      simp [scan, outside] at whole
  | cons x rest ih =>
    intro owed low high above whole
    cases owed with
    | zero =>
      simp only [cons_append, scan] at whole ⊢
      cases first : announce x with
      | none =>
        rw [first] at whole
        cases whole
      | some next =>
        obtain ⟨owed, low, high⟩ := next
        rw [first] at whole
        exact ih owed low high (announce_low first) whole
    | succ owed =>
      simp only [cons_append, scan] at whole ⊢
      by_cases inside : low ≤ x ∧ x ≤ high
      · rw [if_pos inside] at whole ⊢
        exact ih owed _ _ (by decide) whole
      · rw [if_neg inside] at whole
        cases whole

structure Str where
  bytes : Bytes
  valid : validUtf8 bytes = true
  deriving DecidableEq

/-- The bytes of an ASCII literal. -/
def text (s : String) : Bytes := s.toList.map fun c => UInt8.ofNat (c.toNat % 128)

theorem text_valid (s : String) : validUtf8 (text s) = true := by
  apply ascii_valid
  intro c member
  obtain ⟨letter, _, rfl⟩ := mem_map.mp member
  rw [UInt8.le_iff_toNat_le, UInt8.toNat_ofNat']
  have limit : (0x7F : UInt8).toNat = 127 := rfl
  omega

def Str.ofAscii (s : String) : Str := ⟨text s, text_valid s⟩

def Str.fromUtf8 (bytes : Bytes) : Option Str :=
  if valid : validUtf8 bytes = true then some ⟨bytes, valid⟩ else none

def Str.append (a b : Str) : Str where
  bytes := a.bytes ++ b.bytes
  valid := (scan_append b.bytes a.bytes _ _ _ a.valid).trans b.valid

theorem digits_valid (n : Nat) : validUtf8 (printNat n) = true := by
  apply ascii_valid
  intro c member
  have digit := all_eq_true.mp (print_nat_digits n) c member
  simp only [isDigit, decide_eq_true_eq] at digit
  rw [UInt8.le_iff_toNat_le]
  have limit : (0x7F : UInt8).toNat = 127 := rfl
  omega

/-- The decimal digits of a number, as `format!` writes them. -/
def Str.ofNat (n : Nat) : Str := ⟨printNat n, digits_valid n⟩

/-- Arguments of `format!` put side by side. -/
def Str.concat (parts : List Str) : Str := parts.foldr Str.append ⟨[], rfl⟩

/-- The numbers of a list after the first, each behind a comma, and the closing bracket. -/
def Str.debugRest : Bytes → Str
  | [] => Str.ofAscii "]"
  | b :: rest => Str.concat [Str.ofAscii ", ", Str.ofNat b.toNat, Str.debugRest rest]

/-- A byte slice under the format `?`. -/
def Str.debugBytes : Bytes → Str
  | [] => Str.ofAscii "[]"
  | b :: rest => Str.concat [Str.ofAscii "[", Str.ofNat b.toNat, Str.debugRest rest]

theorem from_utf8_bytes (s : Str) : Str.fromUtf8 s.bytes = some s := dif_pos s.valid

end Rust
