import Mathlib.Data.Nat.Digits.Lemmas

/-!
Decimal text in ASCII. `printInt` is `to_string` on an integer and `readInt` follows
`from_str_radix` in base ten: one optional sign, then at least one digit and nothing else.
Both are over unbounded integers, a fixed width is imposed by the caller.
-/
namespace DecimalText
open List hiding range

def isDigit (c : UInt8) : Bool := decide (48 ≤ c.toNat ∧ c.toNat ≤ 57)

def digitValue (c : UInt8) : Nat := c.toNat - 48

def digitByte (d : Nat) : UInt8 := UInt8.ofNat (48 + d)

def printNat (n : Nat) : List UInt8 :=
  if n = 0 then [48] else (Nat.digits 10 n).reverse.map digitByte

def valueFrom (acc : Nat) (s : List UInt8) : Nat :=
  s.foldl (fun acc c => acc * 10 + digitValue c) acc

def readNat (s : List UInt8) : Option Nat :=
  if s ≠ [] ∧ s.all isDigit then some (valueFrom 0 s) else none

def minus : UInt8 := 45
def plus : UInt8 := 43

def printInt (n : Int) : List UInt8 :=
  if n < 0 then minus :: printNat n.natAbs else printNat n.natAbs

def readInt (s : List UInt8) : Option Int :=
  match s with
  | [] => none
  | c :: rest =>
    if c = plus then (readNat rest).map fun n : Nat => (n : Int)
    else if c = minus then (readNat rest).map fun n : Nat => -(n : Int)
    else (readNat (c :: rest)).map fun n : Nat => (n : Int)

/-- `i64::from_str_radix(s, 10)`: a value outside the range is an error like any other. -/
def readInt64 (s : List UInt8) : Option Int64 :=
  (readInt s).bind fun n => if -2 ^ 63 ≤ n ∧ n < 2 ^ 63 then some (Int64.ofInt n) else none

variable {d : Nat}

theorem digit_byte_toNat (small : d < 10) : (digitByte d).toNat = 48 + d := by
  simp only [digitByte, UInt8.toNat_ofNat']
  omega

theorem digit_byte_isDigit (small : d < 10) : isDigit (digitByte d) = true := by
  simp only [isDigit, digit_byte_toNat small, decide_eq_true_eq]
  omega

theorem digit_value_byte (small : d < 10) : digitValue (digitByte d) = d := by
  simp only [digitValue, digit_byte_toNat small]
  omega

variable {c : UInt8}

theorem digit_byte_value (digit : isDigit c = true) : digitByte (digitValue c) = c := by
  simp only [isDigit, decide_eq_true_eq] at digit
  apply UInt8.toNat_inj.mp
  rw [digit_byte_toNat (by simp only [digitValue]; omega)]
  simp only [digitValue]
  omega

theorem digit_value_lt (digit : isDigit c = true) : digitValue c < 10 := by
  simp only [isDigit, decide_eq_true_eq] at digit
  simp only [digitValue]
  omega

/-- Reading left to right is the base-ten value of the reversed digit list. -/
theorem value_from_zero (s : List UInt8) :
    valueFrom 0 s = Nat.ofDigits 10 (s.reverse.map digitValue) := by
  induction s using List.reverseRecOn with
  | nil => rfl
  | append_singleton s c ih =>
    simp only [valueFrom] at ih
    simp only [valueFrom, foldl_append, foldl_cons, foldl_nil, ih,
      reverse_append, reverse_cons, reverse_nil, nil_append,
      singleton_append, map_cons, Nat.ofDigits_cons]
    omega

variable {n : Nat}

theorem print_nat_pos (pos : n ≠ 0) : printNat n = (Nat.digits 10 n).reverse.map digitByte := by
  simp [printNat, pos]

theorem print_nat_ne_nil (n : Nat) : printNat n ≠ [] := by
  by_cases zero : n = 0
  · simp [printNat, zero]
  · rw [print_nat_pos zero]
    simpa [Nat.digits_ne_nil_iff_ne_zero] using zero

theorem print_nat_digits (n : Nat) : (printNat n).all isDigit = true := by
  by_cases zero : n = 0
  · subst zero; decide
  · rw [print_nat_pos zero, all_eq_true]
    intro c member
    obtain ⟨d, inDigits, rfl⟩ := mem_map.mp member
    exact digit_byte_isDigit (Nat.digits_lt_base (by omega) (mem_reverse.mp inDigits))

theorem read_print_nat (n : Nat) : readNat (printNat n) = some n := by
  have accepted : printNat n ≠ [] ∧ (printNat n).all isDigit = true :=
    ⟨print_nat_ne_nil n, print_nat_digits n⟩
  rw [readNat, if_pos accepted, value_from_zero]
  by_cases zero : n = 0
  · subst zero; rfl
  · have back : (printNat n).reverse.map digitValue = Nat.digits 10 n := by
      rw [print_nat_pos zero, ← map_reverse, reverse_reverse, map_map]
      conv => rhs; rw [← map_id (Nat.digits 10 n)]
      apply map_congr_left
      intro d inDigits
      exact digit_value_byte (Nat.digits_lt_base (by omega) inDigits)
    rw [back, Nat.ofDigits_digits]

variable {s : List UInt8}

/-- Digits without a leading zero are the printed form of their value. -/
theorem print_read_nat (read : readNat s = some n) (unpadded : 1 < s.length → s.head? ≠ some 48) :
    printNat n = s := by
  simp only [readNat] at read
  split at read
  · rename_i accepted
    obtain ⟨nonempty, digits⟩ := accepted
    rw [all_eq_true] at digits
    simp only [Option.some.injEq] at read
    rw [value_from_zero] at read
    obtain ⟨c, rest, rfl⟩ := exists_cons_of_ne_nil nonempty
    have head := digits c (by simp)
    have restore : ((c :: rest).map digitValue).map digitByte = c :: rest := by
      rw [map_map]
      conv => rhs; rw [← map_id (c :: rest)]
      apply map_congr_left
      intro d member
      exact digit_byte_value (digits d member)
    have small : ∀ d ∈ (c :: rest).reverse.map digitValue, d < 10 := by
      intro d member
      obtain ⟨e, inRev, rfl⟩ := mem_map.mp member
      exact digit_value_lt (digits e (mem_reverse.mp inRev))
    by_cases zero : digitValue c = 0
    · -- a leading zero is only possible for the single digit zero
      have isZero : c = 48 := by rw [← digit_byte_value head, zero]; rfl
      have short : rest = [] := by
        by_contra more
        have long : 1 < (c :: rest).length := by
          have := length_pos_iff.mpr more
          simp only [length_cons]
          omega
        exact unpadded long (by simp [isZero])
      subst short isZero
      rw [← read]
      rfl
    · have last : ∀ h : (c :: rest).reverse.map digitValue ≠ [],
          ((c :: rest).reverse.map digitValue).getLast h ≠ 0 := by
        intro h
        simpa using zero
      have digitsOf : Nat.digits 10 n = (c :: rest).reverse.map digitValue := by
        rw [← read, Nat.digits_ofDigits 10 (by omega) _ small last]
      have positive : n ≠ 0 := by
        intro none
        simp [none] at digitsOf
      rw [print_nat_pos positive, digitsOf, ← map_reverse, reverse_reverse, restore]
  · simp at read

theorem print_nat_leading (nonzero : n ≠ 0) : (printNat n).head? ≠ some 48 := by
  rw [print_nat_pos nonzero, List.head?_map, List.head?_reverse]
  have nonempty : Nat.digits 10 n ≠ [] := Nat.digits_ne_nil_iff_ne_zero.mpr nonzero
  rw [List.getLast?_eq_some_getLast nonempty]
  have top := Nat.getLast_digit_ne_zero 10 nonzero
  have small : (Nat.digits 10 n).getLast nonempty < 10 :=
    Nat.digits_lt_base (by omega) (getLast_mem nonempty)
  simp only [Option.map_some, ne_eq, Option.some.injEq]
  intro same
  have value := congrArg UInt8.toNat same
  rw [digit_byte_toNat small] at value
  have : (48 : UInt8).toNat = 48 := rfl
  omega

theorem print_nat_unpadded (long : 1 < (printNat n).length) : (printNat n).head? ≠ some 48 := by
  apply print_nat_leading
  intro zero
  simp [printNat, zero] at long

theorem digit_ne_sign (digit : isDigit c = true) : c ≠ plus ∧ c ≠ minus := by
  constructor <;> (rintro rfl; revert digit; decide)

theorem read_int_digits (digits : s.all isDigit = true) :
    readInt s = (readNat s).map fun n : Nat => (n : Int) := by
  cases s with
  | nil => rfl
  | cons c rest =>
    have first := digit_ne_sign ((all_eq_true.mp digits) c (by simp))
    simp [readInt, first.1, first.2]

theorem read_print_int (n : Int) : readInt (printInt n) = some n := by
  by_cases neg : n < 0
  · have sign : minus ≠ plus := by decide
    have value : -(n.natAbs : Int) = n := by omega
    simp only [printInt, neg, ↓reduceIte, readInt, sign, read_print_nat, Option.map_some, value]
  · have value : (n.natAbs : Int) = n := by omega
    simp only [printInt, neg, ↓reduceIte, read_int_digits (print_nat_digits _), read_print_nat,
      Option.map_some, value]

theorem read_print_int64 (n : Int64) : readInt64 (printInt n.toInt) = some n := by
  have range : -2 ^ 63 ≤ n.toInt ∧ n.toInt < 2 ^ 63 := ⟨Int64.le_toInt n, Int64.toInt_lt n⟩
  simp only [readInt64, read_print_int, Option.bind_some, range, and_self, ↓reduceIte,
    Int64.ofInt_toInt]

theorem read_nat_digits (read : readNat s = some n) :
    s ≠ [] ∧ s.all isDigit = true ∧ n = valueFrom 0 s := by
  unfold readNat at read
  split at read
  · rename_i accepted
    exact ⟨accepted.1, accepted.2, (Option.some.inj read).symm⟩
  · simp at read

theorem print_nat_length_le (read : readNat s = some n) : (printNat n).length ≤ s.length := by
  obtain ⟨nonempty, digits, value⟩ := read_nat_digits read
  have positive : 0 < s.length := length_pos_iff.mpr nonempty
  by_cases zero : n = 0
  · simpa [printNat, zero] using Nat.succ_le_of_lt positive
  · have bound : n < 10 ^ s.length := by
      rw [value, value_from_zero]
      have small := Nat.ofDigits_lt_base_pow_length (b := 10) (l := s.reverse.map digitValue)
        (by omega) (by
          intro d member
          obtain ⟨c, inside, rfl⟩ := mem_map.mp member
          exact digit_value_lt (all_eq_true.mp digits c (mem_reverse.mp inside)))
      simpa using small
    rw [print_nat_pos zero, length_map, length_reverse]
    exact (Nat.digits_length_le_iff (by omega) n).mpr bound

theorem read_int_cases {n : Int} (read : readInt s = some n) :
    (∃ rest m, s = plus :: rest ∧ readNat rest = some m ∧ n = m) ∨
    (∃ rest m, s = minus :: rest ∧ readNat rest = some m ∧ n = -(m : Int)) ∨
    (s.head? ≠ some plus ∧ s.head? ≠ some minus ∧ ∃ m, readNat s = some m ∧ n = m) := by
  cases s with
  | nil => simp [readInt] at read
  | cons c rest =>
    simp only [readInt] at read
    split at read
    · rename_i signed
      obtain ⟨m, digits, value⟩ := Option.map_eq_some_iff.mp read
      exact .inl ⟨rest, m, by rw [signed], digits, value.symm⟩
    · split at read
      · rename_i signed
        obtain ⟨m, digits, value⟩ := Option.map_eq_some_iff.mp read
        exact .inr (.inl ⟨rest, m, by rw [signed], digits, value.symm⟩)
      · rename_i noPlus noMinus
        obtain ⟨m, digits, value⟩ := Option.map_eq_some_iff.mp read
        exact .inr (.inr ⟨by simpa using noPlus, by simpa using noMinus, m, digits, value.symm⟩)

theorem read_int_alphabet {n : Int} (read : readInt s = some n) :
    ∀ c ∈ s, isDigit c = true ∨ c = plus ∨ c = minus := by
  intro c member
  rcases read_int_cases read with ⟨rest, m, rfl, digits, _⟩ | ⟨rest, m, rfl, digits, _⟩ |
    ⟨_, _, m, digits, _⟩
  · rcases mem_cons.mp member with sign | inside
    · exact .inr (.inl sign)
    · exact .inl (all_eq_true.mp (read_nat_digits digits).2.1 c inside)
  · rcases mem_cons.mp member with sign | inside
    · exact .inr (.inr sign)
    · exact .inl (all_eq_true.mp (read_nat_digits digits).2.1 c inside)
  · exact .inl (all_eq_true.mp (read_nat_digits digits).2.1 c member)

theorem print_int_natCast (m : Nat) : printInt (m : Int) = printNat m := by
  have nonneg : ¬ (m : Int) < 0 := by omega
  simp [printInt, nonneg]

/-- A numeral that is unpadded, not a negative zero and without a plus sign is the printed form
    of its value. -/
theorem print_read_int {n : Int} (read : readInt s = some n)
    (unpadded : 1 < s.length → s[0]? ≠ some 48)
    (noNegativeZero : 1 < s.length → ¬ (s[0]? = some minus ∧ s[1]? = some 48))
    (noPlus : s.head? ≠ some plus) : printInt n = s := by
  rcases read_int_cases read with ⟨rest, m, rfl, digits, _⟩ | ⟨rest, m, rfl, digits, rfl⟩ |
    ⟨_, _, m, digits, rfl⟩
  · simp at noPlus
  · have nonempty := (read_nat_digits digits).1
    have long : 1 < (minus :: rest).length := by
      have positive : 0 < rest.length := length_pos_iff.mpr nonempty
      simpa using positive
    have lead : rest.head? ≠ some 48 := by
      have second := noNegativeZero long
      simpa [List.head?_eq_getElem?] using second
    have printed : printNat m = rest := print_read_nat digits (fun _ => lead)
    have negative : -(m : Int) < 0 := by
      by_contra nonneg
      have zero : m = 0 := by omega
      subst zero
      rw [← printed] at lead
      exact lead (by decide)
    rw [printInt, if_pos negative, Int.natAbs_neg, Int.natAbs_natCast, printed]
  · rw [print_int_natCast]
    exact print_read_nat digits (by simpa [List.head?_eq_getElem?] using unpadded)

theorem print_int_length_lt {rest : List UInt8} {n : Int}
    (read : readInt (plus :: rest) = some n) : (printInt n).length < (plus :: rest).length := by
  rcases read_int_cases read with ⟨tail, m, same, digits, rfl⟩ | ⟨_, _, same, _, _⟩ | ⟨noPlus, _⟩
  · obtain ⟨_, rfl⟩ := List.cons.inj same
    rw [print_int_natCast]
    exact Nat.lt_succ_of_le (print_nat_length_le digits)
  · exact absurd (List.cons.inj same).1 (by decide)
  · simp at noPlus

/-- The printed form passes the checks that the conversion leaves to its callers. -/
theorem print_int_unpadded {n : Int} (long : 1 < (printInt n).length) :
    (printInt n)[0]? ≠ some 48 := by
  unfold printInt at *
  split at long
  · rename_i negative
    rw [if_pos negative]
    simp [minus]
  · rename_i nonneg
    rw [if_neg nonneg, ← List.head?_eq_getElem?]
    exact print_nat_unpadded long

theorem print_int_no_negative_zero (n : Int) :
    ¬ ((printInt n)[0]? = some minus ∧ (printInt n)[1]? = some 48) := by
  unfold printInt
  split
  · rename_i negative
    rintro ⟨_, second⟩
    have nonzero : n.natAbs ≠ 0 := by omega
    apply print_nat_leading nonzero
    rw [List.head?_eq_getElem?]
    simpa using second
  · rintro ⟨first, _⟩
    have member := mem_of_getElem? first
    have digit := all_eq_true.mp (print_nat_digits n.natAbs) minus member
    exact absurd digit (by decide)

theorem read_int64_value {n : Int64} (read : readInt64 s = some n) : readInt s = some n.toInt := by
  obtain ⟨m, value, bounded⟩ := Option.bind_eq_some_iff.mp read
  split at bounded
  · rename_i range
    have same : n = Int64.ofInt m := (Option.some.inj bounded).symm
    rw [value, same, Int64.toInt_ofInt_of_le range.1 range.2]
  · simp at bounded

theorem print_nat_short {digits : Nat} (positive : 0 < digits) (small : n < 10 ^ digits) :
    (printNat n).length ≤ digits := by
  unfold printNat
  split
  · exact positive
  · rw [length_map, length_reverse]
    exact (Nat.digits_length_le_iff (by decide) n).mpr small

theorem print_int64_short (n : Int64) : (printInt n.toInt).length ≤ 20 := by
  have low := n.le_toInt
  have high := n.toInt_lt
  have digits : (printNat n.toInt.natAbs).length ≤ 19 := print_nat_short (by decide) (by omega)
  unfold printInt
  split
  · exact Nat.succ_le_succ digits
  · exact Nat.le_succ_of_le digits

end DecimalText
