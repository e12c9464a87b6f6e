import Mathlib.Algebra.Group.Nat.Defs
import Mathlib.Data.List.Basic

/-!
Common prefixes of bit strings. With two letters, strings that leave a third one at the same
place agree there again, and strings that leave it at different places part at the first of them.
-/
namespace BitPrefix

/-- The number of leading places at which two strings agree. -/
def agree : List Bool → List Bool → Nat
  | x :: xs, y :: ys => if x = y then agree xs ys + 1 else 0
  | _, _ => 0

theorem agree_self (x : List Bool) : agree x x = x.length := by
  induction x with
  | nil => rfl
  | cons a x ih => simp [agree, ih]

variable (x y : List Bool)

theorem agree_comm : agree x y = agree y x := by
  induction x generalizing y with
  | nil => cases y <;> rfl
  | cons a x ih =>
    cases y with
    | nil => rfl
    | cons b y =>
      by_cases same : a = b
      · simp [agree, same, ih]
      · simp [agree, same, Ne.symm same]

theorem agree_le : agree x y ≤ x.length := by
  induction x generalizing y with
  | nil => simp [agree]
  | cons a x ih =>
    cases y with
    | nil => simp [agree]
    | cons b y =>
      unfold agree
      split
      · exact Nat.succ_le_succ (ih y)
      · exact Nat.zero_le _

theorem agree_full {x y : List Bool} (size : x.length = y.length) :
    agree x y = x.length ↔ x = y := by
  constructor
  · intro full
    induction x generalizing y with
    | nil => exact (List.length_eq_zero_iff.mp size.symm).symm
    | cons a x ih =>
      cases y with
      | nil => simp at size
      | cons b y =>
        unfold agree at full
        split at full
        · rename_i same
          rw [same, ih (Nat.succ.inj size) (Nat.succ.inj full)]
        · simp at full
  · intro same
    rw [← same, agree_self]

/-- Two strings that leave a third one at different places part at the first of the two. -/
theorem agree_of_lt {x y z : List Bool} (before : agree x y < agree x z) :
    agree y z = agree x y ∨ y.length = agree x y := by
  induction x generalizing y z with
  | nil => simp [agree] at before
  | cons a x ih =>
    cases y with
    | nil => simp [agree]
    | cons b y =>
      cases z with
      | nil => simp [agree] at before
      | cons c z =>
        unfold agree at before ⊢
        by_cases left : a = b
        · by_cases right : a = c
          · subst left right
            simp only [↓reduceIte, Nat.add_lt_add_iff_right] at before ⊢
            rcases ih before with inner | short
            · exact .inl (by rw [inner])
            · exact .inr (by rw [List.length_cons, short])
          · simp [right] at before
        · by_cases right : a = c
          · subst right
            simp [left, Ne.symm left]
          · simp [right] at before

theorem agree_of_eq {x y z : List Bool} (sizeY : y.length = x.length) (sizeZ : z.length = x.length)
    (same : agree x y = agree x z) (inside : agree x y < x.length) :
    agree x y < agree y z := by
  induction x generalizing y z with
  | nil => simp at inside
  | cons a x ih =>
    cases y with
    | nil => simp at sizeY
    | cons b y =>
      cases z with
      | nil => simp at sizeZ
      | cons c z =>
        have sizes := And.intro (Nat.succ.inj sizeY) (Nat.succ.inj sizeZ)
        unfold agree at same inside ⊢
        by_cases left : a = b
        · by_cases right : a = c
          · subst left right
            simp only [↓reduceIte, Nat.add_right_cancel_iff] at same
            simp only [↓reduceIte, List.length_cons, Nat.add_lt_add_iff_right] at inside ⊢
            exact ih sizes.1 sizes.2 same inside
          · rw [if_pos left, if_neg right] at same
            omega
        · by_cases right : a = c
          · rw [if_neg left, if_pos right] at same
            omega
          · -- the only other letter
            have other : b = c := by
              cases a <;> cases b <;> cases c <;> simp_all
            rw [if_neg left, if_pos other]
            omega

/-- The same number read off the exclusive or. -/
theorem agree_xor :
    agree x y = ((List.zipWith xor x y).takeWhile (! ·)).length := by
  induction x generalizing y with
  | nil => rfl
  | cons a x ih =>
    cases y with
    | nil => rfl
    | cons b y =>
      unfold agree
      by_cases same : a = b
      · subst same
        simp [ih]
      · have differ : (a ^^ b) = true := by simpa using same
        simp [same, differ]

theorem agree_before {i : Nat} (before : i < agree x y) : x[i]? = y[i]? := by
  induction x generalizing y i with
  | nil => simp [agree] at before
  | cons a x ih =>
    cases y with
    | nil => simp [agree] at before
    | cons b y =>
      unfold agree at before
      split at before
      · rename_i same
        cases i with
        | zero => simp [same]
        | succ i => exact ih y (Nat.lt_of_succ_lt_succ before)
      · simp at before

theorem agree_parts {x y : List Bool} (size : x.length = y.length) (inside : agree x y < x.length) :
    x[agree x y]? ≠ y[agree x y]? := by
  induction x generalizing y with
  | nil => simp at inside
  | cons a x ih =>
    cases y with
    | nil => simp at size
    | cons b y =>
      by_cases same : a = b
      · rw [agree, if_pos same] at inside ⊢
        exact ih (Nat.succ.inj size) (Nat.lt_of_succ_lt_succ inside)
      · simp [agree, same]

/-- A bit string as a number, the first bit the most significant one. -/
def value : List Bool → Nat
  | [] => 0
  | bit :: bits => bit.toNat * 2 ^ bits.length + value bits

theorem value_lt (bits : List Bool) : value bits < 2 ^ bits.length := by
  induction bits with
  | nil => simp [value]
  | cons bit bits ih =>
    rw [value, List.length_cons, Nat.pow_succ]
    cases bit <;> simp <;> omega

theorem value_lt_of_leading {x y : List Bool} (size : x.length = y.length)
    (more : (y.takeWhile (! ·)).length < (x.takeWhile (! ·)).length) : value x < value y := by
  induction x generalizing y with
  | nil => simp at more
  | cons a x ih =>
    cases y with
    | nil => simp at size
    | cons b y =>
      have sizes := Nat.succ.inj size
      have small := value_lt x
      cases a <;> cases b <;> simp [value] at more ⊢
      · exact ih sizes more
      · rw [← sizes]
        omega

end BitPrefix
