import Mathlib.Data.List.Basic

/-!
A list in parts of one size, of which only the last may be shorter.
-/
namespace ListChunks
open List
variable {α : Type} {size : Nat}

def chunksFuel (size : Nat) : Nat → List α → List (List α)
  | 0, _ => []
  | _ + 1, [] => []
  | fuel + 1, x :: xs => (x :: xs).take size :: chunksFuel size fuel ((x :: xs).drop size)

def chunks (size : Nat) (list : List α) : List (List α) := chunksFuel size list.length list

theorem chunks_fuel_irrelevant (positive : 0 < size) (fuel : Nat) : ∀ {more : Nat} {list : List α},
    list.length ≤ fuel → list.length ≤ more → chunksFuel size fuel list = chunksFuel size more list := by
  induction fuel with
  | zero =>
    intro more list enough _
    rw [eq_nil_of_length_eq_zero (Nat.le_zero.mp enough)]
    cases more <;> rfl
  | succ fuel ih =>
    intro more list enough enoughMore
    cases list with
    | nil => cases more <;> rfl
    | cons x xs =>
      obtain ⟨less, rfl⟩ : ∃ less, more = less + 1 := ⟨more - 1, by
        rw [length_cons] at enoughMore
        omega⟩
      rw [length_cons] at enough enoughMore
      have shorter : ((x :: xs).drop size).length ≤ xs.length := by
        rw [length_drop, length_cons]
        omega
      rw [chunksFuel, chunksFuel, @ih less _ (by omega) (by omega)]

theorem chunks_step (positive : 0 < size) {list : List α} (some : list ≠ []) :
    chunks size list = list.take size :: chunks size (list.drop size) := by
  cases list with
  | nil => exact absurd rfl some
  | cons x xs =>
    have shorter : ((x :: xs).drop size).length ≤ xs.length := by
      rw [length_drop, length_cons]
      omega
    rw [chunks, length_cons, chunksFuel,
      chunks_fuel_irrelevant positive xs.length shorter (Nat.le_refl _)]
    rfl

/-- What holds of the empty list, and of a list if it holds behind its first part, holds of all. -/
theorem chunks_induction {P : List α → Prop} (positive : 0 < size) (nil : P [])
    (step : ∀ list, list ≠ [] → P (list.drop size) → P list) (list : List α) : P list := by
  generalize bound : list.length = n
  induction n using Nat.strongRecOn generalizing list with
  | ind n ih =>
    by_cases none : list = []
    · rw [none]
      exact nil
    · have some := length_pos_iff.mpr none
      refine step list none (ih (list.drop size).length ?_ _ rfl)
      rw [length_drop]
      omega

end ListChunks
