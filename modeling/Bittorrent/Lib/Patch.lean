import Mathlib.Data.List.Basic
import Mathlib.Data.List.Perm.Basic
import Mathlib.Data.List.TakeDrop

/-!
Overwriting a range of a list. A list that is cut into parts can be overwritten part by part. Also the
removal of an element whose place the last one takes.
-/
namespace ListPatch
open List hiding range range_add range_zero
variable {α : Type}

/-- The list with `data` in place of what stands from `pos` on. -/
def patch (list : List α) (pos : Nat) (data : List α) : List α :=
  list.take pos ++ data ++ list.drop (pos + data.length)

def range (list : List α) (pos count : Nat) : List α := (list.drop pos).take count

theorem patch_nil (list : List α) (pos : Nat) : patch list pos [] = list := by simp [patch]

variable {list : List α} {pos : Nat}
variable {data : List α}

theorem patch_length (inside : pos + data.length ≤ list.length) :
    (patch list pos data).length = list.length := by
  simp only [patch, length_append, length_take, length_drop]
  omega

variable {front : List α}

theorem patch_behind (rest data : List α) (behind : front.length ≤ pos) :
    patch (front ++ rest) pos data = front ++ patch rest (pos - front.length) data := by
  have further : pos + data.length - front.length = pos - front.length + data.length := by omega
  have past : front.length ≤ pos + data.length := by omega
  simp [patch, List.take_append, drop_append, take_of_length_le behind,
    drop_of_length_le past, further]

/-- A range that begins in the first part is written there first, and the remainder, if the part
    was filled to its end, at the beginning of the rest. -/
theorem patch_across (rest data more : List α) (inside : pos + data.length ≤ front.length)
    (filled : more = [] ∨ pos + data.length = front.length) :
    patch (front ++ rest) pos (data ++ more) = patch front pos data ++ patch rest 0 more := by
  have within : pos ≤ front.length := by omega
  rcases filled with nothing | full
  · subst nothing
    simp [patch, take_append_of_le_length within, drop_append_of_le_length inside]
  · have exceeding : pos + (data.length + more.length) - front.length = more.length := by omega
    have gone : front.length ≤ pos + (data.length + more.length) := by omega
    simp [patch, take_append_of_le_length within, drop_append, exceeding, full,
      drop_of_length_le gone]

theorem range_behind (rest : List α) (count : Nat) (behind : front.length ≤ pos) :
    range (front ++ rest) pos count = range rest (pos - front.length) count := by
  simp [range, drop_append, drop_of_length_le behind]

variable {count : Nat}

theorem range_across (rest : List α) (more : Nat) (inside : pos + count ≤ front.length)
    (filled : more = 0 ∨ pos + count = front.length) :
    range (front ++ rest) pos (count + more) = range front pos count ++ range rest 0 more := by
  have within : pos ≤ front.length := by omega
  rcases filled with nothing | full
  · subst nothing
    simp only [range, drop_append_of_le_length within, Nat.add_zero, take_zero,
      append_nil]
    apply take_append_of_le_length
    simp only [length_drop]
    omega
  · have size : (front.drop pos).length = count := by simp only [length_drop]; omega
    have all : (front.drop pos).take (count + more) = (front.drop pos).take count := by
      rw [take_of_length_le (by omega), take_of_length_le (by omega)]
    simp only [range, drop_append_of_le_length within, drop_zero]
    rw [List.take_append, all, size, Nat.add_sub_cancel_left]

theorem range_length (inside : pos + count ≤ list.length) :
    (range list pos count).length = count := by
  simp only [range, length_take, length_drop]
  omega

theorem range_add (list : List α) (pos count more : Nat) :
    range list pos (count + more) = range list pos count ++ range list (pos + count) more := by
  simp only [range, take_add, drop_drop]

theorem range_zero (list : List α) (pos : Nat) : range list pos 0 = [] := take_zero

theorem patch_append_data {more : List α} (inside : pos + data.length + more.length ≤ list.length) :
    patch (patch list pos data) (pos + data.length) more = patch list pos (data ++ more) := by
  have before : (list.take pos ++ data).length = pos + data.length := by
    simp only [length_append, length_take]
    omega
  rw [patch, patch, patch, ← before, take_left' rfl]
  simp only [append_assoc, length_append, length_take] at before ⊢
  congr 2
  rw [← append_assoc, drop_append]
  simp only [length_append, length_take, drop_drop]
  rw [drop_of_length_le (by simp only [length_append, length_take]; omega)]
  simp only [nil_append]
  congr 2
  omega

section Removal

def swapRemove (list : List α) (index : Nat) : List α :=
  match list.getLast? with
  | some last => (list.set index last).dropLast
  | none => list

theorem swap_remove_perm {list : List α} {index : Nat} (inside : index < list.length) :
    (swapRemove list index).Perm (list.eraseIdx index) := by
  obtain ⟨front, last, rfl⟩ : ∃ front last, list = front ++ [last] :=
    ⟨_, _, (dropLast_concat_getLast (ne_nil_of_length_pos (by omega))).symm⟩
  rw [swapRemove, List.getLast?_concat]
  dsimp only
  rw [length_append, length_singleton] at inside
  by_cases before : index < front.length
  · rw [set_append_left _ _ before, dropLast_concat, eraseIdx_append_of_lt_length before]
    exact set_perm_cons_eraseIdx before last |>.trans
      (perm_append_singleton last (front.eraseIdx index)).symm
  · have here : index = front.length := by omega
    rw [here, set_append_right _ _ (Nat.le_refl _), eraseIdx_append_of_length_le (Nat.le_refl _)]
    simp

end Removal

end ListPatch
