import Mathlib.Data.List.Perm.Basic

/-!
Lists put together from their parts: by position, and by the value of a function.
-/
namespace ListParts
open List

variable {α β : Type}

/-- Going through all positions of a list, and possibly some behind it. -/
theorem flatMap_positions (f : α → List β) : ∀ (l : List α) (n : Nat), l.length ≤ n →
    (List.range n).flatMap (fun j => ((l[j]?).map f).getD []) = l.flatMap f := by
  intro l
  induction l with
  | nil =>
    intro n _
    apply flatMap_eq_nil_iff.mpr
    simp
  | cons x rest ih =>
    intro n enough
    cases n with
    | zero => simp at enough
    | succ n =>
      rw [range_succ_eq_map, flatMap_cons, flatMap_map, flatMap_cons,
        ← ih n (Nat.le_of_succ_le_succ enough)]
      rfl

/-- Every element is in the part of its own value. -/
theorem flatMap_parts (k : α → Nat) : ∀ (values : List Nat) (l : List α), values.Nodup →
    (∀ x ∈ l, k x ∈ values) → (values.flatMap fun j => l.filter (k · = j)).Perm l := by
  intro values
  induction values with
  | nil =>
    intro l _ inside
    have empty : l = [] := eq_nil_iff_forall_not_mem.mpr fun x member => by
      simpa using inside x member
    rw [empty]
    exact .refl _
  | cons j values ih =>
    intro l distinct inside
    obtain ⟨new, later⟩ := nodup_cons.mp distinct
    -- what is left for the other values
    have rest := ih (l.filter fun x => ! decide (k x = j)) later (by
      intro x member
      obtain ⟨original, other⟩ := mem_filter.mp member
      rcases mem_cons.mp (inside x original) with same | found
      · simp [same] at other
      · exact found)
    have parts : ∀ i ∈ values, (l.filter fun x => ! decide (k x = j)).filter (k · = i) =
        l.filter (k · = i) := by
      intro i member
      rw [filter_filter]
      apply filter_congr
      intro x _
      by_cases same : k x = i
      · have other : i ≠ j := fun h => new (h ▸ member)
        simp [same, other]
      · simp [same]
    rw [flatMap_cons]
    have tail : values.flatMap (fun i => l.filter (k · = i)) =
        values.flatMap fun i => (l.filter fun x => ! decide (k x = j)).filter (k · = i) :=
      flatMap_congr fun i member => (parts i member).symm
    rw [tail]
    exact (List.Perm.append_left _ rest).trans (filter_append_perm (fun x => decide (k x = j)) l)

end ListParts
