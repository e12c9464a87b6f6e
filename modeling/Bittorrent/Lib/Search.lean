import Mathlib.Data.List.InsertIdx
import Bittorrent.Lib.Outcome

/-!
Binary search in a slice as the standard library does it: the size is halved without an early
exit, and one last comparison decides. Also insertion into a vector, which panics behind the end.
-/
namespace Rust
open List

variable {α ε : Type}

/-- The index of a match, or the one at which an insertion keeps the order. -/
inductive SearchResult where
  | ok (index : Nat)
  | err (index : Nat)
  deriving DecidableEq

/-- The loop with a bound on its turns; it leaves the last candidate. -/
def searchLoop (cmp : α → Ordering) (list : List α) : Nat → Nat → Nat → Nat
  | 0, _, base => base
  | fuel + 1, size, base =>
    if size ≤ 1 then base
    else
      let half := size / 2
      let mid := base + half
      match list[mid]? with
      | none => base
      | some a => searchLoop cmp list fuel (size - half) (if cmp a = .gt then base else mid)

def binarySearchBy (cmp : α → Ordering) (list : List α) : SearchResult :=
  let base := searchLoop cmp list list.length list.length 0
  match list[base]? with
  | none => .err 0
  | some a =>
    match cmp a with
    | .eq => .ok base
    | .lt => .err (base + 1)
    | .gt => .err base

def insertAt (list : List α) (index : Nat) (a : α) : Outcome ε (List α) :=
  if index ≤ list.length then .ok (list.insertIdx index a) else .panic

theorem insert_at_ok {list : List α} {index : Nat} (inside : index ≤ list.length) (a : α) :
    (insertAt list index a : Outcome ε (List α)) = .ok (list.insertIdx index a) :=
  if_pos inside

theorem insert_pairwise {R : α → α → Prop} {a : α} (list : List α) : ∀ index : Nat,
    list.Pairwise R → (∀ (k : Nat) (b : α), k < index → list[k]? = some b → R b a) →
    (∀ (k : Nat) (b : α), index ≤ k → list[k]? = some b → R a b) →
      (list.insertIdx index a).Pairwise R := by
  induction list with
  | nil =>
    intro index _ _ _
    cases index <;> simp
  | cons x xs ih =>
    intro index sorted before behind
    obtain ⟨first, rest⟩ := pairwise_cons.mp sorted
    cases index with
    | zero =>
      refine pairwise_cons.mpr ⟨?_, sorted⟩
      intro b member
      obtain ⟨k, inside, rfl⟩ := mem_iff_getElem.mp member
      exact behind k _ (Nat.zero_le _) (List.getElem?_eq_getElem inside)
    | succ index =>
      rw [insertIdx_succ_cons]
      refine pairwise_cons.mpr ⟨?_, ?_⟩
      · intro b member
        rcases eq_or_mem_of_mem_insertIdx member with rfl | inside
        · exact before 0 x (Nat.succ_pos _) rfl
        · exact first b inside
      · apply ih index rest
        · intro k b smaller atK
          exact before (k + 1) b (Nat.succ_lt_succ smaller) (by simpa using atK)
        · intro k b larger atK
          exact behind (k + 1) b (Nat.succ_le_succ larger) (by simpa using atK)

section Sorted
variable {cmp : α → Ordering} {list : List α}

/-- The comparison goes from less to equal to greater along the list. -/
def Ascending (cmp : α → Ordering) (list : List α) : Prop :=
  list.Pairwise fun a b => (cmp a = .gt → cmp b = .gt) ∧ (cmp b = .lt → cmp a = .lt)

section
variable (ascending : Ascending cmp list)
include ascending

theorem ascending_at {i j : Nat} {a b : α} (order : i ≤ j)
    (atI : list[i]? = some a) (atJ : list[j]? = some b) :
    (cmp a = .gt → cmp b = .gt) ∧ (cmp b = .lt → cmp a = .lt) := by
  obtain ⟨insideI, rfl⟩ := List.getElem?_eq_some_iff.mp atI
  obtain ⟨insideJ, rfl⟩ := List.getElem?_eq_some_iff.mp atJ
  rcases Nat.eq_or_lt_of_le order with same | before
  · subst same
    exact ⟨id, id⟩
  · exact pairwise_iff_getElem.mp ascending i j insideI insideJ before

theorem ascending_before {i j : Nat} {a b : α} (order : i ≤ j)
    (atI : list[i]? = some a) (atJ : list[j]? = some b) (equal : cmp b = .eq) : (cmp a).isLE := by
  have := (ascending_at ascending order atI atJ).1
  cases compared : cmp a <;> simp_all

theorem ascending_behind {i j : Nat} {a b : α} (order : i ≤ j)
    (atI : list[i]? = some a) (atJ : list[j]? = some b) (equal : cmp a = .eq) : (cmp b).isGE := by
  have := (ascending_at ascending order atI atJ).2
  cases compared : cmp b <;> simp_all

end

/-- The window of the search: all behind it is greater, and its first element is not, unless it is
    the first of the list. -/
structure Window (cmp : α → Ordering) (list : List α) (base size : Nat) : Prop where
  inside : base + size ≤ list.length
  behind : ∀ (k : Nat) (a : α), base + size ≤ k → list[k]? = some a → cmp a = .gt
  first : base = 0 ∨ ∃ a, list[base]? = some a ∧ cmp a ≠ .gt

/-- The loop narrows the window down to one element. -/
theorem search_loop_window (ascending : Ascending cmp list) : ∀ (fuel size base : Nat),
    size ≤ fuel → 1 ≤ size → Window cmp list base size →
      Window cmp list (searchLoop cmp list fuel size base) 1 := by
  intro fuel
  induction fuel with
  | zero =>
    intro size base enough nonempty
    omega
  | succ fuel ih =>
    intro size base enough nonempty window
    unfold searchLoop
    by_cases single : size ≤ 1
    · rw [if_pos single]
      have one : size = 1 := by omega
      subst one
      exact window
    · rw [if_neg single]
      dsimp only
      have inside := window.inside
      have room : base + size / 2 < list.length := by omega
      have middle : list[base + size / 2]? = some (list[base + size / 2]) :=
        List.getElem?_eq_getElem room
      rw [middle]
      apply ih
      · omega
      · omega
      · by_cases greater : cmp list[base + size / 2] = .gt
        · rw [if_pos greater]
          refine ⟨by omega, ?_, window.first⟩
          -- the half that is dropped may be one longer than what is left
          intro k a far atK
          exact (ascending_at ascending (by omega) middle atK).1 greater
        · rw [if_neg greater]
          refine ⟨by omega, ?_, .inr ⟨_, middle, greater⟩⟩
          intro k a far atK
          exact window.behind k a (by omega) atK

/-- In a sorted list the search finds an equal element, or the place between the smaller and the
    greater ones. -/
theorem binary_search_sorted (ascending : Ascending cmp list) :
    (∃ index a, binarySearchBy cmp list = .ok index ∧ list[index]? = some a ∧ cmp a = .eq) ∨
    ∃ index, binarySearchBy cmp list = .err index ∧ index ≤ list.length ∧
      (∀ (k : Nat) (a : α), k < index → list[k]? = some a → cmp a = .lt) ∧
      ∀ (k : Nat) (a : α), index ≤ k → list[k]? = some a → cmp a = .gt := by
  by_cases empty : list = []
  · subst empty
    right
    refine ⟨0, rfl, Nat.le_refl 0, ?_, ?_⟩
    · intro k a before
      omega
    · intro k a _ atK
      simp at atK
  · have nonempty : 1 ≤ list.length := length_pos_iff.mpr empty
    have whole : Window cmp list 0 list.length := by
      refine ⟨by omega, ?_, .inl rfl⟩
      intro k a far atK
      have inside := (List.getElem?_eq_some_iff.mp atK).1
      omega
    have window := search_loop_window ascending list.length list.length 0 (Nat.le_refl _) nonempty whole
    unfold binarySearchBy
    dsimp only
    generalize searchLoop cmp list list.length list.length 0 = base at window
    have inside : base < list.length := window.inside
    have there : list[base]? = some list[base] := List.getElem?_eq_getElem inside
    rw [there]
    dsimp only
    cases order : cmp list[base] with
    | eq => exact .inl ⟨base, _, rfl, there, order⟩
    | lt =>
      right
      refine ⟨base + 1, rfl, inside, ?_, window.behind⟩
      intro k a before atK
      exact (ascending_at ascending (Nat.lt_succ_iff.mp before) atK there).2 order
    | gt =>
      right
      have zero : base = 0 := by
        rcases window.first with zero | ⟨a, atBase, notGreater⟩
        · exact zero
        · rw [there] at atBase
          cases atBase
          exact absurd order notGreater
      refine ⟨base, rfl, Nat.le_of_lt inside, ?_, ?_⟩
      · intro k a before
        omega
      · intro k a far atK
        exact (ascending_at ascending far there atK).1 order

end Sorted

end Rust
