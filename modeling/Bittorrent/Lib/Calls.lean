import Bittorrent.Lib.Action

/-!
Histories of calls: an operation is called again and again on a value it hands on. The
surroundings each call meets are arbitrary, since other code runs between two calls.
-/
namespace Rust
open List

variable {ι σ ε α γ : Type}

/-- A call that returned: what was asked, the value it was made on, the surroundings it met and left,
    and the answer. -/
structure Visit (ι γ σ α : Type) where
  asked : ι
  on : γ
  met : σ
  answer : α
  left : σ

inductive Calls (op : ι → γ → Action σ ε (α × γ)) (start : γ) : List (Visit ι γ σ α) → γ → Prop where
  | none : Calls op start [] start
  | next {history : List (Visit ι γ σ α)} {g' : γ} {visit : Visit ι γ σ α}
      (before : Calls op start history visit.on)
      (returned : op visit.asked visit.on visit.met = (.ok (visit.answer, g'), visit.left)) :
      Calls op start (history ++ [visit]) g'

variable {op : ι → γ → Action σ ε (α × γ)} {start g : γ} {history : List (Visit ι γ σ α)}

/-- What holds before the first call and is kept by each one holds after every history. -/
theorem calls_invariant {I : List (Visit ι γ σ α) → γ → Prop} (first : I [] start)
    (step : ∀ history visit g', I history visit.on →
      op visit.asked visit.on visit.met = (.ok (visit.answer, g'), visit.left) →
      I (history ++ [visit]) g')
    (calls : Calls op start history g) : I history g := by
  induction calls with
  | none => exact first
  | next _ returned ih => exact step _ _ _ ih returned

theorem calls_more {visit : Visit ι γ σ α} {middle : γ} (before : Calls op start history middle)
    (on : visit.on = middle)
    (returned : op visit.asked middle visit.met = (.ok (visit.answer, g), visit.left)) :
    Calls op start (history ++ [visit]) g := by
  subst on
  exact .next before returned

theorem calls_append {earlier later : List (Visit ι γ σ α)} {middle : γ}
    (first : Calls op start earlier middle) (second : Calls op middle later g) :
    Calls op start (earlier ++ later) g := by
  induction second with
  | none => rwa [append_nil]
  | next _ returned ih =>
    rw [← append_assoc]
    exact .next ih returned

theorem calls_split (calls : Calls op start history g) : ∀ earlier later,
    history = earlier ++ later →
      ∃ middle, Calls op start earlier middle ∧ Calls op middle later g := by
  induction calls with
  | none =>
    intro earlier later cut
    obtain ⟨noneBefore, noneAfter⟩ := append_eq_nil_iff.mp cut.symm
    subst noneBefore noneAfter
    exact ⟨start, .none, .none⟩
  | next before returned ih =>
    intro earlier later cut
    rcases eq_nil_or_concat later with rfl | ⟨rest, last, rfl⟩
    · rw [append_nil] at cut
      subst cut
      exact ⟨_, .next before returned, .none⟩
    · rw [concat_eq_append, ← append_assoc] at cut
      obtain ⟨same, sameLast⟩ := append_inj' cut rfl
      cases sameLast
      obtain ⟨middle, first, second⟩ := ih earlier rest same
      refine ⟨middle, first, ?_⟩
      rw [concat_eq_append]
      exact .next second returned

theorem calls_last {visit : Visit ι γ σ α} (calls : Calls op start (history ++ [visit]) g) :
    Calls op start history visit.on ∧
      op visit.asked visit.on visit.met = (.ok (visit.answer, g), visit.left) := by
  generalize whole : history ++ [visit] = list at calls
  cases calls with
  | none => simp at whole
  | next before returned =>
    obtain ⟨same, sameLast⟩ := append_inj' whole rfl
    subst same
    cases sameLast
    exact ⟨before, returned⟩

end Rust
