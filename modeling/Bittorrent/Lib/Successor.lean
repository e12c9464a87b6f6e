import Mathlib.Data.Nat.Notation

/-!
Walking through a finite set by a successor function. If the successor of an element is the next
one by a numeric key, the walk lists what lies ahead, each element once and in the order of keys.
-/
namespace Successor

variable {α : Type} {next : α → Option α} {key : α → Nat} {Valid : α → Prop} {start : α}
  {bound : Nat}

/-- What is visited behind `c`, with this many steps at most. -/
def after (next : α → Option α) : Nat → α → List α
  | 0, _ => []
  | fuel + 1, c =>
    match next c with
    | none => []
    | some d => d :: after next fuel d

/-- The walk starts at `start`, which need not be valid itself, and goes through the valid
    elements by their keys. -/
structure Enumerates (next : α → Option α) (key : α → Nat) (Valid : α → Prop) (start : α)
    (bound : Nat) : Prop where
  step : ∀ c d, (c = start ∨ Valid c) → next c = some d →
    Valid d ∧ key c < key d ∧ ∀ e, Valid e → key c < key e → key d ≤ key e
  stop : ∀ c, (c = start ∨ Valid c) → next c = none → ∀ e, Valid e → key e ≤ key c
  injective : ∀ d e, Valid d → Valid e → key d = key e → d = e
  bounded : ∀ e, Valid e → key e ≤ bound

theorem after_length (fuel : Nat) : ∀ c, (after next fuel c).length ≤ fuel := by
  induction fuel with
  | zero => exact fun _ => Nat.le_refl 0
  | succ fuel ih =>
    intro c
    unfold after
    cases next c with
    | none => exact Nat.zero_le _
    | some d => exact Nat.succ_le_succ (ih d)

section Walk
variable (walk : Enumerates next key Valid start bound)
include walk

theorem after_stable (fuel : Nat) : ∀ c, (c = start ∨ Valid c) → bound ≤ fuel + key c →
    after next (fuel + 1) c = after next fuel c := by
  induction fuel with
  | zero =>
    intro c known enough
    unfold after
    cases following : next c with
    | none => rfl
    | some d =>
      obtain ⟨valid, larger, _⟩ := walk.step c d known following
      have small := walk.bounded d valid
      omega
  | succ fuel ih =>
    intro c known enough
    rw [after, after]
    cases following : next c with
    | none => rfl
    | some d =>
      obtain ⟨valid, larger, _⟩ := walk.step c d known following
      exact congrArg (d :: ·) (ih d (.inr valid) (by omega))

theorem after_step {c d : α} (known : c = start ∨ Valid c) (following : next c = some d) :
    after next bound c = d :: after next bound d := by
  rw [← after_stable walk bound c known (Nat.le_add_right _ _), after, following]

omit walk in
theorem after_stop {c : α} (last : next c = none) : after next bound c = [] := by
  cases bound with
  | zero => rfl
  | succ n => rw [after, last]

theorem mem_after (fuel : Nat) : ∀ c, (c = start ∨ Valid c) → bound ≤ fuel + key c →
    ∀ e, e ∈ after next fuel c ↔ Valid e ∧ key c < key e := by
  induction fuel with
  | zero =>
    intro c _ enough e
    constructor
    · intro none
      cases none
    · intro ahead
      have small := walk.bounded e ahead.1
      omega
  | succ fuel ih =>
    intro c known enough e
    rw [after]
    cases following : next c with
    | none =>
      constructor
      · intro none
        cases none
      · intro ahead
        have last := walk.stop c known following e ahead.1
        omega
    | some d =>
      obtain ⟨valid, larger, nearest⟩ := walk.step c d known following
      have rest := ih d (.inr valid) (by omega) e
      rw [List.mem_cons, rest]
      constructor
      · intro found
        rcases found with here | behind
        · exact ⟨here ▸ valid, here ▸ larger⟩
        · exact ⟨behind.1, by omega⟩
      · intro ahead
        rcases Nat.lt_or_eq_of_le (nearest e ahead.1 ahead.2) with behind | same
        · exact .inr ⟨ahead.1, behind⟩
        · exact .inl (walk.injective e d ahead.1 valid same.symm)

theorem after_sorted (fuel : Nat) : ∀ c, (c = start ∨ Valid c) → bound ≤ fuel + key c →
    (c :: after next fuel c).Pairwise fun d e => key d < key e := by
  induction fuel with
  | zero =>
    intro c _ _
    exact List.pairwise_singleton _ _
  | succ fuel ih =>
    intro c known enough
    apply List.pairwise_cons.mpr
    constructor
    · intro e member
      exact ((mem_after walk (fuel + 1) c known enough e).mp member).2
    · rw [after]
      cases following : next c with
      | none => exact .nil
      | some d =>
        obtain ⟨valid, larger, _⟩ := walk.step c d known following
        exact ih d (.inr valid) (by omega)

end Walk

end Successor
