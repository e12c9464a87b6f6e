import Mathlib.Algebra.Group.Int.Defs
import Mathlib.Algebra.GroupWithZero.Nat

/-!
Results of Rust functions. `ok` and `err` are the two variants of `Result`, `panic` is an
unwinding thread, and `unfinished` marks a loop that was cut off by its fuel. A development
states separately that enough fuel is given, so `unfinished` never stands for a returned value.
-/
namespace Rust

inductive Outcome (ε α : Type) where
  | ok : α → Outcome ε α
  | err : ε → Outcome ε α
  | panic : Outcome ε α
  | unfinished : Outcome ε α
  deriving DecidableEq, Repr

variable {ε δ α β γ : Type}

namespace Outcome

def bind (m : Outcome ε α) (f : α → Outcome ε β) : Outcome ε β :=
  match m with
  | ok a => f a
  | err e => err e
  | panic => panic
  | unfinished => unfinished

instance : Monad (Outcome ε) where
  pure := ok
  bind := bind

/-- `Result::unwrap`: an error becomes a panic, whatever it carries. -/
def unwrap (m : Outcome ε α) : Outcome δ α :=
  match m with
  | ok a => ok a
  | err _ => panic
  | panic => panic
  | unfinished => unfinished

variable (a : α)

@[simp] theorem pure_eq : (pure a : Outcome ε α) = ok a := rfl
variable (f : α → Outcome ε β)

@[simp] theorem ok_bind : (ok a >>= f) = f a := rfl
@[simp] theorem err_bind (e : ε) (f : α → Outcome ε β) : (err e >>= f) = err e := rfl
@[simp] theorem panic_bind : (panic >>= f) = panic := rfl
@[simp] theorem unfinished_bind : (unfinished >>= f) = unfinished := rfl

@[simp] theorem unwrap_ok : (ok a : Outcome ε α).unwrap (δ := δ) = ok a := rfl
@[simp] theorem unwrap_err (e : ε) : (err e : Outcome ε α).unwrap (δ := δ) = panic := rfl
@[simp] theorem unwrap_panic : (panic : Outcome ε α).unwrap (δ := δ) = panic := rfl
@[simp] theorem unwrap_unfinished : (unfinished : Outcome ε α).unwrap (δ := δ) = unfinished := rfl

variable {m : Outcome ε α} {f : α → Outcome ε β}

theorem bind_eq_ok {b : β} : (m >>= f) = ok b ↔ ∃ a, m = ok a ∧ f a = ok b := by
  cases m <;> simp

theorem bind_eq_panic : (m >>= f) = panic ↔ m = panic ∨ ∃ a, m = ok a ∧ f a = panic := by
  cases m <;> simp

/-- What is returned meets a condition, and something is returned where this is asked for. -/
def Ends (total : Prop) (m : Outcome ε α) (Q : α → Prop) : Prop :=
  (total → ∃ a, m = ok a) ∧ ∀ a, m = ok a → Q a

theorem ends_ok {total : Prop} {Q : α → Prop} {a : α} (holds : Q a) :
    Ends total (ok a : Outcome ε α) Q :=
  ⟨fun _ => ⟨a, rfl⟩, fun _ same => ok.inj same ▸ holds⟩

theorem ends_bind {total : Prop} {Q : α → Prop} {R : β → Prop} (first : Ends total m Q)
    (rest : ∀ a, Q a → Ends total (f a) R) : Ends total (m >>= f) R := by
  constructor
  · intro asked
    obtain ⟨a, same⟩ := first.1 asked
    rw [same]
    exact (rest a (first.2 a same)).1 asked
  · intro b ended
    obtain ⟨a, same, ended⟩ := bind_eq_ok.mp ended
    exact (rest a (first.2 a same)).2 b ended

theorem bind_ne_unfinished (first : m ≠ unfinished) (rest : ∀ a, m = ok a → f a ≠ unfinished) :
    (m >>= f) ≠ unfinished := by
  cases m with
  | ok a => exact rest a rfl
  | err e => simp
  | panic => simp
  | unfinished => exact absurd rfl first

theorem bind_ne_err {e : ε} (first : m ≠ err e) (rest : ∀ a, m = ok a → f a ≠ err e) :
    (m >>= f) ≠ err e := by
  cases m with
  | ok a => exact rest a rfl
  | err d => simpa using first
  | panic => simp
  | unfinished => simp

variable {m' : Outcome ε α}

theorem bind_congr {f' : α → Outcome ε β} (first : m = m') (rest : ∀ a, m = ok a → f a = f' a) :
    (m >>= f) = (m' >>= f') := by
  subst first
  cases m with
  | ok a => exact rest a rfl
  | err e => rfl
  | panic => rfl
  | unfinished => rfl

theorem unwrap_eq_ok {a : α} : m.unwrap (δ := δ) = ok a ↔ m = ok a := by
  cases m <;> simp

theorem unwrap_eq_panic (finished : m ≠ unfinished) (fails : ∀ a, m ≠ ok a) :
    m.unwrap (δ := δ) = panic := by
  cases m with
  | ok a => exact absurd rfl (fails a)
  | err e => rfl
  | panic => rfl
  | unfinished => exact absurd rfl finished

theorem unwrap_ne_unfinished (inner : m ≠ unfinished) : m.unwrap (δ := δ) ≠ unfinished := by
  cases m with
  | ok a => simp
  | err e => simp
  | panic => simp
  | unfinished => exact absurd rfl inner

/-- The function returned, with a value or with an error. -/
def Settled (m : Outcome ε α) : Prop := (∃ a, m = ok a) ∨ ∃ e, m = err e

theorem settled_ok : Settled (ok a : Outcome ε α) := .inl ⟨a, rfl⟩

theorem settled_err (e : ε) : Settled (err e : Outcome ε α) := .inr ⟨e, rfl⟩

theorem settled_bind (first : Settled m) (rest : ∀ a, Settled (f a)) : Settled (m >>= f) := by
  rcases first with ⟨a, same⟩ | ⟨e, same⟩
  · rw [same]
    exact rest a
  · rw [same]
    exact settled_err e

theorem settled_map {g : α → β} (first : Settled m) : Settled (do return g (← m)) :=
  settled_bind first fun _ => settled_ok _

theorem settled_ite {c : Prop} [Decidable c] {n : Outcome ε α} (yes : c → Settled m)
    (no : ¬ c → Settled n) : Settled (if c then m else n) :=
  iteInduction yes no

theorem settled_bind_iff (rest : ∀ a, m = ok a → Settled (f a)) :
    Settled (m >>= f) ↔ Settled m := by
  cases m with
  | ok a => exact ⟨fun _ => settled_ok a, fun _ => rest a rfl⟩
  | err e => exact ⟨fun _ => settled_err e, fun _ => settled_err e⟩
  | panic | unfinished => simp [Settled]

/-- The same result, unless the left side was cut off. More fuel can only move a computation up
    in this order. -/
def Approx (m m' : Outcome ε α) : Prop := m = unfinished ∨ m = m'

theorem approx_refl (m : Outcome ε α) : Approx m m := .inr rfl

theorem unfinished_approx (m : Outcome ε α) : Approx unfinished m := .inl rfl

theorem bind_approx {f' : α → Outcome ε β} (first : Approx m m') (rest : ∀ a, Approx (f a) (f' a)) :
    Approx (m >>= f) (m' >>= f') := by
  rcases first with cut | same
  · subst cut
    exact unfinished_approx _
  · subst same
    cases m with
    | ok a => exact rest a
    | err e | panic | unfinished => exact approx_refl _

theorem unwrap_approx (inner : Approx m m') : Approx (m.unwrap (δ := δ)) m'.unwrap := by
  rcases inner with cut | same
  · subst cut
    exact unfinished_approx _
  · subst same
    exact approx_refl _

theorem ite_approx {c : Prop} [Decidable c] {n n' : Outcome ε α} (yes : Approx m m')
    (no : Approx n n') :
    Approx (if c then m else n) (if c then m' else n') := by
  by_cases holds : c
  · simpa [holds] using yes
  · simpa [holds] using no

theorem approx_trans {m'' : Outcome ε α} (low : Approx m m') (high : Approx m' m'') :
    Approx m m'' := by
  rcases low with cut | same
  · exact .inl cut
  · exact same ▸ high

/-- A family that only moves up is constant from the first point where it is not cut off. -/
theorem approx_stable (run : Nat → Outcome ε α) (step : ∀ n, Approx (run n) (run (n + 1)))
    {n k : Nat} (done : run n ≠ unfinished) (more : n ≤ k) : run k = run n := by
  have up : Approx (run n) (run k) := by
    induction more with
    | refl => exact approx_refl _
    | step _ ih => exact approx_trans ih (step _)
  rcases up with cut | same
  · exact absurd cut done
  · exact same.symm

end Outcome

def accepted : Outcome ε α → Option α
  | .ok a => some a
  | _ => none

theorem accepted_ok {m : Outcome ε α} {a : α} (value : m = .ok a) : accepted m = some a := by
  rw [value]
  rfl

theorem ok_of_accepted {m : Outcome ε α} {a : α} (same : accepted m = some a) : m = .ok a := by
  cases m with
  | ok b =>
    cases same
    rfl
  | err e | panic | unfinished => cases same

end Rust
