import Bittorrent.Lib.Action

/-!
The monotonic clock. An `Instant` counts nanoseconds from the earliest instant the platform can
represent; there is no last one. A `Clock` is the sequence of readings still to come, one for
every call of `Instant::now()`, so that no two readings need agree; `fixed t` is the clock that
stands still. `Clocked` is for code that returns whatever the clock shows, `Timely` for code that
needs a clock that does not run backwards.
-/
namespace Rust

abbrev Instant := Nat

abbrev Clock := Nat → Instant

abbrev Timed (ε : Type) := Action Clock ε

variable {ε α β : Type}

def fromSecs (n : Nat) : Nat := n * 1000000000

def now : Timed ε Instant := fun clock => (.ok (clock 0), fun k => clock (k + 1))

/-- `instant - duration`, which panics below the earliest instant. -/
def instantSub (t : Instant) (d : Nat) : Timed ε Instant :=
  if d ≤ t then pure (t - d) else Action.abort

def fixed (t : Instant) : Clock := fun _ => t

/-- The clock after a number of readings. -/
def advance (count : Nat) (clock : Clock) : Clock := fun k => clock (k + count)

theorem advance_advance (m n : Nat) (clock : Clock) :
    advance n (advance m clock) = advance (m + n) clock := by
  funext k
  change clock (k + n + m) = clock (k + (m + n))
  congr 1
  omega

theorem advance_fixed (count : Nat) (t : Instant) : advance count (fixed t) = fixed t := rfl

section Clocked
variable {A : α → Prop} {B : β → Prop}

/-- Whatever the clock shows, the code returns a value with this property. -/
def Clocked (A : α → Prop) (m : Timed ε α) : Prop :=
  ∀ clock, ∃ a count, m clock = (.ok a, advance count clock) ∧ A a

theorem clocked_pure {a : α} (value : A a) : Clocked A (pure a : Timed ε α) :=
  fun _ => ⟨a, 0, rfl, value⟩

theorem clocked_now : Clocked (fun _ => True) (now : Timed ε Instant) :=
  fun clock => ⟨clock 0, 1, rfl, trivial⟩

theorem clocked_bind {m : Timed ε α} {f : α → Timed ε β} (first : Clocked A m)
    (rest : ∀ a, A a → Clocked B (f a)) : Clocked B (m >>= f) := by
  intro clock
  obtain ⟨a, count, ended, value⟩ := first clock
  obtain ⟨b, more, ended', value'⟩ := rest a value (advance count clock)
  refine ⟨b, count + more, ?_, value'⟩
  rw [Action.bind_run ended, ended', advance_advance]

theorem clocked_weaken {A' : α → Prop} {m : Timed ε α} (main : Clocked A m)
    (post : ∀ a, A a → A' a) : Clocked A' m := by
  intro clock
  obtain ⟨a, count, ended, value⟩ := main clock
  exact ⟨a, count, ended, post a value⟩

end Clocked

section Timely

/-- The readings start at this time or later and never go back. -/
def Steady (since : Instant) (clock : Clock) : Prop :=
  since ≤ clock 0 ∧ ∀ k, clock k ≤ clock (k + 1)

theorem steady_fixed (t : Instant) : Steady t (fixed t) := ⟨Nat.le_refl t, fun _ => Nat.le_refl t⟩

theorem steady_reading {since : Instant} {clock : Clock} (steady : Steady since clock) (k : Nat) :
    since ≤ clock k := by
  induction k with
  | zero => exact steady.1
  | succ k ih => exact Nat.le_trans ih (steady.2 k)

theorem steady_advance {since now : Instant} {clock : Clock} {count : Nat}
    (steady : Steady since clock) (later : now ≤ clock count) :
    Steady now (advance count clock) := by
  constructor
  · simpa [advance] using later
  · intro k
    have step := steady.2 (k + count)
    have shape : k + 1 + count = k + count + 1 := by omega
    simpa [advance, shape] using step

/-- Started at a time, the code returns a value at a later time, and the two satisfy `Q`. -/
def Timely (since : Instant) (m : Timed ε α) (Q : α → Instant → Prop) : Prop :=
  ∀ clock, Steady since clock → ∃ a count time, m clock = (.ok a, advance count clock) ∧
    since ≤ time ∧ time ≤ clock count ∧ Q a time

variable {since : Instant} {Q : α → Instant → Prop} {R : β → Instant → Prop}

theorem timely_pure {a : α} (value : Q a since) : Timely since (pure a : Timed ε α) Q :=
  fun _ steady => ⟨a, 0, since, rfl, Nat.le_refl _, steady.1, value⟩

theorem timely_now : Timely since (now : Timed ε Instant) fun t time => t = time :=
  fun clock steady => ⟨clock 0, 1, clock 0, rfl, steady.1, steady.2 0, rfl⟩

variable {m : Timed ε α}

theorem timely_bind {f : α → Timed ε β} (first : Timely since m Q)
    (rest : ∀ a time, since ≤ time → Q a time → Timely time (f a) R) :
    Timely since (m >>= f) R := by
  intro clock steady
  obtain ⟨a, count, time, ended, later, before, value⟩ := first clock steady
  obtain ⟨b, more, time', ended', later', before', value'⟩ :=
    rest a time later value (advance count clock) (steady_advance steady before)
  refine ⟨b, count + more, time', ?_, Nat.le_trans later later', ?_, value'⟩
  · rw [Action.bind_run ended, ended', advance_advance]
  · rw [Nat.add_comm]
    exact before'

theorem timely_weaken {Q' : α → Instant → Prop} (main : Timely since m Q)
    (post : ∀ a time, since ≤ time → Q a time → Q' a time) : Timely since m Q' := by
  intro clock steady
  obtain ⟨a, count, time, ended, later, before, value⟩ := main clock steady
  exact ⟨a, count, time, ended, later, before, post a time later value⟩

theorem timely_fixed {t : Instant} (main : Timely t m Q) :
    ∃ a, m (fixed t) = (.ok a, fixed t) ∧ Q a t := by
  obtain ⟨a, count, time, ended, later, before, value⟩ := main (fixed t) (steady_fixed t)
  have same : time = t := Nat.le_antisymm before later
  subst same
  exact ⟨a, ended, value⟩

end Timely

end Rust
