import Bittorrent.Lib.Clock

/-!
What a process meets outside its own memory: the two clocks, random numbers, and channels whose
receiver may be gone. Everything still to come is given in advance as a sequence, and what was
handed to a channel is logged.
-/
namespace Rust
open Rust.Action

abbrev Channel := Nat

/-- `utc` are the readings of the calendar clock in nanoseconds, `accepts` says for each item sent
    whether its receiver is still there. -/
structure World (ν : Type) where
  clock : Clock
  utc : Nat → Int
  random : Nat → Nat
  accepts : Nat → Bool
  log : List (Channel × ν)

section Operations
variable {ν ε α : Type}

def timed (m : Timed ε α) : Action (World ν) ε α :=
  Action.zoom World.clock (fun w clock => { w with clock := clock }) m

def utcNow : Action (World ν) ε Int := fun w =>
  (.ok (w.utc 0), { w with utc := fun k => w.utc (k + 1) })

def drawNat : Action (World ν) ε Nat := fun w =>
  (.ok (w.random 0), { w with random := fun k => w.random (k + 1) })

/-- Whether the receiver took the item. -/
def World.send (channel : Channel) (item : ν) : Action (World ν) ε Bool := fun w =>
  (.ok (w.accepts 0), { w with
    accepts := fun k => w.accepts (k + 1)
    log := if w.accepts 0 then w.log ++ [(channel, item)] else w.log })

/-- What is known of the world: it is this time or later, the clock may be known to stand still,
    and it may be known that no receiver is left. -/
structure Outside where
  since : Instant
  stopped : Prop
  deaf : Prop

/-- Any world whose clock has come to this time. -/
def Outside.after (since : Instant) : Outside := ⟨since, False, False⟩

structure Reached (o : Outside) (w : World ν) : Prop where
  steady : Steady o.since w.clock
  still : o.stopped → w.clock = fixed o.since
  silent : o.deaf → ∀ k, w.accepts k = false

variable {E : Prop} {o : Outside}

/-- On a clock that stands still the code does what it does there. -/
theorem runs_timed {m : Timed ε α} {Q : α → Instant → Prop} (main : Timely o.since m Q) :
    Gives ε E (Reached o) (timed m : Action (World ν) ε α) fun a => (∃ time, o.since ≤ time ∧ Q a time) ∧
        (o.stopped → (m (fixed o.since)).1 = .ok a) := by
  intro w reached
  obtain ⟨a, count, time, ended, later, before, value⟩ := main w.clock reached.steady
  have steady : Steady o.since (advance count w.clock) :=
    steady_advance reached.steady (steady_reading reached.steady count)
  have still : o.stopped → advance count w.clock = fixed o.since := by
    intro stopped
    rw [reached.still stopped, advance_fixed]
  have same : o.stopped → (m (fixed o.since)).1 = .ok a := by
    intro stopped
    rw [← reached.still stopped, ended]
  refine .inl ⟨a, { w with clock := advance count w.clock }, ?_, ⟨⟨time, later, value⟩, same⟩,
    steady, still, reached.silent⟩
  unfold timed Action.zoom
  rw [ended]

end Operations

end Rust
