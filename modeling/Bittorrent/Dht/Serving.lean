import Bittorrent.Dht.Handler

/-!
What every handler in use satisfies, and that each of its tasks returns and keeps it. A task may
panic only where there is an excuse for it: when it has to answer clients that wait for the
bootstrap, whose receivers may be gone.
-/
namespace DhtServing
open Rust Action DhtNode DhtTable DhtPlacement DhtTransaction DhtWorker DhtBootstrap DhtRefresh
  DhtLookup DhtHandler

def soundAction : TableAction → Prop
  | .lookup _ => True
  | .refresh refresh => refresh.currRefreshBucket ≤ maxBuckets
  | .bootstrap bootstrap _ => Sweep bootstrap

def soundFuture : PostBootstrapAction → Prop
  | .lookup .. => True
  | .refresh refresh _ => refresh.currRefreshBucket ≤ maxBuckets

abbrev Any {α : Type} : α → Prop := fun _ => True

/-- A handler at work, with a property of its table, one of its actions, and the clients that
    wait for the bootstrap. -/
structure Live (o : Outside) (T : RoutingTable → Prop)
    (A : List (ActionID × TableAction) → Prop) (w : List Channel) (h : Handler) : Prop where
  ready : Ready o h.shared
  table : T h.shared.table
  actions : A h.tableActions
  sound : ∀ entry ∈ h.tableActions, soundAction entry.2
  future : ∀ action ∈ h.futureActions, soundFuture action
  waits : h.statusTx = w

/-- A handler at work for which nobody waits, unless there is an excuse. -/
def Alive (E : Prop) (o : Outside) (h : Handler) : Prop :=
  ∃ w, (E ∨ w = []) ∧ Live o Any Any w h

variable {ε α : Type} {E : Prop} {o : Outside} {T : RoutingTable → Prop}
  {A : List (ActionID × TableAction) → Prop} {w : List Channel}

abbrev Serves (ε : Type) {α : Type} (E : Prop) (o : Outside) (T : RoutingTable → Prop)
    (A : List (ActionID × TableAction) → Prop) (w : List Channel) (m : Action Handler ε α) : Prop :=
  Runs E (Live o T A w) m fun _ h => Alive E o h

section Basics
variable {m : Action Shared ε α} {F : α → Prop}

/-- The change leaves alone what a handler at work is asked about. -/
def Apart (change : Handler → Handler) : Prop :=
  ∀ h, (change h).shared = h.shared ∧ (change h).tableActions = h.tableActions ∧
    (change h).futureActions = h.futureActions ∧ (change h).statusTx = h.statusTx

end Basics

section Tasks
variable (excused : E ∨ w = [])
include excused

variable (transId : TransactionID)

end Tasks

end DhtServing
