import Bittorrent.Lib.Clock
import Bittorrent.Lib.Net
import Bittorrent.Util.ShaHash

/-!
Nodes of the DHT and their status. The status depends on the clock, which every call reads anew.
-/
namespace DhtNode
open Rust UtilSha

abbrev NodeId := ShaHash
abbrev InfoHash := ShaHash

inductive NodeStatus where
  | bad | questionable | good
  deriving DecidableEq, Repr

def NodeStatus.rank : NodeStatus → Nat
  | .bad => 0
  | .questionable => 1
  | .good => 2

structure NodeHandle where
  id : NodeId
  addr : SocketAddr
  deriving DecidableEq, Repr

structure Node where
  handle : NodeHandle
  lastRequest : Option Instant
  lastResponse : Option Instant
  lastLocalRequest : Option Instant
  refreshRequests : Nat
  deriving DecidableEq, Repr

def maxLastSeenMins : Nat := 15

def maxRefreshRequests : Nat := 2

namespace Node
variable {ε : Type}

def id (n : Node) : NodeId := n.handle.id

def addr (n : Node) : SocketAddr := n.handle.addr

/-- A node that has responded at this time and nothing else. -/
def responded (id : NodeId) (addr : SocketAddr) (time : Option Instant) : Node where
  handle := ⟨id, addr⟩
  lastRequest := none
  lastResponse := time
  lastLocalRequest := none
  refreshRequests := 0

def asGood (id : NodeId) (addr : SocketAddr) : Timed ε Node := do
  let t ← now
  pure (responded id addr (some t))

/-- `checked_sub(..).unwrap()` on the time of the response. -/
def asQuestionable (id : NodeId) (addr : SocketAddr) : Timed ε Node := do
  let t ← now
  let past ← instantSub t (fromSecs (maxLastSeenMins * 60))
  pure (responded id addr (some past))

def asBad (id : NodeId) (addr : SocketAddr) : Node := responded id addr none

/-- `status` at one reading of the clock. Differences of instants saturate. -/
def statusAt (n : Node) (t : Instant) : NodeStatus :=
  match n.lastResponse with
  | none => .bad
  | some response =>
    if t - response < fromSecs (maxLastSeenMins * 60) then .good
    else if maxRefreshRequests ≤ n.refreshRequests then .bad
    else match n.lastRequest with
      | some request =>
        if t - request < fromSecs (maxLastSeenMins * 60) then .good else .questionable
      | none => .questionable

def status (n : Node) : Timed ε NodeStatus := do
  let t ← now
  pure (n.statusAt t)

def isPingableAt (n : Node) (t : Instant) : Bool := n.statusAt t ≠ .bad

def isPingable (n : Node) : Timed ε Bool := do
  let s ← n.status
  pure (s = .good ∨ s = .questionable)

def localRequest (n : Node) : Timed ε Node := do
  let t ← now
  let n := { n with lastLocalRequest := some t }
  let s ← n.status
  if s ≠ .good then
    pure { n with refreshRequests := min (n.refreshRequests + 1) usizeMax }
  else
    pure n

def remoteRequest (n : Node) : Timed ε Node := do
  let t ← now
  pure { n with lastRequest := some t }

def recentlyRequestedFrom (n : Node) : Timed ε Bool :=
  match n.lastLocalRequest with
  | some time => do
    let t ← now
    let past ← instantSub t (fromSecs 30)
    pure (past < time)
  | none => pure false

/-- Id, address and port; an IPv6 address panics. -/
def encode (n : Node) : Outcome ε Bytes :=
  match n.addr with
  | .v4 a b c d port =>
    .ok (n.id.asRef ++ [a, b, c, d, (port >>> 8).toUInt8, port.toUInt8])
  | .v6 .. => .panic

/-- The node has responded at some time, so that it can be good or questionable. -/
def live (n : Node) : Bool := n.lastResponse.isSome

theorem pingable_live {n : Node} {t : Instant} (pingable : n.statusAt t ≠ .bad) : n.live := by
  unfold statusAt at pingable
  unfold live
  cases response : n.lastResponse with
  | none => simp [response] at pingable
  | some r => rfl

/-- A node that has turned bad stays so until it answers. -/
theorem pingable_before {n : Node} {t t' : Instant} (pingable : n.isPingableAt t)
    (before : t' ≤ t) : n.isPingableAt t' := by
  unfold isPingableAt at pingable ⊢
  rw [decide_eq_true_eq] at pingable ⊢
  unfold statusAt at pingable ⊢
  cases response : n.lastResponse with
  | none => simp [response] at pingable
  | some r =>
    simp only [response] at pingable ⊢
    by_cases recent : t' - r < fromSecs (maxLastSeenMins * 60)
    · simp [recent]
    · have old : ¬ t - r < fromSecs (maxLastSeenMins * 60) := fun less =>
        recent (Nat.lt_of_le_of_lt (Nat.sub_le_sub_right before r) less)
      rw [if_neg old] at pingable
      rw [if_neg recent]
      by_cases asked : maxRefreshRequests ≤ n.refreshRequests
      · rw [if_pos asked] at pingable
        exact absurd rfl pingable
      · rw [if_neg asked]
        cases n.lastRequest with
        | none => simp
        | some request =>
          dsimp only
          split <;> simp

theorem timely_status {since : Instant} (n : Node) :
    Timely since (n.status : Timed ε NodeStatus) fun s time => s = n.statusAt time := by
  apply timely_bind timely_now
  intro t time _ same
  apply timely_pure
  rw [same]

theorem clocked_status (n : Node) :
    Clocked (fun s => s ≠ .bad → n.live) (n.status : Timed ε NodeStatus) := by
  apply clocked_bind clocked_now
  intro t _
  exact clocked_pure pingable_live

theorem timely_is_pingable {since : Instant} (n : Node) :
    Timely since (n.isPingable : Timed ε Bool) fun answer time => answer = n.isPingableAt time := by
  unfold isPingable isPingableAt
  apply timely_bind (timely_status n)
  intro s time _ same
  apply timely_pure
  rw [same]
  cases n.statusAt time <;> rfl

end Node

end DhtNode
