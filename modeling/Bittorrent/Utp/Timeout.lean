import Mathlib.Data.List.Induction
import Bittorrent.Utp.Walk

/-!
The retransmission timeout and the two estimates it comes from. A measured delay keeps all three
within their bounds, but a read that times out doubles the timeout and does not look at its limit.
-/
namespace UtpTimeout
open Rust Action UtpPacket UtpSocket UtpWalk List

/-- What changes the estimates: a delay in milliseconds, or a read that timed out. -/
inductive Tick where
  | measured (delay : Nat)
  | timedOut

def Tick.run : Tick → Sock Unit
  | .measured delay => updateCongestionTimeout delay
  | .timedOut => handleReceiveTimeout

def after (w : World) (ticks : List Tick) : World := ticks.foldl (fun w tick => (tick.run w).2) w

/-- The longest delay that `handle_state_packet` can measure. -/
def maxDelay : Nat := 2 ^ 32 / 1000

structure Bounded (w : World) : Prop where
  rtt : 0 ≤ w.socket.rtt
  variance : 0 ≤ w.socket.rttVariance
  fits : ∀ delay : Nat, delay ≤ maxDelay → (updateCongestionTimeout delay w).1 = .ok ()
  least : minCongestionTimeout ≤ w.socket.congestionTimeout
  most : w.socket.congestionTimeout ≤ maxCongestionTimeout

section Steps
variable {w : World}

end Steps

section Runs
variable {w : World}

def fresh : World := ⟨fromRawParts (.v4 10 0 0 1 6881) 1 0, [], [], [], [], []⟩

end Runs

end UtpTimeout
