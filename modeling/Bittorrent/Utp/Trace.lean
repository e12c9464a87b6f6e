import Bittorrent.Utp.Socket

/-!
The receiving half seen through the trace. A monitor replays the recorded events on a
`ReceiveSide` of its own and keeps account of what was taken out of the buffer and returned. The
socket is shown to agree with its monitor after every call, whatever the network does, so that
results about the monitor are results about the socket.
-/
namespace UtpTrace
open Rust UtpPacket UtpReceive UtpSocket

/-- A 16-bit difference read as a step forwards or backwards. -/
def signed16 (d : UInt16) : Int := if d.toNat < 2 ^ 15 then d.toNat else (d.toNat : Int) - 2 ^ 16

/-- `held` is a data packet that was followed and not filtered out, until it is stored; `taken`
    counts the packets removed from the buffer; `position` unrolls the acknowledgement number
    along the run; `out` is what the caller was given. -/
structure Monitor where
  rx : ReceiveSide
  held : Option Packet
  taken : Nat
  position : Int
  out : Bytes

def Monitor.start (r : ReceiveSide) : Monitor := ⟨r, none, 0, 0, []⟩

/-- The new receiving half, with the position moved along. -/
def Monitor.moveTo (m : Monitor) (r : ReceiveSide) : Monitor :=
  { m with rx := r, position := m.position + signed16 (r.ackNr - m.rx.ackNr) }

def Monitor.step (m : Monitor) : Event → Monitor
  | .follow p =>
    { m.moveTo (m.rx.follow p) with
      held := if p.ty = .data ∧ 0 < p.seqNr - m.rx.lastDropped then some p else none }
  | .store p => { m.moveTo (m.rx.insertIntoBuffer p) with held := none }
  | .flush room caller =>
    match (m.rx.flushIncomingBuffer room : Outcome Unit (Bytes × ReceiveSide)) with
    | .ok (out, r) =>
      { m.moveTo r with
        taken := m.taken + (m.rx.incomingBuffer.length - r.incomingBuffer.length)
        out := if caller then m.out ++ out else m.out }
    | _ => m
  | .send _ => m

/-- The monitor after a trace, which lists the newest event first. -/
def monitorOf (r : ReceiveSide) : List Event → Monitor
  | [] => Monitor.start r
  | e :: before => (monitorOf r before).step e

/-- Every event of the trace was allowed in the state it met. -/
def AllSteps (allowed : Monitor → Event → Prop) (r : ReceiveSide) : List Event → Prop
  | [] => True
  | e :: before => allowed (monitorOf r before) e ∧ AllSteps allowed r before

variable {allowed : Monitor → Event → Prop}

/-- Packaged induction: an invariant of the monitor holds after every trace of allowed steps. -/
theorem monitor_invariant {I : Monitor → Prop}
    {r : ReceiveSide} (start : I (Monitor.start r))
    (step : ∀ m e, I m → allowed m e → I (m.step e)) :
    ∀ trace, AllSteps allowed r trace → I (monitorOf r trace) := by
  intro trace
  induction trace with
  | nil => exact fun _ => start
  | cons e before ih => exact fun steps => step _ e (ih steps.2) steps.1

/-- The receiving half a run starts from, with the acknowledgement numbers that packets already
    queued for sending carry. -/
structure Origin extends ReceiveSide where
  quoted : List UInt16

/-- The acknowledgement number was this one at some moment of the trace, or stood in a packet
    queued before it. -/
def Past (r : Origin) (trace : List Event) (ack : UInt16) : Prop :=
  ack ∈ r.quoted ∨
    ∃ before, before <:+ trace ∧ (monitorOf r.toReceiveSide before).rx.ackNr = ack

theorem past_grows {r : Origin} {trace trace' : List Event} {ack : UInt16}
    (past : Past r trace ack) (grown : trace <:+ trace') : Past r trace' ack := by
  rcases past with quoted | ⟨before, suffix, same⟩
  · exact .inl quoted
  · exact .inr ⟨before, suffix.trans grown, same⟩

/-- Every packet handed to UDP carries an acknowledgement number of an earlier moment. -/
def SendsPast (r : Origin) : List Event → Prop
  | [] => True
  | .send p :: before => Past r before p.ackNr ∧ SendsPast r before
  | _ :: before => SendsPast r before

/-- Only the packet that was just followed is stored. -/
def StoresHeld (r : ReceiveSide) : List Event → Prop
  | [] => True
  | .store p :: before => (monitorOf r before).held = some p ∧ StoresHeld r before
  | _ :: before => StoresHeld r before

/-- The steps of a trace that stores only what is held, with that fact at hand in each. -/
theorem all_steps_held {r : ReceiveSide} {trace : List Event}
    (steps : AllSteps allowed r trace) (stores : StoresHeld r trace) :
    AllSteps (fun m e => allowed m e ∧ ∀ p, e = .store p → m.held = some p) r trace := by
  induction trace with
  | nil => exact trivial
  | cons e before ih =>
    cases e with
    | store p =>
      refine ⟨⟨steps.1, ?_⟩, ih steps.2 stores.2⟩
      intro q same
      cases same
      exact stores.1
    | follow p | flush room caller | send p => exact ⟨⟨steps.1, nofun⟩, ih steps.2 stores⟩

/-- The socket agrees with the monitor of its trace, is past the handshake, and everything it
    has sent or will send acknowledges an earlier moment. `known` lists further acknowledgement
    numbers in use. -/
structure Tracked (r : Origin) (out : Bytes) (known : List UInt16) (w : World) : Prop where
  receive : (monitorOf r.toReceiveSide w.trace).rx = w.socket.toReceiveSide
  settled : w.socket.state ≠ .new ∧ w.socket.state ≠ .synSent
  queued : ∀ p ∈ w.socket.sendWindow ++ w.socket.unsentQueue, Past r w.trace p.ackNr
  sends : SendsPast r w.trace
  stores : StoresHeld r.toReceiveSide w.trace
  returned : (monitorOf r.toReceiveSide w.trace).out = out
  known : ∀ a ∈ known, Past r w.trace a

section Rules
variable {r : Origin} {out : Bytes} {known : List UInt16} {w : World}

theorem tracked_current (tracked : Tracked r out known w) : Past r w.trace w.socket.ackNr :=
  .inr ⟨w.trace, List.suffix_refl _, by rw [tracked.receive]⟩

theorem tracked_learn (tracked : Tracked r out known w) {a : UInt16} (past : Past r w.trace a) :
    Tracked r out (a :: known) w :=
  { tracked with
    known := by
      intro b member
      rcases List.mem_cons.mp member with same | old
      · exact same ▸ past
      · exact tracked.known b old }

theorem tracked_forget {a : UInt16} (tracked : Tracked r out (a :: known) w) :
    Tracked r out known w :=
  { tracked with known := (List.forall_mem_cons.mp tracked.known).2 }

theorem tracked_socket (tracked : Tracked r out known w) {s : Socket}
    (receive : s.toReceiveSide = w.socket.toReceiveSide)
    (settled : s.state ≠ .new ∧ s.state ≠ .synSent)
    (queued : ∀ p ∈ s.sendWindow ++ s.unsentQueue, Past r w.trace p.ackNr) :
    Tracked r out known { w with socket := s } :=
  ⟨by rw [tracked.receive, receive], settled, queued, tracked.sends, tracked.stores,
    tracked.returned, tracked.known⟩

theorem tracked_event (tracked : Tracked r out known w) {e : Event} {s : Socket} {out' : Bytes}
    (receive : ((monitorOf r.toReceiveSide w.trace).step e).rx = s.toReceiveSide)
    (settled : s.state ≠ .new ∧ s.state ≠ .synSent)
    (queued : ∀ p ∈ s.sendWindow ++ s.unsentQueue, Past r w.trace p.ackNr)
    (returned : ((monitorOf r.toReceiveSide w.trace).step e).out = out')
    (sends : SendsPast r (e :: w.trace)) (stores : StoresHeld r.toReceiveSide (e :: w.trace)) :
    Tracked r out' known { w with socket := s, trace := e :: w.trace } := by
  have grown : w.trace <:+ e :: w.trace := List.suffix_cons _ _
  exact ⟨receive, settled, fun p member => past_grows (queued p member) grown, sends, stores,
    returned, fun a member => past_grows (tracked.known a member) grown⟩

end Rules

end UtpTrace
