import Bittorrent.Utp.Window

/-!
The two states in which a connection has ended. A Reset that comes to a closed socket, and the second
half of `close`, which does not look at the state again, are all that can leave them.
-/
namespace UtpFinal
open Rust UtpPacket UtpSocket UtpStream UtpWalk UtpFrame UtpWindow

/-- `close` behind its `flush`. -/
def finishClose (ops : FloatOps) (fuel : Nat) : Sock Unit := do
  let now ← nowMicroseconds
  udpSend (finPacket (← sock) now)
  update fun s => { s with state := .finSent }
  closeLoop ops fuel fuel

theorem close_closed (ops : FloatOps) (fuel : Nat) {w : World} (closed : w.socket.state = .closed) :
    close ops fuel w = (.ok (), w) := by
  change (if w.socket.state = .closed ∨ _ then pure () else _ : Sock Unit) w = _
  rw [if_pos (.inl closed)]
  rfl

/-- A call that does not return leaves the state it is stuck in, so the other steps can follow in
    the middle of a call. -/
inductive Step where
  | call (fuel : Nat) (c : Call)
  | finish (fuel : Nat)
  | timeout
  | incoming (fuel rounds : Nat) (packet : Packet) (src : SocketAddr)
  | surroundings (net : List NetEvent) (sendOk : List Bool) (clock : List UInt32)
      (random : List UInt16) (trace : List Event)

def Step.run (ops : FloatOps) (w : World) : Step → World
  | .call fuel c => (c.run ops fuel w).2
  | .finish fuel => (finishClose ops fuel w).2
  | .timeout => (handleReceiveTimeout w).2
  | .incoming fuel rounds packet src => (receivePacket ops (nested ops fuel) rounds packet src w).2
  | .surroundings net sendOk clock random trace => ⟨w.socket, net, sendOk, clock, random, trace⟩

/-- The packets that a step can meet are in `A`. -/
def Coming (A : Packet → Prop) (w : World) (s : Step) : Prop :=
  (∀ packet src, .datagram (some packet) src ∈ w.net → A packet) ∧
    ∀ fuel rounds packet src, s = .incoming fuel rounds packet src → A packet

/-- `close` does not go on after the end. -/
def Respects (w : World) : Step → Prop
  | .call _ .close => w.socket.state ≠ .resetReceived
  | .finish _ => w.socket.state ≠ .closed ∧ w.socket.state ≠ .resetReceived
  | _ => True

def NoReset (packet : Packet) : Prop := packet.ty ≠ .reset

structure Meets (w : World) (s : Step) : Prop where
  quiet : w.socket.state = .closed → Coming NoReset w s
  respects : Respects w s

inductive Run (ops : FloatOps) (w : World) : World → Prop where
  | none : Run ops w w
  | step {w' : World} (before : Run ops w w') (s : Step) (meets : Meets w' s) :
      Run ops w (s.run ops w')

/-- States that the packets in `A` do not lead out of. -/
structure Last (F : SocketState → Prop) (A : Packet → Prop) : Prop where
  closed : F .closed
  ended : ∀ s, F s → s = .closed ∨ s = .resetReceived
  reset : ∀ p, A p → p.ty = .reset → F .resetReceived

structure Stopped (F : SocketState → Prop) (A : Packet → Prop) (v : View) : Prop where
  state : F v.state
  coming : ∀ packet src, .datagram (some packet) src ∈ v.net → A packet

section Stopped
variable {F : SocketState → Prop} {A : Packet → Prop} (last : Last F A) (ops : FloatOps)

theorem stopped_sends : Sends (Stopped F A) (Stopped F A) where
  caught := fun _ stopped => stopped
  taken := fun _ _ stopped _ => { stopped with }
  refused := fun _ _ stopped _ => { stopped with }
  retimed := fun _ _ _ _ stopped _ => { stopped with }

theorem stopped_read {v : View} {e : NetEvent} {rest : List NetEvent} (stopped : Stopped F A v)
    (script : v.net = e :: rest) : Stopped F A { v with net := rest } :=
  ⟨stopped.state, fun packet src member => stopped.coming packet src (script ▸ .tail _ member)⟩


include last

theorem stopped_frame : Frame A (Stopped F A) (Stopped F A) where
  toSends := stopped_sends
  settled := fun v stopped => by rcases last.ended _ stopped.state with state | state <;> simp [state]
  advances := sound_advance (fun _ stopped => { stopped with }) fun _ _ stopped => { stopped with }
  closes := fun _ _ stopped _ _ => ⟨last.closed, stopped.coming⟩
  resets := fun _ p stopped allowed isReset => ⟨last.reset p allowed isReset, stopped.coming⟩
  stray := fun _ stopped _ => stopped
  awaits := by
    refine triple_sock fun s w read => ?_
    refine await_datagram_ends (J := fun _ w => Stopped F A (view w)) (fun _ _ stopped => stopped)
      (fun _ => sends_steps stopped_sends []) ?_ ?_ ?_ ?_ _ w read.1
    · exact fun w stopped => ⟨last.closed, stopped.coming⟩
    · refine fun _ w _ src rest stopped script => ⟨stopped_read stopped script, fun p isPacket => ?_⟩
      exact stopped.coming p src (by rw [view, script, isPacket]; exact .head _)
    · exact fun _ w rest stopped script => stopped_read stopped script
    · exact fun _ w rest stopped script => stopped_read stopped script

theorem stopped_call (fuel : Nat) (c : Call) (other : c ≠ .close) :
    Stays (Stopped F A) (Stopped F A) (c.run ops fuel) := by
  have frame := stopped_frame last
  cases c with
  | close => exact absurd rfl other
  | recvFrom room => exact sound_recv_from frame ops fuel room
  | recv room => exact sound_recv frame ops fuel room true
  | flush => exact sound_bind (sound_flush (sound_recv frame ops fuel 0 true)) fun _ => sound_pure _
  | sendTo buf =>
    refine sound_bind (sound_send_to frame ops ?_ ?_ fuel buf) fun _ => sound_pure _
    · exact fun _ _ _ stopped => { stopped with }
    · refine fun packet => sound_sock fun s => sound_bind (sound_u32_add _ _) fun grown => ?_
      exact fun w stopped => .ok { stopped with } trivial

theorem stopped_step {w : World} {s : Step} (state : F w.socket.state) (coming : Coming A w s)
    (respects : Respects w s) : F (s.run ops w).socket.state := by
  have frame := stopped_frame last
  have stopped : Stopped F A (view w) := ⟨state, coming.1⟩
  cases s with
  | call fuel c =>
    by_cases closes : c = .close
    · subst closes
      have closed : w.socket.state = .closed := (last.ended _ state).resolve_right respects
      change F ((close ops fuel >>= fun _ => pure []) w).2.socket.state
      rw [Action.bind_run (close_closed ops fuel closed)]
      exact state
    · exact (ends_either (stopped_call last ops fuel c closes w stopped)).state
  | finish fuel => exact ((last.ended _ state).elim respects.1 respects.2).elim
  | timeout => exact (ends_either (sound_receive_timeout (sends_steps frame.toSends []) w stopped)).state
  | incoming fuel rounds packet src =>
    have kept := fun _ : List UInt16 => sound_nested frame ops fuel
    exact (ends_either (@sound_receive_packet _ _ _ [] (frame_rules frame) ops _ kept _ rounds src
      (coming.2 _ _ _ _ rfl) w stopped)).state
  | surroundings => exact state

end Stopped

/-- In every run whose steps meet the condition a closed socket stays closed, and one that was reset is
    never connected or closing again. -/
theorem ended_for_good {ops : FloatOps} {w w' : World} (run : Run ops w w') :
    (w.socket.state = .closed → w'.socket.state = .closed) ∧
      (w.socket.state = .resetReceived →
        w'.socket.state = .resetReceived ∨ w'.socket.state = .closed) := by
  have closing : Last (· = .closed) NoReset :=
    ⟨rfl, fun _ => .inl, fun _ noReset reset => absurd reset noReset⟩
  have resetting : Last (fun s => s = .resetReceived ∨ s = .closed) fun _ => True :=
    ⟨.inr rfl, fun _ => Or.symm, fun _ _ _ => .inl rfl⟩
  induction run with
  | none => exact ⟨id, .inl⟩
  | step before s meets ih =>
    constructor
    · intro closed
      exact stopped_step closing ops (ih.1 closed) (meets.quiet (ih.1 closed)) meets.respects
    · intro reset
      exact stopped_step resetting ops (ih.2 reset) (by simp [Coming]) meets.respects

/-- A closed socket with one packet that is not acknowledged, and a packet to come. -/
def lingering (ty : PacketType) : World :=
  { meeting [{ Packet.new with ty := ty, connectionId := 1 }] with
    socket := { connectedSocket with state := .closed, sendWindow := [dataPacket 1 [97]] } }

theorem fin_leaves_closed : ((Call.flush).run plainFloat 2 (lingering .fin)).2.socket.state = .closed := by
  have run : Run plainFloat (lingering .fin) _ := .step .none (.call 2 .flush) ⟨fun _ => ?_, trivial⟩
  · exact (ended_for_good run).1 rfl
  · refine ⟨fun packet src member => ?_, nofun⟩
    cases List.mem_singleton.mp member
    nofun

/-- A Reset takes the socket out of the closed state, and `close` one that was reset. -/
theorem ended_socket_revived :
    ((Call.flush).run plainFloat 2 (lingering .reset)).2.socket.state = .resetReceived ∧
      ((Call.close).run plainFloat 2 { meeting [] with
        socket := { connectedSocket with state := .resetReceived } }).2.socket.state = .finSent :=
  ⟨rfl, rfl⟩

end UtpFinal
