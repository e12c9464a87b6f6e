import Bittorrent.Utp.Frame
import Bittorrent.Utp.Stream

/-!
The bytes in flight. Whatever the socket does, also in the middle of calls that nest, `curr_window`
is the length of what is in the send window.
-/
namespace UtpWindow
open Rust UtpPacket UtpSocket UtpStream UtpWalk UtpFrame

/-- An invariant that no datagram and no error can break. -/
structure Closed (I : View → Prop) : Prop where
  settled : ∀ v, I v → v.state ≠ .new ∧ v.state ≠ .synSent
  tallied : ∀ v, I v → Tallied v
  dropped : ∀ v count, I v → I (v.drop count)
  retimed : ∀ v first rest now, I v → v.window = first :: rest →
    I { v with window := { first with timestamp := now } :: rest }
  moved : ∀ v state, state ≠ .new ∧ state ≠ .synSent → I v → I { v with state := state }
  scripts : ∀ v net sendOk, I v → I { v with net := net, sendOk := sendOk }

theorem closed_sends {I : View → Prop} (closed : Closed I) : Sends I I where
  caught := fun _ holds => holds
  taken := fun v rest holds _ => closed.scripts v v.net rest holds
  refused := fun v rest holds _ => closed.scripts v v.net rest holds
  retimed := closed.retimed

theorem closed_frame {I : View → Prop} (closed : Closed I) : Frame (fun _ => True) I I where
  toSends := closed_sends closed
  settled := closed.settled
  advances := tallied_advances closed.tallied closed.dropped
  closes := fun v _ holds _ _ => closed.moved v .closed (by simp) holds
  resets := fun v _ holds _ _ => closed.moved v .resetReceived (by simp) holds
  stray := fun _ holds _ => holds
  awaits := by
    refine triple_sock fun s w read => ?_
    refine await_datagram_ends (J := fun _ w => I (view w)) (fun _ _ holds => holds)
      (fun _ => sends_steps (closed_sends closed) []) ?_ ?_ ?_ ?_ _ w read.1
    · exact fun w holds => closed.moved (view w) .closed (by simp) holds
    · exact fun _ w _ _ rest holds _ => ⟨closed.scripts (view w) rest w.sendOk holds, fun _ _ => trivial⟩
    · exact fun _ w rest holds _ => closed.scripts (view w) rest w.sendOk holds
    · exact fun _ w rest holds _ => closed.scripts (view w) rest w.sendOk holds

structure Steady (v : View) : Prop where
  settled : v.state ≠ .new ∧ v.state ≠ .synSent
  tallied : Tallied v

theorem tallied_drop {v : View} (tallied : Tallied v) (count : Nat) : Tallied (v.drop count) := by
  have whole := lengths_append (v.window.take count) (v.window.drop count)
  rw [List.take_append_drop] at whole
  unfold Tallied at tallied ⊢
  unfold View.drop
  dsimp only
  omega

theorem tallied_retimed {v : View} {first : Packet} {rest : List Packet} (now : UInt32)
    (tallied : Tallied v) (window : v.window = first :: rest) :
    Tallied { v with window := { first with timestamp := now } :: rest } := by
  rw [tallied, window]
  rfl

theorem steady_closed : Closed Steady where
  settled := fun _ steady => steady.settled
  tallied := fun _ steady => steady.tallied
  dropped := fun _ count steady => ⟨steady.settled, tallied_drop steady.tallied count⟩
  retimed := fun _ _ _ now steady window => ⟨steady.settled, tallied_retimed now steady.tallied window⟩
  moved := fun _ _ settled steady => ⟨settled, steady.tallied⟩
  scripts := fun _ _ _ steady => ⟨steady.settled, steady.tallied⟩

section Calls
variable (ops : FloatOps)

theorem closed_call {I : View → Prop} (closed : Closed I) (fuel : Nat) (c : Call)
    (other : ∀ buf, c ≠ .sendTo buf) : Stays I I (c.run ops fuel) := by
  have frame := closed_frame closed
  cases c with
  | sendTo buf => exact absurd rfl (other buf)
  | recvFrom room => exact sound_recv_from frame ops fuel room
  | recv room => exact sound_recv frame ops fuel room true
  | flush => exact sound_bind (sound_flush (sound_recv frame ops fuel 0 true)) fun _ => sound_pure _
  | close =>
    exact sound_bind (sound_close (sends_steps frame.toSends [])
      (sound_flush (sound_recv frame ops fuel 0 true)) (sound_recv frame ops fuel bufSize false)
      fun w => closed.moved (view w) .finSent (by simp)) fun _ => sound_pure _

theorem push_sent_run (packet : Packet) (w : World) :
    pushSent packet w =
      if w.socket.currWindow + packet.len < 2 ^ 32 then
        (.ok (), { w with socket := { w.socket with
          currWindow := w.socket.currWindow + packet.len
          sendWindow := w.socket.sendWindow ++ [packet] } })
      else (.panic, w) := by
  change (u32Add w.socket.currWindow packet.len >>= fun grown => update fun s =>
    { s with currWindow := grown, sendWindow := s.sendWindow ++ [packet] }) w = _
  unfold u32Add
  split <;> rfl

theorem tallied_push {v : View} (tallied : Tallied v) (packet : Packet) :
    Tallied { v with inFlight := v.inFlight + packet.len, window := v.window ++ [packet] } := by
  unfold Tallied at tallied ⊢
  rw [tallied, lengths_append]
  simp [lengths]

theorem steady_push_sent (packet : Packet) : Stays Steady Steady (pushSent packet) := by
  intro w steady
  rw [push_sent_run]
  split
  · exact .ok ⟨steady.settled, tallied_push steady.tallied packet⟩ trivial
  · exact .panic steady

theorem steady_call (fuel : Nat) (c : Call) : Stays Steady Steady (c.run ops fuel) := by
  by_cases sends : ∃ buf, c = .sendTo buf
  · obtain ⟨buf, rfl⟩ := sends
    have queued : ∀ v queue seqNr, Steady v → Steady { v with queue := queue, seqNr := seqNr } :=
      fun _ _ _ steady => ⟨steady.settled, steady.tallied⟩
    exact sound_bind (sound_send_to (closed_frame steady_closed) ops queued steady_push_sent fuel buf)
      fun _ => sound_pure _
  · exact closed_call ops steady_closed fuel c fun buf same => sends ⟨buf, same⟩

end Calls

section Reached
variable (ops : FloatOps)

/-- The `recv` that other functions of the socket call. -/
def nested (fuel : Nat) (room : Nat) : Sock Bytes := recv ops fuel room false

/-- `handle_state_packet` up to the call of `advance_send_window`. -/
def acknowledge (inner : Nat → Sock Bytes) (rounds : Nat) (packet : Packet) : Sock Unit := do
  countAck packet
  measure ops packet
  let s ← sock
  let lossDetected := decide (s.sendWindow ≠ [] ∧ s.duplicateAckCount = 3)
  let lossDetected ← processExtensions inner rounds packet.ackNr lossDetected packet.extensions
  fastResend inner rounds packet
  halveWindow lossDetected

theorem handle_state_packet_parts (inner : Nat → Sock Bytes) (rounds : Nat) (packet : Packet) :
    handleStatePacket ops inner rounds packet =
      (acknowledge ops inner rounds packet >>= fun _ => advanceSendWindow) := by
  unfold handleStatePacket acknowledge
  simp only [Action.bind_assoc]

/-- The states of a connection. A call that does not return leaves the state it is stuck in, so a
    script that ends early shows the states in the middle of a call, where a `recv` is nested in
    another one; from there the connection can also go on. -/
inductive Reached : World → Prop where
  | connected {w : World} (state : w.socket.state = .connected) (window : w.socket.sendWindow = [])
      (inFlight : w.socket.currWindow = 0) : Reached w
  | call {w : World} (before : Reached w) (fuel : Nat) (c : Call) : Reached (c.run ops fuel w).2
  | timeout {w : World} (before : Reached w) : Reached (handleReceiveTimeout w).2
  | packet {w : World} (before : Reached w) (fuel rounds : Nat) (packet : Packet) (src : SocketAddr) :
      Reached (receivePacket ops (nested ops fuel) rounds packet src w).2
  | acknowledged {w : World} (before : Reached w) (fuel rounds : Nat) (packet : Packet) :
      Reached (acknowledge ops (nested ops fuel) rounds packet w).2
  | surroundings {w : World} (before : Reached w) (net : List NetEvent) (sendOk : List Bool)
      (clock : List UInt32) (random : List UInt16) (trace : List Event) :
      Reached ⟨w.socket, net, sendOk, clock, random, trace⟩

theorem sound_acknowledge {A : Packet → Prop} {I E : View → Prop} (frame : Frame A I E)
    (fuel rounds : Nat) (packet : Packet) :
    Stays I E (acknowledge ops (nested ops fuel) rounds packet) := by
  have rules := frame_rules frame
  have still := (sends_steps frame.toSends []).toStill
  have kept := fun _ : List UInt16 => sound_nested frame ops fuel
  apply sound_bind (sound_count_ack still packet)
  intro _
  refine sound_bind (sound_measure still ops packet) fun _ => sound_sock fun s => ?_
  apply sound_bind (@sound_process_extensions _ _ _ [] rules _ kept rounds _ _ _)
  intro lost
  apply sound_bind (@sound_fast_resend _ _ _ [] rules _ kept rounds packet)
  exact fun _ => sound_halve_window still lost

theorem reached_steady {w : World} (reached : Reached ops w) : Steady (view w) := by
  have frame := closed_frame steady_closed
  induction reached with
  | connected state window inFlight =>
    rename_i w
    refine ⟨?_, ?_⟩
    · change w.socket.state ≠ .new ∧ w.socket.state ≠ .synSent
      rw [state]
      simp
    · change w.socket.currWindow = lengths w.socket.sendWindow
      rw [inFlight, window]
      rfl
  | call _ fuel c ih => exact ends_either (steady_call ops fuel c _ ih)
  | timeout _ ih => exact ends_either (sound_receive_timeout (sends_steps frame.toSends []) _ ih)
  | packet _ fuel rounds packet src ih =>
    have kept := fun _ : List UInt16 => sound_nested frame ops fuel
    exact ends_either (@sound_receive_packet _ _ _ [] (frame_rules frame) ops _ kept _ rounds src trivial _ ih)
  | acknowledged _ fuel rounds packet ih =>
    exact ends_either (sound_acknowledge ops frame fuel rounds packet _ ih)
  | surroundings _ net sendOk clock random trace ih => exact ⟨ih.settled, ih.tallied⟩

/-- In every state of a connection the bytes in flight are those of the send window, and
    `advance_send_window` returns, also where `handle_state_packet` calls it. -/
theorem window_accounted {w : World} (reached : Reached ops w) :
    w.socket.currWindow = (w.socket.sendWindow.map Packet.len).sum ∧
      (∃ w', advanceSendWindow w = (.ok (), w')) ∧
      ∀ fuel rounds packet w', acknowledge ops (nested ops fuel) rounds packet w = (.ok (), w') →
        ∃ w'', handleStatePacket ops (nested ops fuel) rounds packet w = (.ok (), w'') := by
  have returns : ∀ w, Reached ops w → ∃ w', advanceSendWindow w = (.ok (), w') := by
    intro w reached
    obtain ⟨w', _, ended, _⟩ := advance_send_window_run w (reached_steady ops reached).tallied
    exact ⟨w', ended⟩
  refine ⟨(reached_steady ops reached).tallied, returns w reached, ?_⟩
  intro fuel rounds packet w' ended
  have after : Reached ops w' := by
    have step := Reached.acknowledged reached fuel rounds packet
    rwa [ended] at step
  rw [handle_state_packet_parts, Action.bind_run ended]
  exact returns w' after

/-- A state in which one packet is on its way. -/
def oneSent : World := ((Call.sendTo [97, 98]).run plainFloat 2 (meeting [])).2

theorem one_sent_accounted : oneSent.socket.sendWindow.length = 1 ∧
    oneSent.socket.currWindow = (oneSent.socket.sendWindow.map Packet.len).sum ∧
    ∃ w', advanceSendWindow oneSent = (.ok (), w') := by
  have reached : Reached plainFloat oneSent := .call (.connected rfl rfl rfl) 2 _
  obtain ⟨tallied, returns, _⟩ := window_accounted plainFloat reached
  exact ⟨rfl, tallied, returns⟩

end Reached

end UtpWindow
