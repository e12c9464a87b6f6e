import Bittorrent.Utp.Walk

/-!
What the functions of the circle do to the sending half. Seen from there, `recv` only takes
acknowledged packets off the front of the window, puts a new timestamp on the first one, closes or
resets the connection, and reads and sends datagrams. A predicate that allows for these is kept by
every function, as the walk over the circle shows.
-/
namespace UtpFrame
open Rust UtpPacket UtpSocket UtpWalk

/-- The sending half and the scripts that decide whether a call returns an error. -/
structure View where
  window : List Packet
  queue : List Packet
  inFlight : Nat
  seqNr : UInt16
  state : SocketState
  retries : Nat
  net : List NetEvent
  sendOk : List Bool

def view (w : World) : View where
  window := w.socket.sendWindow
  queue := w.socket.unsentQueue
  inFlight := w.socket.currWindow
  seqNr := w.socket.seqNr
  state := w.socket.state
  retries := w.socket.maxRetransmissionRetries
  net := w.net
  sendOk := w.sendOk

def lengths (packets : List Packet) : Nat := (packets.map Packet.len).sum

theorem lengths_append (first second : List Packet) :
    lengths (first ++ second) = lengths first + lengths second := by
  simp [lengths]

/-- The bytes in flight are those of the window. -/
def Tallied (v : View) : Prop := v.inFlight = lengths v.window

/-- Without the first packets of the window. -/
def View.drop (v : View) (count : Nat) : View :=
  { v with window := v.window.drop count, inFlight := v.inFlight - lengths (v.window.take count) }

/-- Sound for predicates of the view. -/
abbrev Stays {α : Type} (I E : View → Prop) (m : Sock α) : Prop :=
  Sound (fun w => I (view w)) (fun w => E (view w)) m

/-- What sending and timeouts need. -/
structure Sends (I E : View → Prop) : Prop where
  caught : ∀ v, E v → I v
  taken : ∀ v rest, I v → v.sendOk = true :: rest → I { v with sendOk := rest }
  refused : ∀ v rest, I v → v.sendOk = false :: rest → E { v with sendOk := rest }
  retimed : ∀ v first rest now, I v → v.window = first :: rest →
    I { v with window := { first with timestamp := now } :: rest }

theorem view_quiet {w : World} {s : Socket} (quiet : Quiet w.socket s) :
    view { w with socket := s } = view w := by
  unfold view
  rw [quiet.window, quiet.queue, quiet.inFlight, quiet.seqNr, quiet.state, quiet.retries]

theorem sends_steps {I E : View → Prop} (sends : Sends I E) (known : List UInt16) :
    Steps known (fun w => I (view w)) (fun w => E (view w)) where
  quiet := fun w s holds quiet => by
    rw [view_quiet quiet]
    exact holds
  clock := fun _ _ holds => holds
  caught := fun w => sends.caught (view w)
  sent := fun _ _ holds _ => holds
  taken := fun w => sends.taken (view w)
  refused := fun w => sends.refused (view w)
  retimed := fun w => sends.retimed (view w)

/-- What `handle_packet` needs besides, for the packets in `A`. -/
structure Frame (A : Packet → Prop) (I E : View → Prop) : Prop extends Sends I E where
  settled : ∀ v, I v → v.state ≠ .new ∧ v.state ≠ .synSent
  advances : Stays I E advanceSendWindow
  closes : ∀ v p, I v → A p → p.ty = .fin ∨ v.state = .finSent → I { v with state := .closed }
  resets : ∀ v p, I v → A p → p.ty = .reset → E { v with state := .resetReceived }
  stray : ∀ v, I v → v.state ≠ .connected → E v
  awaits : Action.Triple (fun w => I (view w))
    (sock >>= fun s => awaitDatagram s.maxRetransmissionRetries)
    (Ends (fun w => I (view w)) (fun w => E (view w)) (Awaited A))

section Acknowledging

/-- In a tallied window the packets to forget are no longer than what is in flight. -/
theorem forget_run (packets : List Packet) : ∀ (w : World) (rest : List Packet),
    w.socket.sendWindow = packets ++ rest → Tallied (view w) →
    forget packets w = (.ok (), { w with socket := { w.socket with
      sendWindow := rest, currWindow := w.socket.currWindow - lengths packets } }) := by
  induction packets with
  | nil =>
    intro w rest window _
    have same : w.socket.sendWindow = rest := window
    rw [← same]
    rfl
  | cons packet more ih =>
    intro w rest window tallied
    have total : w.socket.currWindow = packet.len + lengths (more ++ rest) := by
      have sum : w.socket.currWindow = lengths w.socket.sendWindow := tallied
      rw [sum, window]
      rfl
    have enough : u32Sub w.socket.currWindow packet.len =
        (pure (w.socket.currWindow - packet.len) : Sock Nat) := if_pos (by omega)
    have popped : w.socket.sendWindow.drop 1 = more ++ rest := by
      rw [window]
      rfl
    let next : World := { w with socket := { w.socket with
      sendWindow := w.socket.sendWindow.drop 1, currWindow := w.socket.currWindow - packet.len } }
    have step : forget (packet :: more) w = forget more next := by
      change (u32Sub w.socket.currWindow packet.len >>= fun left =>
        (update fun s => { s with currWindow := left }) >>= fun _ => forget more)
        { w with socket := { w.socket with sendWindow := w.socket.sendWindow.drop 1 } } = _
      rw [enough]
      rfl
    rw [step, ih next rest popped]
    · have left : w.socket.currWindow - packet.len - lengths more =
          w.socket.currWindow - lengths (packet :: more) := by
        unfold lengths
        rw [List.map_cons, List.sum_cons, Nat.sub_sub]
      rw [left]
    · change w.socket.currWindow - packet.len = lengths (w.socket.sendWindow.drop 1)
      rw [popped]
      omega

/-- The subtraction does not underflow, and the view loses the first packets of the window. -/
theorem advance_send_window_run (w : World) (tallied : Tallied (view w)) :
    ∃ w' count, advanceSendWindow w = (.ok (), w') ∧ view w' = (view w).drop count := by
  have read : ∀ f : Socket → Sock Unit, (sock >>= f) w = f w.socket w := fun _ => rfl
  rw [advanceSendWindow, read]
  cases w.socket.sendWindow.findIdx? fun p : Packet => p.seqNr = w.socket.lastAcked with
  | none => exact ⟨w, 0, rfl, rfl⟩
  | some position =>
    have cut := (List.take_append_drop (position + 1) w.socket.sendWindow).symm
    exact ⟨_, position + 1, forget_run _ w _ cut tallied, rfl⟩

theorem tallied_advances {I E : View → Prop} (tallied : ∀ v, I v → Tallied v)
    (dropped : ∀ v count, I v → I (v.drop count)) : Stays I E advanceSendWindow := by
  intro w holds
  obtain ⟨w', count, ended, shorter⟩ := advance_send_window_run w (tallied _ holds)
  rw [ended]
  refine .ok ?_ trivial
  rw [shorter]
  exact dropped _ count holds

end Acknowledging

section Calls
variable {A : Packet → Prop} {I E : View → Prop}

theorem sound_flush_buffer (room : Nat) (caller : Bool) : Stays I E (flushBuffer room caller) := by
  apply sound_sock
  intro s
  apply sound_bind (sound_lift (flush_fine _ _))
  exact fun flushed w holds => .ok holds trivial

variable (frame : Frame A I E) (ops : FloatOps)
include frame

theorem frame_rules : Rules A (fun _ w => I (view w)) (fun _ w => E (view w)) where
  steps := sends_steps frame.toSends
  learns := fun _ _ _ holds _ => holds
  forgets := fun _ _ _ => ⟨fun holds => holds, fun failed => failed⟩
  settled := fun _ w => frame.settled (view w)
  closes := fun _ w => frame.closes (view w)
  resets := fun _ w => frame.resets (view w)
  stray := fun _ w => frame.stray (view w)
  advances := fun _ => frame.advances
  follows := fun _ _ _ holds => holds
  stores := fun _ _ _ holds _ _ _ => holds
  flushes := fun _ room => sound_flush_buffer room false
  awaits := fun _ => frame.awaits

variable (fuel room : Nat)

theorem sound_nested : Stays I E (recv ops fuel room false) :=
  sound_inner_recv (frame_rules frame) ops fuel [] room

theorem sound_recv (caller : Bool) : Stays I E (recv ops fuel room caller) := by
  cases fuel with
  | zero => exact sound_cut_off
  | succ fuel =>
    exact recv_with_ends (frame_rules frame) ops (fun _ => sound_nested frame ops fuel) [] fuel room
      caller (sound_flush_buffer room caller) fun o w ended =>
        ends_weaken ended (fun _ h => h) (fun _ h => h) fun _ _ _ => trivial

theorem sound_recv_until (fuel room rounds : Nat) : Stays I E (recvUntil ops fuel room rounds) := by
  induction rounds with
  | zero => exact sound_cut_off
  | succ rounds ih =>
    apply sound_sock
    intro s
    apply sound_ite
    · exact fun _ => sound_pure _
    · intro _
      apply sound_bind (sound_recv frame ops fuel room true)
      exact fun out => sound_ite (fun _ => ih) fun _ => sound_pure _


/-- The one error of `recv_from` of its own comes on a connection that was reset. -/
theorem sound_recv_from : Stays I E (recvFrom ops fuel room) := by
  apply sound_bind (sound_flush_buffer room true)
  intro out
  apply sound_ite
  · exact fun _ => sound_pure _
  · intro _
    refine triple_sock fun s => Action.triple_ite (fun reset => ?_) fun _ => ?_
    · rintro w ⟨holds, rfl⟩
      exact .err (frame.stray _ holds fun connected => by cases reset.symm.trans connected)
    · exact fun w read => sound_recv_until frame ops fuel room fuel w read.1


variable (queued : ∀ v queue seqNr, I v → I { v with queue := queue, seqNr := seqNr })
  (pushed : ∀ packet, Stays I E (pushSent packet))
include queued pushed

theorem sound_send (fuel rounds : Nat) : Stays I E (send ops fuel rounds) := by
  induction rounds with
  | zero => exact sound_cut_off
  | succ rounds ih =>
    apply sound_sock
    intro s
    cases s.unsentQueue with
    | nil => exact sound_pure _
    | cons packet rest =>
      apply sound_bind
      · exact fun w holds => .ok (queued (view w) rest w.socket.seqNr holds) trivial
      intro _
      apply sound_bind (sound_send_packet (frame_rules frame) (fun _ => sound_nested frame ops fuel)
        fuel (List.mem_singleton_self packet.ackNr))
      exact fun sent => sound_bind (pushed sent) fun _ => ih

theorem sound_send_to (fuel : Nat) (buf : Bytes) : Stays I E (sendTo ops fuel buf) := by
  refine triple_sock fun s => Action.triple_ite ?_ fun _ w read => ?_
  · rintro closed w ⟨holds, rfl⟩
    exact .err (frame.stray _ holds fun connected => by cases closed.symm.trans connected)
  · refine sound_bind (sound_for_each (fun chunk => ?_) _) (fun _ => sound_bind
      (sound_send frame ops queued pushed fuel fuel) fun _ => sound_pure _) w read.1
    refine sound_sock fun s => sound_bind (sound_u32_sub _ _) fun room w holds => ?_
    exact .ok (queued (view w) _ _ holds) trivial

end Calls

end UtpFrame
