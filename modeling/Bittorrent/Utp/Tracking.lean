import Bittorrent.Utp.Trace
import Bittorrent.Utp.Walk

/-!
Every function of the socket keeps the agreement between the socket and the monitor of its
trace. The single steps keep it, so the walk over the circle gives it for the `recv` inside.
-/
namespace UtpTracking
open Rust Action UtpPacket UtpReceive UtpSocket UtpTrace UtpWalk List

section Steps
variable {r : Origin} {out : Bytes} {known : List UInt16} {w : World}

theorem quotes_past {packet : Packet} (tracked : Tracked r out known w) (quotes : Quotes known packet w) :
    Past r w.trace packet.ackNr := by
  rcases quotes with current | hand | window
  · rw [current]
    exact tracked_current tracked
  · exact tracked.known _ hand
  · obtain ⟨p, member, same⟩ := mem_map.mp window
    rw [← same]
    exact tracked.queued p (mem_append_left _ member)

theorem tracked_steps (r : Origin) (out : Bytes) (known : List UInt16) :
    Steps known (Tracked r out known) (Tracked r out known) where
  quiet := by
    intro w s tracked quiet
    refine tracked_socket tracked quiet.receive ?_ ?_
    · rw [quiet.state]
      exact tracked.settled
    · rw [quiet.window, quiet.queue]
      exact tracked.queued
  clock := fun _ _ tracked => { tracked with }
  caught := fun _ tracked => tracked
  sent := fun w packet tracked quotes =>
    tracked_event tracked tracked.receive tracked.settled tracked.queued tracked.returned
      ⟨quotes_past tracked quotes, tracked.sends⟩ tracked.stores
  taken := fun _ _ tracked _ => { tracked with }
  refused := fun _ _ tracked _ => { tracked with }
  retimed := by
    intro w first rest now tracked window
    have past : ∀ p ∈ first :: rest ++ w.socket.unsentQueue, Past r w.trace p.ackNr := by
      rw [← window]
      exact tracked.queued
    refine tracked_socket tracked rfl tracked.settled ?_
    intro p member
    rcases mem_cons.mp member with same | later
    · exact same ▸ past first (by simp)
    · exact past p (.tail _ later)

theorem tracked_state (tracked : Tracked r out known w) {state : SocketState}
    (settled : state ≠ .new ∧ state ≠ .synSent) :
    Tracked r out known { w with socket := { w.socket with state := state } } :=
  tracked_socket tracked rfl settled tracked.queued

theorem flush_buffer_eq (room : Nat) (caller : Bool) (w : World) :
    flushBuffer room caller w =
      match (w.socket.toReceiveSide.flushIncomingBuffer room :
        Outcome SocketError (Bytes × ReceiveSide)) with
      | .ok (bytes, rx) => (.ok bytes,
          { w with
            socket := { w.socket with toReceiveSide := rx }
            trace := .flush room caller :: w.trace })
      | .err e => (.err e, w)
      | .panic => (.panic, w)
      | .unfinished => (.unfinished, w) := by
  change Action.andThen (Action.lift (w.socket.toReceiveSide.flushIncomingBuffer room)) _ w = _
  cases (w.socket.toReceiveSide.flushIncomingBuffer room :
    Outcome SocketError (Bytes × ReceiveSide)) <;> rfl

/-- Reading for the caller adds the returned bytes to what the monitor has given out. -/
def ReadFor (r : Origin) (out : Bytes) (known : List UInt16) (caller : Bool)
    (o : Outcome SocketError Bytes) (w : World) : Prop :=
  match o with
  | .ok bytes => Tracked r (if caller then out ++ bytes else out) known w
  | _ => Tracked r out known w

theorem flush_buffer_tracked (room : Nat) (caller : Bool) :
    Triple (Tracked r out known) (flushBuffer room caller) (ReadFor r out known caller) := by
  intro w tracked
  rw [flush_buffer_eq]
  cases flushed : (w.socket.toReceiveSide.flushIncomingBuffer room :
      Outcome SocketError (Bytes × ReceiveSide)) with
  | ok result =>
    obtain ⟨bytes, rx⟩ := result
    have replayed : ((monitorOf r.toReceiveSide w.trace).rx.flushIncomingBuffer room :
        Outcome Unit (Bytes × ReceiveSide)) = .ok (bytes, rx) := by
      rw [tracked.receive]
      exact ReceiveSide.flush_ok_iff.mpr (ReceiveSide.flush_ok_iff.mp flushed)
    refine tracked_event tracked ?_ tracked.settled tracked.queued ?_ tracked.sends tracked.stores
    · simp only [Monitor.step, replayed, Monitor.moveTo]
    · simp only [Monitor.step, replayed, tracked.returned]
  | err e | panic | unfinished => exact tracked


theorem follow_last_dropped (rx : ReceiveSide) (p : Packet) :
    (rx.follow p).lastDropped = rx.lastDropped := by
  unfold ReceiveSide.follow
  split <;> rfl

/-- A data packet that was followed last is the one the monitor waits for. -/
theorem latest_held {packet : Packet} (isData : packet.ty = .data) {trace : List Event}
    (followed : latest trace = some packet)
    (fresh : 0 < packet.seqNr - (monitorOf r.toReceiveSide trace).rx.lastDropped) :
    (monitorOf r.toReceiveSide trace).held = some packet := by
  induction trace with
  | nil => cases followed
  | cons e before ih =>
    cases e with
    | send q => exact ih followed fresh
    | follow q =>
      cases followed
      have same := follow_last_dropped (monitorOf r.toReceiveSide before).rx packet
      change 0 < packet.seqNr - ((monitorOf r.toReceiveSide before).rx.follow packet).lastDropped at fresh
      rw [same] at fresh
      simp only [monitorOf, Monitor.step, isData, fresh, and_self, ↓reduceIte]
    | store q | flush room caller => cases followed

theorem keeps_ends {α : Type} {P I : World → Prop} {m : Sock α} (keeps : Triple P m fun _ w => I w) :
    Triple P m (Ends I I fun _ _ => True) := by
  intro w holds
  have after := keeps w holds
  rcases ended : m w with ⟨o, w'⟩
  rw [ended] at after
  cases o with
  | ok a => exact .ok after trivial
  | err e => exact .err after
  | panic => exact .panic after
  | unfinished => exact .unfinished after

theorem read_for_discarded (o : Outcome SocketError Bytes) (w : World)
    (read : ReadFor r out known false o w) : Tracked r out known w := by
  cases o with
  | ok bytes => simpa [ReadFor] using read
  | err e | panic | unfinished => exact read

theorem tracked_rules (r : Origin) (out : Bytes) :
    Rules (fun _ => True) (fun known => Tracked r out known) (fun known => Tracked r out known) where
  steps := tracked_steps r out
  learns := fun known w packet tracked member =>
    tracked_learn tracked (tracked.queued packet (mem_append_left _ member))
  forgets := fun _ _ _ => ⟨tracked_forget, tracked_forget⟩
  settled := fun _ _ tracked => tracked.settled
  closes := fun _ _ _ tracked _ _ => tracked_state tracked (by simp)
  resets := fun _ _ _ tracked _ _ => tracked_state tracked (by simp)
  stray := fun _ _ tracked _ => tracked
  advances := by
    refine fun known => sound_advance ?_ fun w left tracked => { tracked with }
    refine fun w tracked => tracked_socket tracked rfl tracked.settled fun p member => ?_
    rcases mem_append.mp member with sent | unsent
    · exact tracked.queued p (mem_append_left _ (mem_of_mem_drop sent))
    · exact tracked.queued p (mem_append_right _ unsent)
  follows := by
    intro known w packet tracked
    refine tracked_event tracked ?_ tracked.settled tracked.queued ?_ tracked.sends tracked.stores
    · simp only [Monitor.step, Monitor.moveTo, tracked.receive]
    · simp only [Monitor.step, Monitor.moveTo, tracked.returned]
  stores := by
    intro known w packet tracked followed isData fresh
    refine tracked_event tracked ?_ tracked.settled tracked.queued ?_ tracked.sends ?_
    · simp only [Monitor.step, Monitor.moveTo, tracked.receive]
    · simp only [Monitor.step, Monitor.moveTo, tracked.returned]
    · exact ⟨latest_held isData followed (by rwa [tracked.receive]), tracked.stores⟩
  flushes := fun known room =>
    keeps_ends (triple_weaken (flush_buffer_tracked room false) (fun _ h => h) read_for_discarded)
  awaits := by
    refine fun known => triple_sock fun s w read => ?_
    refine await_datagram_ends (J := fun _ => Tracked r out known) (fun _ _ tracked => tracked)
      (fun _ => tracked_steps r out known) ?_ ?_ ?_ ?_ _ w read.1
    · exact fun w tracked => tracked_state tracked (by simp)
    · exact fun _ w _ _ rest tracked _ => ⟨{ tracked with }, fun _ _ => trivial⟩
    · exact fun _ w rest tracked _ => { tracked with }
    · exact fun _ w rest tracked _ => { tracked with }

end Steps

section Calls
variable {r : Origin} {out : Bytes} {known : List UInt16} (ops : FloatOps)

variable (fuel : Nat)

theorem inner_tracked (known : List UInt16) (room : Nat) :
    Sound (Tracked r out known) (Tracked r out known) (recv ops fuel room false) :=
  sound_inner_recv (tracked_rules r out) ops fuel known room

theorem recv_tracked (fuel room : Nat) (caller : Bool) :
    Triple (Tracked r out known) (recv ops fuel room caller) (ReadFor r out known caller) := by
  cases fuel with
  | zero => exact fun w tracked => tracked
  | succ fuel =>
    refine recv_with_ends (tracked_rules r out) ops (inner_tracked ops fuel) known fuel room caller
      (flush_buffer_tracked room caller) ?_
    intro o w ended
    cases ended with
    | ok tracked nothing =>
      subst nothing
      change Tracked r (if caller then out ++ [] else out) known w
      simpa using tracked
    | err tracked | panic tracked | unfinished tracked => exact tracked

/-- The rest of a call after a step that returned nothing to the caller. -/
theorem read_after {β : Type} {m : Sock β} {f : β → Sock Bytes}
    (first : Sound (Tracked r out known) (Tracked r out known) m)
    (rest : ∀ b, Triple (Tracked r out known) (f b) (ReadFor r out known true)) :
    Triple (Tracked r out known) (m >>= f) (ReadFor r out known true) :=
  triple_bind first (fun b w ended => rest b w (ends_either ended)) (fun _ _ => ends_either)
    (fun _ => ends_either) (fun _ => ends_either)

theorem read_nothing :
    Triple (Tracked r out known) (pure [] : Sock Bytes) (ReadFor r out known true) := by
  intro w tracked
  change Tracked r (if true then out ++ [] else out) known w
  simpa using tracked

/-- A read that found nothing may be repeated; what it finds is returned as it is. -/
theorem read_or_repeat {m again : Sock Bytes}
    (first : Triple (Tracked r out known) m (ReadFor r out known true))
    (later : Triple (Tracked r out known) again (ReadFor r out known true)) :
    Triple (Tracked r out known) (m >>= fun bytes => if bytes = [] then again else pure bytes)
      (ReadFor r out known true) := by
  refine triple_bind first (fun bytes => ?_) (fun _ _ h => h) (fun _ h => h) (fun _ h => h)
  intro w read
  by_cases empty : bytes = []
  · subst empty
    have same : Tracked r out known w := by simpa [ReadFor] using read
    simpa using later w same
  · rw [if_neg empty]
    exact read

theorem recv_until_tracked (fuel room rounds : Nat) :
    Triple (Tracked r out known) (recvUntil ops fuel room rounds)
      (ReadFor r out known true) := by
  induction rounds with
  | zero => exact fun w tracked => tracked
  | succ rounds ih =>
    refine triple_sock fun s w read => ?_
    by_cases closed : s.state = .closed
    · rw [if_pos closed]
      exact read_nothing w read.1
    · rw [if_neg closed]
      exact read_or_repeat (recv_tracked ops fuel room true) ih w read.1

theorem recv_from_tracked (fuel room : Nat) :
    Triple (Tracked r out known) (recvFrom ops fuel room) (ReadFor r out known true) := by
  have waits : Triple (Tracked r out known) (do
      if (← sock).state = .resetReceived then Action.fail .connectionReset
      else recvUntil ops fuel room fuel) (ReadFor r out known true) := by
    refine triple_sock fun s w read => ?_
    by_cases reset : s.state = .resetReceived
    · rw [if_pos reset]
      exact read.1
    · rw [if_neg reset]
      exact recv_until_tracked ops fuel room fuel w read.1
  unfold recvFrom
  simp only [ne_eq, ite_not]
  exact read_or_repeat (flush_buffer_tracked room true) waits

theorem recv_zero (caller : Bool) :
    Returns (fun bytes => bytes = []) (recv ops fuel 0 caller) := by
  cases fuel with
  | zero =>
    intro w bytes same
    cases same
  | succ fuel =>
    refine returns_bind fun s => returns_bind fun received => ?_
    obtain ⟨decoded, src⟩ := received
    cases decoded with
    | none => exact returns_pure rfl
    | some packet =>
      refine returns_bind fun _ => ?_
      intro w bytes same
      rw [flush_buffer_eq] at same
      split at same
      · rename_i flushed
        cases same
        exact ReceiveSide.flush_step_zero (ReceiveSide.flush_ok_iff.mp flushed)
      · cases same
      · cases same
      · cases same

theorem recv_zero_tracked :
    Sound (Tracked r out known) (Tracked r out known) (recv ops fuel 0 true) := by
  apply keeps_ends
  intro w tracked
  have read := recv_tracked ops fuel 0 true w tracked
  have empty := recv_zero ops fuel true w
  unfold ReadFor at read
  split at read
  · rename_i bytes same
    rw [empty bytes same] at read
    simpa using read
  · exact read


/-- A packet joins the window with the acknowledgement number it was queued with. -/
theorem push_sent_tracked {packet : Packet} (member : packet.ackNr ∈ known) :
    Sound (Tracked r out known) (Tracked r out known) (pushSent packet) := by
  refine sound_sock fun s => sound_bind (sound_u32_add _ _) fun grown => ?_
  intro w tracked
  refine .ok (tracked_socket tracked rfl tracked.settled ?_) trivial
  intro p inside
  rcases mem_append.mp inside with window | unsent
  · rcases mem_append.mp window with old | new
    · exact tracked.queued p (mem_append_left _ old)
    · rw [mem_singleton.mp new]
      exact tracked.known _ member
  · exact tracked.queued p (mem_append_right _ unsent)

theorem tracked_pop {w : World} {packet : Packet} {rest : List Packet}
    (tracked : Tracked r out known w) (queue : w.socket.unsentQueue = packet :: rest) :
    Tracked r out (packet.ackNr :: known)
      { w with socket := { w.socket with unsentQueue := rest } } := by
  have queued : ∀ p ∈ packet :: rest, Past r w.trace p.ackNr := by
    intro p member
    exact tracked.queued p (mem_append_right _ (queue ▸ member))
  refine tracked_socket (tracked_learn tracked (queued packet (by simp))) rfl tracked.settled ?_
  intro p member
  rcases mem_append.mp member with sent | later
  · exact tracked.queued p (mem_append_left _ sent)
  · exact queued p (.tail _ later)


theorem send_queue_tracked (fuel rounds : Nat) :
    Sound (Tracked r out known) (Tracked r out known) (send ops fuel rounds) := by
  induction rounds with
  | zero => exact sound_cut_off
  | succ rounds ih =>
    refine triple_sock fun s => ?_
    rintro w ⟨tracked, rfl⟩
    cases queue : w.socket.unsentQueue with
    | nil => exact .ok tracked trivial
    | cons packet rest =>
      have sent : Keeps (Tracked r out (packet.ackNr :: known))
          (sendPacket (fun room => recv ops fuel room false) fuel packet) := fun w tracked =>
        ends_either (sound_send_packet (tracked_rules r out) (inner_tracked ops fuel) fuel
          (.head _) w tracked)
      have sends : Triple (Tracked r out (packet.ackNr :: known))
          (sendPacket (fun room => recv ops fuel room false) fuel packet >>= fun sent => do
            pushSent sent
            send ops fuel rounds) fun _ w => Tracked r out known w := by
        refine triple_bind (triple_returns sent (send_packet_numbers fuel _ packet))
          (fun sent => ?_) (fun _ _ h => tracked_forget h.1) (fun _ h => tracked_forget h.1)
          (fun _ h => tracked_forget h.1)
        intro w after
        have same : sent.ackNr ∈ packet.ackNr :: known := by simp [(after.2 sent rfl).1]
        have pushed : Keeps (Tracked r out (packet.ackNr :: known)) (pushSent sent) :=
          fun w tracked => ends_either (push_sent_tracked same w tracked)
        exact triple_then pushed (fun _ w tracked => ends_either (ih w (tracked_forget tracked)))
          (fun _ => tracked_forget) w after.1
      exact keeps_ends sends _ (tracked_pop tracked queue)

theorem enqueue_tracked (chunk : Bytes) :
    Sound (Tracked r out known) (Tracked r out known) (enqueue chunk) := by
  refine sound_sock fun s => sound_bind (sound_u32_sub _ _) fun room => ?_
  intro w tracked
  refine .ok (tracked_socket tracked rfl tracked.settled ?_) trivial
  intro p member
  rcases mem_append.mp member with sent | unsent
  · exact tracked.queued p (mem_append_left _ sent)
  · rcases mem_append.mp unsent with old | new
    · exact tracked.queued p (mem_append_right _ old)
    · rw [mem_singleton.mp new]
      exact tracked_current tracked

theorem send_to_tracked (buf : Bytes) :
    Sound (Tracked r out known) (Tracked r out known) (sendTo ops fuel buf) := by
  refine sound_sock fun s => sound_ite (fun _ w tracked => .err tracked) fun _ => ?_
  apply sound_bind (sound_for_each enqueue_tracked _)
  intro _
  exact sound_bind (send_queue_tracked ops fuel fuel) fun _ => sound_pure _


theorem call_tracked (call : Call) :
    Triple (Tracked r out known) (call.run ops fuel) (ReadFor r out known true) := by
  have flushes : Sound (Tracked r out known) (Tracked r out known) (flush ops fuel) :=
    sound_flush (recv_zero_tracked ops fuel)
  have closes := sound_close (tracked_steps r out known) flushes
    (inner_tracked ops fuel known bufSize) fun w tracked => tracked_state tracked (by simp)
  cases call with
  | recvFrom room => exact recv_from_tracked ops fuel room
  | recv room => exact recv_tracked ops fuel room true
  | flush => exact read_after flushes fun _ => read_nothing
  | sendTo buf => exact read_after (send_to_tracked ops fuel buf) fun _ => read_nothing
  | close => exact read_after closes fun _ => read_nothing

/-- Whatever is called and whatever the network does, the socket agrees with the monitor of its
    trace, and the monitor has given out what the calls returned. -/
theorem run_calls_tracked (calls : List Call) : ∀ out w, Tracked r out known w →
    Tracked r (out ++ (runCalls ops fuel calls w).1) known (runCalls ops fuel calls w).2 := by
  induction calls with
  | nil =>
    intro out w tracked
    simpa [runCalls] using tracked
  | cons c rest ih =>
    intro out w tracked
    have read := call_tracked ops fuel c w tracked
    unfold runCalls
    rcases ended : c.run ops fuel w with ⟨outcome, w'⟩
    rw [ended] at read
    cases outcome with
    | ok bytes =>
      have after := ih (out ++ bytes) w' (by simpa [ReadFor] using read)
      simpa using after
    | err e => exact ih out w' read
    | panic | unfinished => simpa [ReadFor] using read

end Calls

end UtpTracking
