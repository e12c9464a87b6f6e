import Mathlib.Data.List.Chain
import Bittorrent.Utp.Window

/-!
The numbers of the packets that wait for an acknowledgement or for being sent. `send` takes a packet
off the queue before it is sent, and forgets it if sending fails. As long as nothing fails inside
`send_to`, the numbers follow one another up to the next one to be given out.
-/
namespace UtpNumbering
open Rust Action UtpPacket UtpSocket UtpStream UtpWalk UtpFrame UtpWindow List

/-- Each number is one more than the one before, modulo 2^16. -/
def Consecutive (numbers : List UInt16) : Prop := numbers.IsChain fun n m => m = n + 1

/-- The packets of the window, in hand and in the queue have consecutive numbers up to the one that
    the next packet gets. -/
structure Numbered (hand : List Packet) (v : View) : Prop where
  steady : Steady v
  consecutive : Consecutive ((v.window ++ hand ++ v.queue).map (·.seqNr) ++ [v.seqNr])

section Numbers

theorem consecutive_extend {numbers : List UInt16} {next : UInt16}
    (whole : Consecutive (numbers ++ [next])) : Consecutive (numbers ++ [next, next + 1]) :=
  isChain_split.mpr ⟨whole, isChain_pair.mpr rfl⟩

theorem numbered_closed (hand : List Packet) : Closed (Numbered hand) where
  settled := fun _ numbered => numbered.steady.settled
  tallied := fun _ numbered => numbered.steady.tallied
  dropped := by
    intro v count numbered
    refine ⟨steady_closed.dropped v count numbered.steady, ?_⟩
    have whole := numbered.consecutive
    rw [← take_append_drop count v.window] at whole
    simp only [append_assoc, map_append] at whole
    have rest := List.IsChain.right_of_append whole
    unfold View.drop Consecutive
    simpa only [append_assoc, map_append] using rest
  retimed := by
    intro v first rest now numbered window
    refine ⟨steady_closed.retimed v first rest now numbered.steady window, ?_⟩
    have whole := numbered.consecutive
    rw [window] at whole
    exact whole
  moved := fun v state settled numbered =>
    ⟨steady_closed.moved v state settled numbered.steady, numbered.consecutive⟩
  scripts := fun v net sendOk numbered =>
    ⟨steady_closed.scripts v net sendOk numbered.steady, numbered.consecutive⟩

end Numbers

section Calm

/-- No read error, and no packet that ends the connection. -/
def Harmless : NetEvent → Prop
  | .datagram packet _ => ∀ p, packet = some p → p.ty ≠ .fin ∧ p.ty ≠ .reset
  | .timeout => True
  | .failure => False

/-- Every UDP send goes through, nothing ends the connection, and there are never as many read
    timeouts in a row as the socket puts up with. -/
structure Calm (v : View) : Prop where
  connected : v.state = .connected
  sends : false ∉ v.sendOk
  harmless : ∀ e ∈ v.net, Harmless e
  patient : ¬ List.replicate v.retries NetEvent.timeout <:+: v.net

structure CalmNumbered (hand : List Packet) (v : View) : Prop where
  calm : Calm v
  numbered : Numbered hand v

/-- As many timeouts as retries are left do not come next. -/
structure Patient (hand : List Packet) (retries : Nat) (v : View) : Prop where
  both : CalmNumbered hand v
  now : ¬ List.replicate retries NetEvent.timeout <+: v.net

theorem calm_read {v : View} {e : NetEvent} {rest : List NetEvent} (calm : Calm v)
    (script : v.net = e :: rest) : Calm { v with net := rest } := by
  have inside : rest <:+: v.net := by
    rw [script]
    exact (suffix_cons e rest).isInfix
  exact ⟨calm.connected, calm.sends, fun e' member => calm.harmless e' (inside.subset member),
    fun timeouts => calm.patient (timeouts.trans inside)⟩

theorem read_numbered {hand : List Packet} {v : View} {e : NetEvent} {rest : List NetEvent}
    (both : CalmNumbered hand v) (script : v.net = e :: rest) :
    CalmNumbered hand { v with net := rest } :=
  ⟨calm_read both.calm script, (numbered_closed hand).scripts v rest v.sendOk both.numbered⟩

variable (hand : List Packet)

theorem calm_sends : Sends (CalmNumbered hand) fun _ => False where
  caught := fun _ never => never.elim
  taken := by
    intro v rest both script
    refine ⟨⟨both.calm.connected, ?_, both.calm.harmless, both.calm.patient⟩,
      (numbered_closed hand).scripts v v.net rest both.numbered⟩
    intro refused
    exact both.calm.sends (by rw [script]; exact .tail _ refused)
  refused := fun v rest both script => both.calm.sends (by rw [script]; exact .head _)
  retimed := fun v first rest now both window =>
    ⟨{ both.calm with },
      (numbered_closed hand).retimed v first rest now both.numbered window⟩

theorem patient_sends (retries : Nat) :
    Sends (Patient hand retries) fun _ => False where
  caught := fun _ never => never.elim
  taken := fun v rest patient script =>
    ⟨(calm_sends hand).taken v rest patient.both script, patient.now⟩
  refused := fun v rest patient script => (calm_sends hand).refused v rest patient.both script
  retimed := fun v first rest now patient window =>
    ⟨(calm_sends hand).retimed v first rest now patient.both window, patient.now⟩

/-- While it is calm nothing that `send_to` calls returns an error. -/
theorem calm_frame :
    Frame (fun p => p.ty ≠ .fin ∧ p.ty ≠ .reset) (CalmNumbered hand) fun _ => False where
  toSends := calm_sends hand
  settled := fun _ both => both.numbered.steady.settled
  advances := tallied_advances (fun _ both => both.numbered.steady.tallied) fun v count both =>
    ⟨{ both.calm with }, (numbered_closed hand).dropped v count both.numbered⟩
  closes := by
    rintro v p both allowed (fin | finSent)
    · exact absurd fin allowed.1
    · rw [both.calm.connected] at finSent
      cases finSent
  resets := fun v p both allowed reset => allowed.2 reset
  stray := fun v both other => other both.calm.connected
  awaits := by
    refine triple_sock fun s => ?_
    rintro w ⟨both, rfl⟩
    have start : Patient hand w.socket.maxRetransmissionRetries (view w) :=
      ⟨both, fun timeouts => both.calm.patient timeouts.isInfix⟩
    refine await_datagram_ends (J := fun r w => Patient hand r (view w)) (fun _ _ patient => patient.both)
      (fun r => sends_steps (patient_sends hand r) []) ?_ ?_ ?_ ?_ _ w start
    · exact fun w patient => patient.now nil_prefix
    · intro r w packet src rest patient (script : (view w).net = _)
      refine ⟨read_numbered patient.both script, ?_⟩
      exact patient.both.calm.harmless (.datagram packet src) (by rw [script]; exact .head _)
    · intro r w rest patient (script : (view w).net = _)
      exact patient.both.calm.harmless .failure (by rw [script]; exact .head _)
    · intro r w rest patient (script : (view w).net = _)
      refine ⟨read_numbered patient.both script, ?_⟩
      intro timeouts
      apply patient.now
      rw [script, replicate_succ]
      exact cons_prefix_cons.mpr ⟨rfl, timeouts⟩

end Calm

section Sending
variable {α : Type} (ops : FloatOps)

/-- There is no error, and the invariant holds if the call returned. -/
structure Returned (I : View → Prop) (o : Outcome SocketError α) (w : World) : Prop where
  holds : ∀ a, o = .ok a → I (view w)
  fine : ∀ e, o ≠ .err e

theorem ends_returned {I : View → Prop} {o : Outcome SocketError α} {w : World}
    (ended : Ends (fun w => I (view w)) (fun _ => False) (fun _ _ => True) o w) : Returned I o w := by
  cases ended with
  | ok holds _ => exact ⟨fun _ _ => holds, nofun⟩
  | err never => exact never.elim
  | panic holds | unfinished holds => exact ⟨nofun, nofun⟩

theorem returned_bind {β : Type} {P : World → Prop} {I J : View → Prop} {m : Sock α} {f : α → Sock β}
    (first : Triple P m (Returned J))
    (rest : ∀ a, Triple (fun w => J (view w)) (f a) (Returned I)) :
    Triple P (m >>= f) (Returned I) := by
  refine triple_bind first ?_ ?_ ?_ ?_
  · exact fun a w returned => rest a w (returned.holds a rfl)
  · exact fun e w returned => absurd rfl (returned.fine e)
  · exact fun w _ => ⟨nofun, nofun⟩
  · exact fun w _ => ⟨nofun, nofun⟩


theorem push_sent_numbered {packet sent : Packet} (same : sent.seqNr = packet.seqNr) :
    Triple (fun w => CalmNumbered [packet] (view w)) (pushSent sent)
      (Returned (CalmNumbered [])) := by
  intro w both
  rw [push_sent_run]
  split
  · refine ⟨fun _ _ => ⟨?_, ?_, ?_⟩, nofun⟩
    · exact { both.calm with }
    · exact ⟨both.numbered.steady.settled, tallied_push both.numbered.steady.tallied sent⟩
    · have before := both.numbered.consecutive
      unfold view at before ⊢
      simp only [map_append, map_cons, map_nil, append_nil] at before ⊢
      rw [same]
      exact before
  · exact ⟨nofun, nofun⟩

theorem send_numbered (fuel rounds : Nat) :
    Triple (fun w => CalmNumbered [] (view w)) (send ops fuel rounds)
      (Returned (CalmNumbered [])) := by
  induction rounds with
  | zero => exact fun w _ => ⟨nofun, nofun⟩
  | succ rounds ih =>
    refine triple_sock fun s => ?_
    cases queue : s.unsentQueue with
    | nil => exact fun w read => ⟨fun _ _ => read.1, nofun⟩
    | cons packet rest =>
      have popped : Triple (fun w => CalmNumbered [] (view w) ∧ w.socket = s)
          (update fun s => { s with unsentQueue := rest })
          (Returned (CalmNumbered [packet])) := by
        rintro w ⟨both, rfl⟩
        refine ⟨fun _ _ => ⟨?_, ?_, ?_⟩, nofun⟩
        · exact { both.calm with }
        · exact ⟨both.numbered.steady.settled, both.numbered.steady.tallied⟩
        · have before := both.numbered.consecutive
          change Consecutive ((w.socket.sendWindow ++ [packet] ++ rest).map (·.seqNr) ++ [w.socket.seqNr])
          unfold view at before
          rw [queue] at before
          simpa using before
      have sent : Triple (fun w => CalmNumbered [packet] (view w))
          (sendPacket (nested ops fuel) fuel packet >>= fun sent => pushSent sent >>= fun _ => send ops fuel rounds)
          (Returned (CalmNumbered [])) := by
        have sound := sound_send_packet (frame_rules (calm_frame [packet]))
          (fun _ => sound_nested (calm_frame [packet]) ops fuel) fuel (mem_singleton_self packet.ackNr)
        refine triple_bind
          (triple_returns sound (send_packet_numbers fuel (nested ops fuel) packet)) ?_ ?_ ?_ ?_
        · rintro sent w ⟨ended, numbers⟩
          exact returned_bind (push_sent_numbered (numbers sent rfl).2) (fun _ => ih) w (ends_ok ended).1
        · rintro e w ⟨ended, _⟩
          cases ended with
          | err never => exact never.elim
        · exact fun w _ => ⟨nofun, nofun⟩
        · exact fun w _ => ⟨nofun, nofun⟩
      exact returned_bind popped fun _ => sent

theorem enqueue_numbered (chunk : Bytes) :
    Stays (CalmNumbered []) (fun _ => False) (enqueue chunk) := by
  apply sound_sock
  intro s
  apply sound_bind (sound_ite (fun _ => sound_pure _) fun _ => sound_abort)
  intro room w both
  refine .ok ⟨?_, ?_, ?_⟩ trivial
  · exact { both.calm with }
  · exact ⟨both.numbered.steady.settled, both.numbered.steady.tallied⟩
  · have before := consecutive_extend both.numbered.consecutive
    change Consecutive ((w.socket.sendWindow ++ [] ++ (w.socket.unsentQueue ++ [_])).map Packet.seqNr ++
      [w.socket.seqNr + 1])
    unfold view at before
    simpa using before

theorem send_to_numbered (fuel : Nat) (buf : Bytes) :
    Triple (fun w => CalmNumbered [] (view w)) (sendTo ops fuel buf)
      (Returned (CalmNumbered [])) := by
  refine triple_sock fun s => triple_ite ?_ ?_
  · rintro closed w ⟨both, rfl⟩
    have connected : w.socket.state = .connected := both.calm.connected
    rw [connected] at closed
    cases closed
  · intro _ w read
    have queued : Triple (fun w => CalmNumbered [] (view w))
        (Action.forEach enqueue (chunks buf.length buf)) (Returned (CalmNumbered [])) :=
      fun w both => ends_returned (sound_for_each enqueue_numbered _ w both)
    have finished : Triple (fun w => CalmNumbered [] (view w))
        (pure buf.length : Sock Nat) (Returned (CalmNumbered [])) :=
      fun w both => ⟨fun _ _ => both, nofun⟩
    exact returned_bind queued (fun _ => returned_bind (send_numbered ops fuel fuel)
      fun _ => finished) w read.1

end Sending

section Runs
variable (ops : FloatOps)

/-- Calls on a connected socket, one after the other, each with surroundings of its own. A call
    returned a value or an error. -/
inductive Run (Meets : Call → World → Prop) (start : Socket) : Socket → Prop where
  | none : Run Meets start start
  | call {w w' : World} {o : Outcome SocketError Bytes} (before : Run Meets start w.socket)
      (connected : w.socket.state = .connected) (fuel : Nat) (c : Call) (meets : Meets c w)
      (ended : c.run ops fuel w = (o, w')) (returned : o ≠ .panic ∧ o ≠ .unfinished) :
      Run Meets start w'.socket

structure Fresh (s : Socket) : Prop where
  connected : s.state = .connected
  window : s.sendWindow = []
  queue : s.unsentQueue = []
  inFlight : s.currWindow = 0

/-- What a call of `send_to` has to meet. -/
def CalmSend (c : Call) (w : World) : Prop := ∀ buf, c = .sendTo buf → Calm (view w)

theorem fresh_numbered {w : World} (fresh : Fresh w.socket) : Numbered [] (view w) := by
  refine ⟨⟨?_, ?_⟩, ?_⟩
  · change w.socket.state ≠ .new ∧ w.socket.state ≠ .synSent
    rw [fresh.connected]
    simp
  · change w.socket.currWindow = lengths w.socket.sendWindow
    rw [fresh.inFlight, fresh.window]
    rfl
  · unfold view
    rw [fresh.window, fresh.queue]
    exact isChain_singleton _

theorem call_numbered {w w' : World} {o : Outcome SocketError Bytes} {fuel : Nat} {c : Call}
    (numbered : Numbered [] (view w)) (calm : CalmSend c w) (ended : c.run ops fuel w = (o, w'))
    (returned : o ≠ .panic ∧ o ≠ .unfinished) : Numbered [] (view w') := by
  by_cases sends : ∃ buf, c = .sendTo buf
  · obtain ⟨buf, rfl⟩ := sends
    have after := returned_bind (send_to_numbered ops fuel buf)
      (I := CalmNumbered []) (f := fun _ => (pure [] : Sock Bytes))
      (fun _ w both => ⟨fun _ _ => both, nofun⟩) w ⟨calm buf rfl, numbered⟩
    change Returned _ ((Call.sendTo buf).run ops fuel w).1 ((Call.sendTo buf).run ops fuel w).2 at after
    rw [ended] at after
    cases o with
    | ok bytes => exact (after.holds bytes rfl).numbered
    | err e => exact absurd rfl (after.fine e)
    | panic => exact absurd rfl returned.1
    | unfinished => exact absurd rfl returned.2
  · have after := closed_call ops (numbered_closed []) fuel c (fun buf same => sends ⟨buf, same⟩) w numbered
    rw [ended] at after
    exact ends_either after

theorem run_numbered {start s : Socket} (fresh : Fresh start) (run : Run ops CalmSend start s) :
    ∀ w : World, w.socket = s → Numbered [] (view w) := by
  induction run with
  | none =>
    rintro w rfl
    exact fresh_numbered fresh
  | call before connected fuel c calm ended returned ih =>
    rename_i w w' o
    intro world same
    have after := call_numbered ops (ih w rfl) calm ended returned
    have shown : view world = { view w' with net := world.net, sendOk := world.sendOk } := by
      unfold view
      rw [same]
    rw [shown]
    exact (numbered_closed []).scripts _ _ _ after

/-- After every call, the numbers of the packets in the window and in the queue are consecutive and
    end right before the next one, if `send_to` is only called while the network is calm. -/
theorem numbers_consecutive {start s : Socket} (fresh : Fresh start) (run : Run ops CalmSend start s) :
    Consecutive ((s.sendWindow ++ s.unsentQueue).map (·.seqNr) ++ [s.seqNr]) := by
  have numbered := (run_numbered ops fresh run ⟨s, [], [], [], [], []⟩ rfl).consecutive
  unfold view at numbered
  simpa using numbered

def firstCall : World := ((Call.sendTo [97]).run plainFloat 2 (meeting [])).2

def secondCall : World := ((Call.sendTo [98]).run plainFloat 2 firstCall).2

theorem two_calls_consecutive :
    secondCall.socket.sendWindow.map (·.seqNr) = [1, 2] ∧
    Consecutive ((secondCall.socket.sendWindow ++ secondCall.socket.unsentQueue).map (·.seqNr) ++
      [secondCall.socket.seqNr]) := by
  have calm : ∀ w : World, w.socket.state = .connected → w.socket.maxRetransmissionRetries = 5 →
      w.sendOk = [] → w.net = [] → Calm (view w) := by
    intro w connected retries sendOk net
    refine ⟨connected, ?_, ?_, ?_⟩
    · change false ∉ w.sendOk
      simp [sendOk]
    · change ∀ e ∈ w.net, Harmless e
      simp [net]
    · change ¬ List.replicate w.socket.maxRetransmissionRetries NetEvent.timeout <:+: w.net
      simp [net, retries]
  have first : Run plainFloat CalmSend connectedSocket firstCall.socket :=
    .call (w := meeting []) (o := .ok []) .none rfl 2 (.sendTo [97])
      (fun _ _ => calm _ rfl rfl rfl rfl) rfl (by simp)
  have second : Run plainFloat CalmSend connectedSocket secondCall.socket :=
    .call (w := firstCall) (o := .ok []) first rfl 2 (.sendTo [98])
      (fun _ _ => calm _ rfl rfl rfl rfl) rfl (by simp)
  exact ⟨rfl, numbers_consecutive plainFloat ⟨rfl, rfl, rfl, rfl⟩ second⟩

/-- The second packet is taken off the queue, and UDP does not take it. -/
def refusing : World := { firstCall with sendOk := [false] }

def refusedCall : World := ((Call.sendTo [98]).run plainFloat 2 refusing).2

/-- Packet 2 is nowhere, and the next one will be packet 3. -/
theorem refused_packet_forgotten :
    Fresh connectedSocket ∧ Run plainFloat (fun _ _ => True) connectedSocket refusedCall.socket ∧
    (Call.sendTo [98]).run plainFloat 2 refusing = (.err .io, refusedCall) ∧
    (refusedCall.socket.sendWindow ++ refusedCall.socket.unsentQueue).map (·.seqNr) = [1] ∧
    refusedCall.socket.seqNr = 3 ∧
    ¬ Consecutive ((refusedCall.socket.sendWindow ++ refusedCall.socket.unsentQueue).map (·.seqNr) ++
      [refusedCall.socket.seqNr]) := by
  have first : Run plainFloat (fun _ _ => True) connectedSocket firstCall.socket :=
    .call (w := meeting []) (o := .ok []) .none rfl 2 (.sendTo [97]) trivial rfl (by simp)
  have failed : (Call.sendTo [98]).run plainFloat 2 refusing = (.err .io, refusedCall) := rfl
  have numbers : (refusedCall.socket.sendWindow ++ refusedCall.socket.unsentQueue).map (·.seqNr) = [1] :=
    rfl
  have next : refusedCall.socket.seqNr = 3 := rfl
  have second : Run plainFloat (fun _ _ => True) connectedSocket refusedCall.socket :=
    .call (w := refusing) first rfl 2 (.sendTo [98]) trivial failed (by simp)
  refine ⟨⟨rfl, rfl, rfl, rfl⟩, second, failed, numbers, next, ?_⟩
  rw [numbers, next]
  intro chain
  have following := isChain_pair.mp chain
  cases following

end Runs

end UtpNumbering
