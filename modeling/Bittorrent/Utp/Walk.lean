import Bittorrent.Utp.Socket

/-!
One walk over the functions that call each other in a circle. An invariant that allows for their single
steps is kept by all of them, however deep the calls nest; a call that ends in an error may end in another
invariant. The steps are those of the congestion control, which touch nothing else, reading and sending
datagrams, and following, storing and taking out packets. `known` lists the acknowledgement numbers of
packets in hand.
-/
namespace UtpWalk
open Rust Outcome Action UtpPacket UtpReceive UtpSocket

section Sound
variable {α β : Type} {P I E : World → Prop} {V : α → World → Prop} {V' : β → World → Prop}

/-- The invariant holds however the code ends, except that `E` holds after an error. `V` holds of a value
    that is returned. -/
inductive Ends (I E : World → Prop) (V : α → World → Prop) : Outcome SocketError α → World → Prop where
  | ok {a : α} {w : World} (holds : I w) (value : V a w) : Ends I E V (.ok a) w
  | err {e : SocketError} {w : World} (holds : E w) : Ends I E V (.err e) w
  | panic {w : World} (holds : I w) : Ends I E V .panic w
  | unfinished {w : World} (holds : I w) : Ends I E V .unfinished w

def Sound (I E : World → Prop) (m : Sock α) : Prop := Triple I m (Ends I E fun _ _ => True)

variable {w : World}

theorem ends_ok {a : α} (ended : Ends I E V (.ok a) w) : I w ∧ V a w := by
  cases ended with
  | ok holds value => exact ⟨holds, value⟩

theorem ends_either {o : Outcome SocketError α} (ended : Ends I I V o w) : I w := by
  cases ended with
  | ok holds _ | err holds | panic holds | unfinished holds => exact holds

theorem ends_weaken {I' E' : World → Prop} {W : α → World → Prop} {o : Outcome SocketError α}
    (ended : Ends I E V o w) (inv : ∀ w, I w → I' w) (failed : ∀ w, E w → E' w)
    (value : ∀ a w, V a w → W a w) : Ends I' E' W o w := by
  cases ended with
  | ok holds result => exact .ok (inv _ holds) (value _ _ result)
  | err holds => exact .err (failed _ holds)
  | panic holds => exact .panic (inv _ holds)
  | unfinished holds => exact .unfinished (inv _ holds)

theorem ends_value {W : α → World → Prop} {o : Outcome SocketError α} (ended : Ends I E V o w)
    (value : ∀ a w, V a w → W a w) : Ends I E W o w :=
  ends_weaken ended (fun _ h => h) (fun _ h => h) value

variable {m : Sock α}

theorem ends_then {K : World → Prop} {f : α → Sock β} {Q : Outcome SocketError β → World → Prop}
    (first : Triple P m (Ends K E V)) (rest : ∀ a, Triple (fun w => K w ∧ V a w) (f a) Q)
    (stopped : ∀ o w, Ends K E (fun _ _ => False) o w → Q o w) : Triple P (m >>= f) Q := by
  refine triple_bind first (fun a w ended => rest a w (ends_ok ended)) ?_ ?_ ?_
  · intro e w ended
    cases ended with
    | err holds => exact stopped _ w (.err holds)
  · intro w ended
    cases ended with
    | panic holds => exact stopped _ w (.panic holds)
  · intro w ended
    cases ended with
    | unfinished holds => exact stopped _ w (.unfinished holds)

/-- Sequencing where the first part has a stronger invariant than the whole. -/
theorem ends_bind {K : World → Prop} {f : α → Sock β} (first : Triple P m (Ends K E V))
    (weaker : ∀ w, K w → I w) (rest : ∀ a, Triple (fun w => K w ∧ V a w) (f a) (Ends I E V')) :
    Triple P (m >>= f) (Ends I E V') :=
  ends_then first rest fun _ _ ended => ends_weaken ended weaker (fun _ h => h) fun _ _ never => never.elim

theorem sound_bind {f : α → Sock β} (first : Sound I E m)
    (rest : ∀ a, Triple I (f a) (Ends I E V')) : Triple I (m >>= f) (Ends I E V') :=
  ends_bind first (fun _ holds => holds) fun a w holds => rest a w holds.1

theorem sound_pure (a : α) : Sound I E (pure a : Sock α) := fun _ holds => .ok holds trivial

variable {Q : Outcome SocketError β → World → Prop}

theorem triple_sock {f : Socket → Sock β}
    (rest : ∀ s, Triple (fun w => P w ∧ w.socket = s) (f s) Q) : Triple P (sock >>= f) Q :=
  fun w holds => rest w.socket w ⟨holds, rfl⟩

theorem triple_now {f : UInt32 → Sock β}
    (clock : ∀ w c, P w → P { w with clock := c }) (rest : ∀ t, Triple P (f t) Q) :
    Triple P (nowMicroseconds >>= f) Q := by
  intro w holds
  rw [Action.bind_eq]
  unfold nowMicroseconds
  cases w.clock with
  | nil => exact rest 0 w holds
  | cons t later => exact rest t _ (clock w later holds)

theorem sound_sock {f : Socket → Sock β} (rest : ∀ s, Triple I (f s) (Ends I E V')) :
    Triple I (sock >>= f) (Ends I E V') :=
  triple_sock fun s w holds => rest s w holds.1

theorem sound_abort : Sound I E (Action.abort : Sock α) := fun _ holds => .panic holds

theorem sound_cut_off : Sound I E (Action.cutOff : Sock α) := fun _ holds => .unfinished holds

theorem sound_ite {c : Prop} [Decidable c] {m' : Sock α} (yes : c → Sound I E m)
    (no : ¬ c → Sound I E m') : Sound I E (if c then m else m') :=
  triple_ite yes no

theorem ends_lift {m : Outcome SocketError α} (fine : ∀ e, m ≠ .err e) (weaker : ∀ w, P w → I w)
    (value : ∀ a w, m = .ok a → P w → V a w) : Triple P (Action.lift m) (Ends I E V) := by
  intro w holds
  cases m with
  | err e => exact absurd rfl (fine e)
  | ok a => exact .ok (weaker w holds) (value a w rfl holds)
  | panic => exact .panic (weaker w holds)
  | unfinished => exact .unfinished (weaker w holds)

theorem sound_lift {m : Outcome SocketError α} (fine : ∀ e, m ≠ .err e) : Sound I E (Action.lift m) :=
  ends_lift fine (fun _ holds => holds) fun _ _ _ _ => trivial

theorem ends_ignore (caught : ∀ w, E w → I w) (inner : Triple P m (Ends I E V)) :
    Triple P (Action.ignore m) (Ends I E fun _ _ => True) := by
  intro w holds
  have after := inner w holds
  unfold Action.ignore
  rcases ended : m w with ⟨o, w'⟩
  rw [ended] at after
  cases after with
  | err failed => exact .ok (caught _ failed) trivial
  | ok holds _ => exact .ok holds trivial
  | panic holds => exact .panic holds
  | unfinished holds => exact .unfinished holds

theorem sound_for_each {γ : Type} {body : γ → Sock Unit} (each : ∀ x, Sound I E (body x)) (list : List γ) :
    Sound I E (Action.forEach body list) := by
  induction list with
  | nil => exact sound_pure _
  | cons x rest ih => exact sound_bind (each x) fun _ => ih

theorem sound_u32_add (a b : Nat) : Sound I E (u32Add a b) :=
  sound_ite (fun _ => sound_pure _) fun _ => sound_abort

theorem sound_u32_sub (a b : Nat) : Sound I E (u32Sub a b) :=
  sound_ite (fun _ => sound_pure _) fun _ => sound_abort

theorem sound_u64_mul (a b : Nat) : Sound I E (u64Mul a b) :=
  sound_ite (fun _ => sound_pure _) fun _ => sound_abort

theorem sound_i32 (n : Int) : Sound I E (i32 n) :=
  sound_ite (fun _ => sound_pure _) fun _ => sound_abort

end Sound

section Fine

theorem u16_add_fine (a b : UInt16) (e : SocketError) : u16Add a b ≠ .err e := by
  unfold u16Add
  split <;> simp

theorem u16_sub_fine (a b : UInt16) (e : SocketError) : u16Sub a b ≠ .err e := by
  unfold u16Sub
  split <;> simp

theorem stashed_fine (ackNr : UInt16) (e : SocketError) : ∀ buffer : List Packet,
    ReceiveSide.stashed ackNr buffer ≠ .err e := by
  intro buffer
  induction buffer with
  | nil => nofun
  | cons p rest ih =>
    apply bind_ne_err (u16_add_fine _ _ e)
    intro next _
    split
    · apply bind_ne_err (u16_sub_fine _ _ e)
      intro past _
      apply bind_ne_err (u16_sub_fine _ _ e)
      intro diff _
      exact bind_ne_err ih fun later _ => nofun
    · exact ih

theorem build_sack_fine (r : ReceiveSide) (e : SocketError) : r.buildSelectiveAck ≠ .err e :=
  bind_ne_err (stashed_fine _ e _) fun _ _ => nofun

theorem set_sack_fine (p : Packet) (sack : Bytes) (e : SocketError) : p.setSack sack ≠ .err e := by
  unfold Packet.setSack
  split <;> simp

theorem set_sack_ack {p sent : Packet} {sack : Bytes}
    (built : (p.setSack sack : Outcome SocketError Packet) = .ok sent) : sent.ackNr = p.ackNr := by
  unfold Packet.setSack at built
  split at built
  · cases built
    rfl
  · cases built

theorem flush_fine (r : ReceiveSide) (room : Nat) (e : SocketError) :
    r.flushIncomingBuffer room ≠ .err e := by
  unfold ReceiveSide.flushIncomingBuffer
  split
  · dsimp only
    split
    · split <;> simp
    · simp
  · split
    · simp
    · apply bind_ne_err
      · split
        · simp
        · exact bind_ne_err (u16_add_fine _ _ e) fun _ _ => nofun
      · intro due _
        split <;> simp

end Fine

section Still
variable {J E : World → Prop}

/-- A change of fields that the receiving half, the queues and the connection do not show. -/
structure Quiet (s s' : Socket) : Prop where
  receive : s'.toReceiveSide = s.toReceiveSide
  state : s'.state = s.state
  window : s'.sendWindow = s.sendWindow
  queue : s'.unsentQueue = s.unsentQueue
  inFlight : s'.currWindow = s.currWindow
  seqNr : s'.seqNr = s.seqNr
  retries : s'.maxRetransmissionRetries = s.maxRetransmissionRetries

structure Still (J : World → Prop) : Prop where
  quiet : ∀ w s, J w → Quiet w.socket s → J { w with socket := s }
  clock : ∀ w c, J w → J { w with clock := c }

variable (still : Still J)
include still

theorem sound_quiet {f : Socket → Socket}
    (quiet : ∀ s, Quiet s (f s) := by exact fun _ => ⟨rfl, rfl, rfl, rfl, rfl, rfl, rfl⟩) : Sound J E (update f) :=
  fun w holds => .ok (still.quiet w _ holds (quiet w.socket)) trivial

theorem sound_now : Sound J E nowMicroseconds := by
  intro w holds
  unfold nowMicroseconds
  cases w.clock with
  | nil => exact .ok holds trivial
  | cons t rest => exact .ok (still.clock w rest holds) trivial

theorem read_clock {s : Socket} (w : World) (c : List UInt32) (read : J w ∧ w.socket = s) :
    J { w with clock := c } ∧ w.socket = s := ⟨still.clock w c read.1, read.2⟩

theorem sound_measure (ops : FloatOps) (packet : Packet) : Sound J E (measure ops packet) := by
  apply sound_sock
  intro s
  cases s.sendWindow.findIdx? fun p => packet.ackNr = p.seqNr with
  | none => exact sound_pure _
  | some index =>
    apply sound_bind (sound_now still)
    intro now
    apply sound_bind
    · refine sound_quiet still fun s => ?_
      split
      · exact ⟨rfl, rfl, rfl, rfl, rfl, rfl, rfl⟩
      · repeat' split
        all_goals exact ⟨rfl, rfl, rfl, rfl, rfl, rfl, rfl⟩
    intro _
    apply sound_bind
    · exact sound_quiet still
    intro _
    apply sound_sock
    intro s
    apply sound_bind
    · refine sound_sock fun s => sound_bind (sound_u32_add _ _) fun bound => ?_
      exact sound_quiet still
    intro _
    refine sound_sock fun s => sound_sock fun s => ?_
    refine sound_bind (sound_i32 _) fun _ => sound_bind (sound_i32 _) fun _ => ?_
    refine sound_bind (sound_i32 _) fun _ => sound_bind (sound_i32 _) fun _ => ?_
    refine sound_bind (sound_i32 _) fun _ => sound_bind (sound_i32 _) fun _ => ?_
    refine sound_bind (sound_i32 _) fun _ => sound_bind (sound_i32 _) fun _ => ?_
    exact sound_quiet still

theorem sound_count_ack (packet : Packet) : Sound J E (countAck packet) := by
  apply sound_sock
  intro s
  apply sound_ite
  · intro _
    apply sound_bind (sound_u32_add _ _)
    exact fun count => sound_quiet still
  · intro _
    apply sound_bind (sound_now still)
    exact fun now => sound_quiet still

theorem sound_halve_window (lost : Bool) : Sound J E (halveWindow lost) :=
  sound_ite (fun _ => sound_quiet still) fun _ => sound_pure _

theorem sound_note_header (packet : Packet) : Sound J E (noteHeader packet) := by
  apply sound_bind
  · exact sound_quiet still
  · intro _
    apply sound_bind (sound_now still)
    exact fun _ => sound_quiet still

/-- The packet acknowledges what the socket does. -/
def Current (packet : Packet) (w : World) : Prop := packet.ackNr = w.socket.ackNr

theorem reply_current (original : Packet) (t : PacketType) :
    Triple J (prepareReply original t) (Ends J E Current) := by
  refine triple_sock fun s => triple_now (read_clock still) fun now => ?_
  rintro w ⟨holds, rfl⟩
  exact .ok holds rfl

omit still

theorem sack_current (packet reply : Packet) :
    Triple (fun w => J w ∧ Current reply w) (withSack packet reply) (Ends J E Current) := by
  refine triple_sock fun s => triple_ite (fun _ => ?_) fun _ => ?_
  · refine ends_bind (K := fun w => J w ∧ Current reply w) (V := fun _ _ => True)
      (ends_lift (build_sack_fine _) (fun _ read => read.1) fun _ _ _ _ => trivial)
      (fun _ holds => holds.1) fun sack => triple_ite (fun _ => ?_) fun _ => ?_
    · apply ends_lift (set_sack_fine _ _)
      · exact fun _ read => read.1.1
      · exact fun sent w built read => (set_sack_ack built).trans read.1.2
    · exact fun w read => .ok read.1.1 read.1.2
  · exact fun w read => .ok read.1.1 read.1.2

end Still

section Sending
variable {known : List UInt16} {I E : World → Prop}

/-- The acknowledgement number is the current one, or one of a packet in hand or in the window. -/
def Quotes (known : List UInt16) (packet : Packet) (w : World) : Prop :=
  packet.ackNr = w.socket.ackNr ∨ packet.ackNr ∈ known ∨ packet.ackNr ∈ w.socket.sendWindow.map (·.ackNr)

/-- What sending and timeouts need. -/
structure Steps (known : List UInt16) (I E : World → Prop) : Prop extends Still I where
  caught : ∀ w, E w → I w
  sent : ∀ w packet, I w → Quotes known packet w → I { w with trace := .send packet :: w.trace }
  taken : ∀ w rest, I w → w.sendOk = true :: rest → I { w with sendOk := rest }
  refused : ∀ w rest, I w → w.sendOk = false :: rest → E { w with sendOk := rest }
  retimed : ∀ w first rest now, I w → w.socket.sendWindow = first :: rest →
    I { w with socket := { w.socket with sendWindow := { first with timestamp := now } :: rest } }

/-- The packet that was followed last, if nothing was stored or taken out since. -/
def latest : List Event → Option Packet
  | .send _ :: before => latest before
  | .follow packet :: _ => some packet
  | _ => none

variable (steps : Steps known I E)
include steps

variable {packet : Packet}

theorem udp_send_ends (followed : Option Packet) :
    Triple (fun w => I w ∧ Quotes known packet w ∧ latest w.trace = followed) (udpSend packet)
      (Ends I E fun _ w => latest w.trace = followed) := by
  rintro w ⟨holds, quotes, same⟩
  have after := steps.sent w packet holds quotes
  change Ends _ _ _ (Action.andThen (record (.send packet)) _ w).1 (Action.andThen (record (.send packet)) _ w).2
  unfold Action.andThen record Action.modify
  dsimp only
  split
  · rename_i rest script
    exact .err (steps.refused _ rest after script)
  · rename_i rest script
    exact .ok (steps.taken _ rest after script) same
  · exact .ok after same

theorem sound_udp_send :
    Triple (fun w => I w ∧ Quotes known packet w) (udpSend packet) (Ends I E fun _ _ => True) :=
  fun w holds => ends_value (udp_send_ends steps (latest w.trace) w ⟨holds.1, holds.2, rfl⟩)
    fun _ _ _ => trivial

theorem send_current {s : Socket} (same : packet.ackNr = s.ackNr) :
    Triple (fun w => I w ∧ w.socket = s) (udpSend packet) (Ends I E fun _ _ => True) := by
  rintro w ⟨holds, rfl⟩
  exact sound_udp_send steps w ⟨holds, .inl same⟩

theorem sound_fast_resend_request : Sound I E sendFastResendRequest := by
  apply sound_for_each
  intro _
  refine triple_sock fun s => triple_now (read_clock steps.toStill) fun now => ?_
  exact ends_ignore steps.caught (send_current steps rfl)

theorem sound_receive_timeout : Sound I E handleReceiveTimeout := by
  apply sound_sock
  intro s
  apply sound_bind (sound_u64_mul _ _)
  intro doubled
  apply sound_bind
  · exact sound_quiet steps.toStill
  refine fun _ => triple_sock fun s => ?_
  cases window : s.sendWindow with
  | nil =>
    dsimp only
    split
    · exact triple_now (read_clock steps.toStill) fun now => send_current steps rfl
    · split
      · exact fun w read => sound_fast_resend_request steps w read.1
      · exact fun w read => .ok read.1 trivial
  | cons first rest =>
    refine triple_now (read_clock steps.toStill) fun now => ?_
    rintro w ⟨holds, rfl⟩
    -- the resent packet keeps the acknowledgement number it was queued with
    exact sound_udp_send steps _ ⟨steps.retimed w first rest now holds window, .inr (.inr (by simp))⟩

omit steps

theorem sound_advance (popped : ∀ w, I w →
      I { w with socket := { w.socket with sendWindow := w.socket.sendWindow.drop 1 } })
    (counted : ∀ w left, I w → I { w with socket := { w.socket with currWindow := left } }) :
    Sound I E advanceSendWindow := by
  have forgets : ∀ packets, Sound I E (forget packets) := by
    intro packets
    induction packets with
    | nil => exact sound_pure _
    | cons packet rest ih =>
      refine sound_bind (fun w holds => .ok (popped w holds) trivial) fun _ => ?_
      refine sound_sock fun s => sound_bind (sound_u32_sub _ _) fun left => ?_
      exact sound_bind (fun w holds => .ok (counted w left holds) trivial) fun _ => ih
  apply sound_sock
  intro s
  cases s.sendWindow.findIdx? fun p => p.seqNr = s.lastAcked with
  | none => exact sound_pure _
  | some position => exact forgets _

variable {ops : FloatOps} {fuel : Nat}

theorem sound_flush (read : Sound I E (recv ops fuel 0 true)) : Sound I E (flush ops fuel) := by
  have loop : ∀ rounds, Sound I E (flushLoop ops fuel rounds) := by
    intro rounds
    induction rounds with
    | zero => exact sound_cut_off
    | succ rounds ih =>
      refine sound_sock fun s => sound_ite (fun _ => sound_pure _) fun _ => ?_
      exact sound_bind read fun _ => ih
  exact loop fuel

theorem sound_close (steps : Steps known I E) (flushes : Sound I E (flush ops fuel))
    (read : Sound I E (recv ops fuel bufSize false))
    (finSent : ∀ w, I w → I { w with socket := { w.socket with state := .finSent } }) :
    Sound I E (close ops fuel) := by
  have loop : ∀ rounds, Sound I E (closeLoop ops fuel rounds) := by
    intro rounds
    induction rounds with
    | zero => exact sound_cut_off
    | succ rounds ih =>
      refine sound_sock fun s => sound_ite (fun _ => sound_pure _) fun _ => ?_
      exact sound_bind read fun _ => ih
  refine sound_sock fun s => sound_ite (fun _ => sound_pure _) fun _ => sound_bind flushes fun _ => ?_
  refine sound_bind (sound_now steps.toStill) fun now => triple_sock fun s => ?_
  refine ends_bind (send_current steps rfl) (fun _ holds => holds) fun _ w after => ?_
  exact sound_bind (fun w holds => .ok (finSent w holds) True.intro) (fun _ => loop fuel) w after.1

end Sending

/-- What is known after a read of the UDP socket, with `J` for another try. -/
def Read (A : Packet → Prop) (I E J : World → Prop) : Outcome SocketError NetEvent → World → Prop
  | .ok (.datagram packet _), w => I w ∧ ∀ p, packet = some p → A p
  | .ok .failure, w => E w
  | .ok .timeout, w => J w
  | .unfinished, w => I w
  | .err _, _ => False
  | .panic, _ => False

/-- A packet that was waited for is one of `A`. -/
def Awaited (A : Packet → Prop) (received : Option Packet × SocketAddr) (_ : World) : Prop :=
  ∀ p, received.1 = some p → A p

/-- Waiting for a datagram, with `J` for the retries that are left. -/
theorem await_datagram_ends {known : List UInt16} {I E : World → Prop} {A : Packet → Prop}
    {J : Nat → World → Prop} (weaker : ∀ r w, J r w → I w) (each : ∀ r, Steps known (J r) E)
    (timedOut : ∀ w, J 0 w → E { w with socket := { w.socket with state := .closed } })
    (datagram : ∀ r w packet src rest, J (r + 1) w → w.net = .datagram packet src :: rest →
      I { w with net := rest } ∧ ∀ p, packet = some p → A p)
    (failure : ∀ r w rest, J (r + 1) w → w.net = .failure :: rest → E { w with net := rest })
    (timeout : ∀ r w rest, J (r + 1) w → w.net = .timeout :: rest → J r { w with net := rest }) :
    ∀ retries, Triple (J retries) (awaitDatagram retries) (Ends I E (Awaited A)) := by
  intro retries
  induction retries with
  | zero => exact fun w holds => .err (timedOut w holds)
  | succ retries ih =>
    refine triple_sock fun s => triple_ite (fun _ => ?_) fun _ => ?_
    · exact fun w holds => .panic (weaker _ _ holds.1)
    · refine triple_bind (Q := Read A I E (J retries)) ?_ ?_ ?_ ?_ ?_
      · rintro w ⟨holds, _⟩
        unfold udpRecv
        cases script : w.net with
        | nil => exact weaker _ _ holds
        | cons e rest =>
          cases e with
          | datagram packet src => exact datagram retries w packet src rest holds script
          | failure => exact failure retries w rest holds script
          | timeout => exact timeout retries w rest holds script
      · intro e
        cases e with
        | datagram packet src => exact fun w read => .ok read.1 read.2
        | failure => exact fun w failed => .err failed
        | timeout =>
          exact ends_bind (sound_receive_timeout (each retries)) (weaker retries)
            fun _ w holds => ih w holds.1
      · exact fun e w never => never.elim
      · exact fun w never => never.elim
      · exact fun w after => .unfinished after

/-- What `handle_packet` needs besides, for the packets in `A`. -/
structure Rules (A : Packet → Prop) (I E : List UInt16 → World → Prop) : Prop where
  steps : ∀ known, Steps known (I known) (E known)
  learns : ∀ known w packet, I known w → packet ∈ w.socket.sendWindow → I (packet.ackNr :: known) w
  forgets : ∀ known ack w, (I (ack :: known) w → I known w) ∧ (E (ack :: known) w → E known w)
  settled : ∀ known w, I known w → w.socket.state ≠ .new ∧ w.socket.state ≠ .synSent
  closes : ∀ known w packet, I known w → A packet → packet.ty = .fin ∨ w.socket.state = .finSent →
    I known { w with socket := { w.socket with state := .closed } }
  resets : ∀ known w packet, I known w → A packet → packet.ty = .reset →
    E known { w with socket := { w.socket with state := .resetReceived } }
  stray : ∀ known w, I known w → w.socket.state ≠ .connected → E known w
  advances : ∀ known, Sound (I known) (E known) advanceSendWindow
  follows : ∀ known w packet, I known w → I known { w with
    socket := { w.socket with toReceiveSide := w.socket.toReceiveSide.follow packet }
    trace := .follow packet :: w.trace }
  stores : ∀ known w packet, I known w → latest w.trace = some packet → packet.ty = .data →
    0 < packet.seqNr - w.socket.lastDropped → I known { w with
      socket := { w.socket with toReceiveSide := w.socket.toReceiveSide.insertIntoBuffer packet }
      trace := .store packet :: w.trace }
  flushes : ∀ known room, Sound (I known) (E known) (flushBuffer room false)
  awaits : ∀ known, Triple (I known) (sock >>= fun s => awaitDatagram s.maxRetransmissionRetries)
    (Ends (I known) (E known) (Awaited A))

section Circle
variable {A : Packet → Prop} {I E : List UInt16 → World → Prop} {known : List UInt16} (rules : Rules A I E)
  (ops : FloatOps) {inner : Nat → Sock Bytes} (kept : ∀ known room, Sound (I known) (E known) (inner room))
include rules

theorem rules_still : Still (I known) := (rules.steps known).toStill

include kept

theorem sound_await_window (maxInflight : Nat) (start : UInt32) (rounds : Nat) :
    Sound (I known) (E known) (awaitWindow inner maxInflight start rounds) := by
  induction rounds with
  | zero => exact sound_cut_off
  | succ rounds ih =>
    refine sound_sock fun s => sound_ite (fun _ => sound_pure _) fun _ => ?_
    apply sound_bind (sound_now (rules_still rules))
    intro now
    exact sound_ite (fun _ => sound_bind (kept known _) fun _ => ih) fun _ => sound_pure _

variable {packet : Packet}

variable (rounds : Nat)

theorem sound_send_packet (hand : packet.ackNr ∈ known) :
    Sound (I known) (E known) (sendPacket inner rounds packet) := by
  refine sound_sock fun s => sound_bind (sound_now (rules_still rules)) fun start => ?_
  apply sound_bind (sound_await_window rules kept _ _ _)
  intro _
  refine sound_bind (sound_now (rules_still rules)) fun now => sound_sock fun s => ?_
  refine sound_bind (fun w holds => ?_) fun _ => sound_pure _
  exact sound_udp_send (rules.steps known) w ⟨holds, .inr (.inl hand)⟩

omit rules kept in
theorem send_packet_numbers (inner : Nat → Sock Bytes) (packet : Packet) :
    Returns (fun sent => sent.ackNr = packet.ackNr ∧ sent.seqNr = packet.seqNr)
      (sendPacket inner rounds packet) := by
  refine returns_bind fun s => returns_bind fun start => ?_
  refine returns_bind fun _ => returns_bind fun now => ?_
  refine returns_bind fun s => returns_bind fun _ => ?_
  exact returns_pure ⟨rfl, rfl⟩

theorem sound_resend (nr : UInt16) :
    Sound (I known) (E known) (resendLostPacket inner rounds nr) := by
  apply triple_sock
  intro s
  cases found : s.sendWindow.find? fun p => p.seqNr = nr with
  | none => exact fun w read => .ok read.1 trivial
  | some packet =>
    rintro w ⟨holds, rfl⟩
    have sent : Sound (I (packet.ackNr :: known)) (E (packet.ackNr :: known))
        (Action.ignore (sendPacket inner rounds packet)) :=
      ends_ignore (rules.steps _).caught (sound_send_packet rules kept rounds (.head _))
    exact ends_weaken (sent w (rules.learns known w packet holds (List.mem_of_find?_eq_some found)))
      (fun w => (rules.forgets known _ w).1) (fun w => (rules.forgets known _ w).2) fun _ _ h => h

theorem sound_resend_missing (ackNr lastSeqNr : UInt16) (bits : List Bool) : ∀ idx,
    Sound (I known) (E known) (resendMissing inner rounds ackNr lastSeqNr idx bits) := by
  induction bits with
  | nil => exact fun idx => sound_pure _
  | cons received rest ih =>
    intro idx
    apply sound_ite
    · exact fun _ => ih (idx + 1)
    · intro _
      apply sound_bind (sound_lift (u16_add_fine _ _))
      intro second
      apply sound_bind (sound_lift (u16_add_fine _ _))
      intro seqNr
      apply sound_ite
      · intro _
        apply sound_bind (sound_resend rules kept rounds seqNr)
        intro _
        exact sound_bind (ih (idx + 1)) fun _ => sound_pure _
      · exact fun _ => sound_pure _

theorem sound_process_extension (ackNr : UInt16) (lost : Bool) (extension : Extension) :
    Sound (I known) (E known) (processExtension inner rounds ackNr lost extension) := by
  have first : Sound (I known) (E known) (resendFirst inner rounds ackNr lost extension) := by
    apply sound_ite
    · intro _
      apply sound_bind (sound_lift (u16_add_fine _ _))
      intro next
      exact sound_bind (sound_resend rules kept rounds next) fun _ => sound_pure _
    · exact fun _ => sound_pure _
  apply sound_ite
  · exact fun _ => sound_pure _
  · intro _
    refine sound_bind first fun lost => sound_sock fun s => ?_
    cases s.sendWindow.getLast? with
    | none => exact sound_pure _
    | some last =>
      exact sound_bind (sound_resend_missing rules kept rounds ackNr _ _ _) fun _ => sound_pure _

theorem sound_process_extensions (ackNr : UInt16) (extensions : List Extension) : ∀ lost,
    Sound (I known) (E known) (processExtensions inner rounds ackNr lost extensions) := by
  induction extensions with
  | nil => exact fun lost => sound_pure _
  | cons e rest ih =>
    intro lost
    exact sound_bind (sound_process_extension rules kept rounds ackNr lost e) fun _ => ih _

theorem sound_fast_resend (packet : Packet) :
    Sound (I known) (E known) (fastResend inner rounds packet) := by
  apply sound_sock
  intro s
  apply sound_ite
  · intro _
    apply sound_bind (sound_lift (u16_add_fine _ _))
    exact fun next => sound_resend rules kept rounds next
  · exact fun _ => sound_pure _

theorem sound_handle_state_packet (packet : Packet) :
    Sound (I known) (E known) (handleStatePacket ops inner rounds packet) := by
  apply sound_bind (sound_count_ack (rules_still rules) packet)
  intro _
  refine sound_bind (sound_measure (rules_still rules) ops packet) fun _ => sound_sock fun s => ?_
  apply sound_bind (sound_process_extensions rules kept rounds _ _ _)
  intro lost
  apply sound_bind (sound_fast_resend rules kept rounds packet)
  intro _
  exact sound_bind (sound_halve_window (rules_still rules) lost) fun _ => rules.advances known

/-- The reply acknowledges what the socket does, and nothing was read since a data packet was followed. -/
structure Answers (packet : Packet) (reply : Option Packet) (w : World) : Prop where
  current : ∀ q, reply = some q → Current q w
  followed : packet.ty = .data → latest w.trace = some packet

/-- The packet is being handled in this state. -/
structure Handling (I : World → Prop) (packet : Packet) (state : SocketState) (w : World) : Prop where
  holds : I w
  followed : latest w.trace = some packet
  state : w.socket.state = state

omit kept in
theorem still_handling {state : SocketState} : Still (Handling (I known) packet state) where
  quiet := fun w s handling quiet =>
    ⟨(rules_still rules).quiet w s handling.holds quiet, handling.followed, quiet.state.trans handling.state⟩
  clock := fun w c handling => ⟨(rules_still rules).clock w c handling.holds, handling.followed, handling.state⟩

/-- Code that comes to a reply while the packet is being handled. -/
def Replies (I E : World → Prop) (packet : Packet) (state : SocketState) (m : Sock (Option Packet)) : Prop :=
  Triple (Handling I packet state) m (Ends I E (Answers packet))

omit rules kept in
theorem handling_replied {state : SocketState} {m : Sock Packet}
    (main : Triple (Handling (I known) packet state) m (Ends (Handling (I known) packet state) (E known) Current)) :
    Replies (I known) (E known) packet state (m >>= fun reply => pure (some reply)) := by
  refine ends_bind main (fun _ handling => handling.holds) fun reply w after => ?_
  refine .ok after.1.holds ⟨?_, fun _ => after.1.followed⟩
  rintro q ⟨⟩
  exact after.2

variable (src : SocketAddr)

/-- Past the handshake no arm of `handle_packet` touches the receiving half. -/
theorem dispatch_ends (state : SocketState) (ty : PacketType)
    (allowed : A packet) (same : packet.ty = ty) :
    Replies (I known) (E known) packet state (dispatch ops inner rounds packet src state ty) := by
  have still : Still (Handling (I known) packet state) := still_handling rules
  have nothing : packet.ty ≠ .data → ∀ w : World, Answers packet none w :=
    fun other w => ⟨nofun, fun isData => absurd isData other⟩
  have sacked : ∀ t, Triple (Handling (I known) packet state)
      (prepareReply packet t >>= fun reply => withSack packet reply)
      (Ends (Handling (I known) packet state) (E known) Current) :=
    fun t => ends_bind (reply_current still packet t) (fun _ handling => handling) (sack_current packet)
  have data : Replies (I known) (E known) packet state
      (handleDataPacket packet >>= fun reply => pure (some reply)) :=
    handling_replied (triple_sock fun s w read => sacked _ w read.1)
  have acknowledged : packet.ty ≠ .data → Triple (I known)
      (handleStatePacket ops inner rounds packet >>= fun _ => (pure none : Sock (Option Packet)))
      (Ends (I known) (E known) (Answers packet)) := fun other =>
    sound_bind (sound_handle_state_packet rules ops kept rounds packet)
      fun _ w holds => .ok holds (nothing other w)
  -- the reply to a FIN is built before the socket closes
  have closing : packet.ty = .fin → Replies (I known) (E known) packet state (do
      let reply ← prepareReply packet .state
      let reply ← withSack packet reply
      update fun s => { s with state := .closed }
      pure (some reply)) := by
    intro isFin
    refine ends_bind (reply_current still packet .state) (fun _ handling => handling.holds) fun reply => ?_
    refine ends_bind (sack_current packet reply) (fun _ handling => handling.holds) fun reply w after => ?_
    refine .ok (rules.closes known w packet after.1.holds allowed (.inl isFin)) ⟨?_, ?_⟩
    · rintro q ⟨⟩
      exact after.2
    · rw [isFin]
      nofun
  unfold dispatch
  split
  · exact fun w handling => absurd handling.state (rules.settled _ _ handling.holds).1
  · exact handling_replied (reply_current still packet .reset)
  · exact fun w handling => absurd handling.state (rules.settled _ _ handling.holds).2
  · exact fun w handling => absurd handling.state (rules.settled _ _ handling.holds).2
  · exact data
  · exact data
  · exact fun w handling => acknowledged (by rw [same]; nofun) w handling.holds
  · exact closing same
  · exact closing same
  · exact handling_replied (reply_current still packet .state)
  · have other : packet.ty ≠ .data := by
      rw [same]
      nofun
    refine triple_sock fun s => triple_ite ?_ ?_
    · rintro _ w ⟨handling, _⟩
      exact .ok (rules.closes known w packet handling.holds allowed (.inr handling.state)) (nothing other _)
    · exact fun _ w read => acknowledged other w read.1.holds
  · exact fun w handling => .err (rules.resets known w packet handling.holds allowed same)
  · rintro w handling
    apply Ends.err
    apply rules.stray known w handling.holds
    intro connected
    have isConnected : state = .connected := handling.state.symm.trans connected
    subst isConnected
    cases ty <;> simp_all

theorem handle_packet_ends (allowed : A packet) :
    Triple (I known) (handlePacket ops inner rounds packet src)
      (Ends (I known) (E known) (Answers packet)) := by
  intro w holds
  have followed := rules.follows known w packet holds
  have answered : ∀ state, Replies (I known) (E known) packet state
      (answerPacket ops inner rounds packet src) := by
    intro state
    apply triple_sock
    intro s
    have still : Still (Handling (I known) packet s.state) := still_handling rules
    refine triple_weaken (P := Handling (I known) packet s.state) (triple_ite (fun _ => ?_) fun _ => ?_)
      (fun w read => ⟨read.1.holds, read.1.followed, by rw [read.2]⟩) fun _ _ after => after
    · exact handling_replied (reply_current still packet .reset)
    · refine ends_bind (sound_note_header still packet) (fun _ handling => handling.holds) fun _ w after => ?_
      exact dispatch_ends rules ops kept rounds src s.state packet.ty allowed rfl w after.1
  exact answered w.socket.state _ ⟨followed, rfl, rfl⟩

theorem sound_receive_packet (allowed : A packet) :
    Sound (I known) (E known) (receivePacket ops inner rounds packet src) := by
  refine ends_bind (handle_packet_ends rules ops kept rounds src allowed) (fun _ holds => holds) fun reply => ?_
  have replies : Triple (fun w => I known w ∧ Answers packet reply w) (sendReply reply)
      (Ends (I known) (E known) fun _ w => packet.ty = .data → latest w.trace = some packet) := by
    rintro w ⟨holds, answers⟩
    cases reply with
    | none => exact .ok holds answers.followed
    | some q =>
      have quotes : Quotes known { q with wndSize := windowSize } w := .inl (answers.current q rfl)
      refine ends_value (udp_send_ends (rules.steps known) (latest w.trace) w ⟨holds, quotes, rfl⟩)
        fun _ _ same isData => ?_
      rw [same]
      exact answers.followed isData
  refine ends_bind replies (fun _ holds => holds) fun _ => triple_sock fun s => ?_
  apply triple_ite
  · rintro stored w ⟨⟨holds, followed⟩, rfl⟩
    exact .ok (rules.stores known w packet holds (followed stored.1) stored.1 stored.2) trivial
  · exact fun _ w read => .ok read.1.1 trivial

/-- What `recv` leaves, for every way in which the flush at its end is seen. -/
theorem recv_with_ends (known : List UInt16) {Q : Outcome SocketError Bytes → World → Prop} (rounds room : Nat)
    (caller : Bool)
    (flushes : Triple (I known) (flushBuffer room caller) Q)
    (ended : ∀ o w, Ends (I known) (E known) (fun bytes _ => bytes = []) o w → Q o w) :
    Triple (I known) (recvWith ops inner rounds room caller) Q := by
  have stopped : ∀ o w, Ends (I known) (E known) (fun _ _ => False) o w → Q o w := fun o w stop =>
    ended o w (ends_value stop fun _ _ never => never.elim)
  unfold recvWith
  rw [← bind_assoc]
  refine ends_then (rules.awaits known) ?_ stopped
  rintro ⟨decoded, src⟩ w ⟨holds, allowed⟩
  cases decoded with
  | none => exact ended _ w (.ok holds rfl)
  | some packet =>
    exact ends_then (sound_receive_packet rules ops kept rounds src (allowed packet rfl))
      (fun _ w after => flushes w after.1) stopped w holds

omit kept

theorem sound_inner_recv (fuel : Nat) : ∀ known room,
    Sound (I known) (E known) (recv ops fuel room false) := by
  induction fuel with
  | zero => exact fun known room => sound_cut_off
  | succ fuel ih =>
    intro known room
    exact recv_with_ends rules ops ih known fuel room false (rules.flushes known room) fun o w ended =>
      ends_value ended fun _ _ _ => trivial

end Circle

end UtpWalk
