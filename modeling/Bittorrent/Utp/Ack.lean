import Bittorrent.Utp.Stream

/-!
Cumulative acknowledgements. Along a run the acknowledgement number is unrolled to a position in
the peer's stream. It moves forward only, over packets that have come in, as long as the packets
that advance it are the stream's own and reads take them out of the buffer in step with it.
A State packet that carries the next sequence number is enough to acknowledge data that never
came, and a short read can move the number back.
-/
namespace UtpAck
open Rust UtpPacket UtpReceive UtpSocket UtpTrace UtpTracking UtpStream Serial List

variable {base : UInt16} {stream : List Bytes}

/-- The `i`-th data packet of the stream has come in. -/
def Received (base : UInt16) (stream : List Bytes) (trace : List Event) (i : Nat) : Prop :=
  ∃ p, .follow p ∈ trace ∧ IsPacket base stream p i

/-- The number is that of its position in the stream, and everything up to there has come in. -/
structure Truthful (base : UInt16) (stream : List Bytes) (r : ReceiveSide) (trace : List Event) :
    Prop where
  number : ∃ k : Nat, (monitorOf r trace).position = k ∧ (monitorOf r trace).rx.ackNr = at16 base k
  received : ∀ i : Nat, (i : Int) < (monitorOf r trace).position → i < stream.length →
    Received base stream trace i

def Takes (r : ReceiveSide) (room : Nat) (front : Packet) : Prop :=
  r.incomingBuffer.head? = some front ∧
    if r.pendingData = [] then
      r.ackNr = front.seqNr ∨ r.ackNr.toNat + 1 = front.seqNr.toNat
    else
      r.pendingData.length ≤ room

/-- What advances the number is the next data packet or the Fin behind the last one, and what a
    read takes out is the packet acknowledged last or the one behind it. -/
def Sound (base : UInt16) (stream : List Bytes) (m : Monitor) : Event → Prop
  | .follow p => p.seqNr - m.rx.ackNr = 1 →
      (∃ i, IsPacket base stream p i ∧ m.position = i) ∨
      (p.ty = .fin ∧ (stream.length : Int) ≤ m.position)
  | .flush room _ => ∀ front, Takes m.rx room front →
      ∃ i : Nat, IsPacket base stream front i ∧ (m.position = i ∨ m.position = i + 1)
  | _ => True

/-- What holds between the steps of a sound run: a truthful number, and a buffer that holds only
    what came in. -/
structure Accounted (base : UInt16) (stream : List Bytes) (trace : List Event) (m : Monitor) : Prop where
  number : ∃ k : Nat, m.position = k ∧ m.rx.ackNr = at16 base k
  received : ∀ i : Nat, (i : Int) < m.position → i < stream.length → Received base stream trace i
  buffered : ∀ q ∈ m.rx.incomingBuffer, .follow q ∈ trace
  held : ∀ p, m.held = some p → .follow p ∈ trace

section Steps
variable {r rx : ReceiveSide} {trace : List Event} {m m' : Monitor} {e : Event} {p : Packet}

/-- The number stays where it is, or it moves over the packet at its position, unless the stream had
    ended. -/
theorem account_step (accounted : Accounted base stream trace m)
    (stepped : m'.position = (m.moveTo m'.rx).position)
    (moved : m'.rx.ackNr = m.rx.ackNr ∨ m'.rx.ackNr = m.rx.ackNr + 1 ∧
      ∀ i : Nat, m.position = i → i < stream.length → Received base stream (e :: trace) i)
    (buffered : ∀ q ∈ m'.rx.incomingBuffer, .follow q ∈ e :: trace)
    (held : ∀ p, m'.held = some p → .follow p ∈ e :: trace) :
    Accounted base stream (e :: trace) m' ∧ m.position ≤ m'.position := by
  obtain ⟨k, isPosition, isNumber⟩ := accounted.number
  have earlier : ∀ i : Nat, (i : Int) < m.position → i < stream.length →
      Received base stream (e :: trace) i := by
    intro i below inside
    obtain ⟨p, member, isPacket⟩ := accounted.received i below inside
    exact ⟨p, .tail _ member, isPacket⟩
  change m'.position = m.position + signed16 (m'.rx.ackNr - m.rx.ackNr) at stepped
  rcases moved with same | ⟨next, covered⟩
  · rw [same, UInt16.sub_self, show signed16 0 = 0 by decide, Int.add_zero] at stepped
    refine ⟨⟨⟨k, stepped.trans isPosition, same.trans isNumber⟩, ?_, buffered, held⟩, by omega⟩
    rwa [stepped]
  · rw [next, UInt16.add_comm, UInt16.add_sub_cancel, show signed16 1 = 1 by decide] at stepped
    refine ⟨⟨⟨k + 1, by omega, ?_⟩, ?_, buffered, held⟩, by omega⟩
    · rw [next, isNumber, at16_add_one]
    · intro i below inside
      rcases Int.lt_or_eq_of_le (show (i : Int) ≤ m.position by omega) with before | here
      · exact earlier i before inside
      · exact covered i here.symm inside

/-- A sound step keeps the account and does not move the number back. -/
def Forward (base : UInt16) (stream : List Bytes) (trace : List Event) (m : Monitor) (e : Event) : Prop :=
  Accounted base stream (e :: trace) (m.step e) ∧ m.position ≤ (m.step e).position

section
variable (accounted : Accounted base stream trace m)
include accounted

theorem follow_forward (sound : Sound base stream m (.follow p)) :
    Forward base stream trace m (.follow p) := by
  have came : .follow p ∈ Event.follow p :: trace := by simp
  refine account_step accounted rfl ?_ ?_ ?_
  · change (m.rx.follow p).ackNr = _ ∨ (m.rx.follow p).ackNr = _ ∧ _
    unfold ReceiveSide.follow
    split
    next next =>
      refine .inr ⟨(UInt16.sub_eq_iff_eq_add.mp next).trans (UInt16.add_comm _ _), ?_⟩
      intro i here inside
      rcases sound next with ⟨j, isPacket, there⟩ | ⟨_, ended⟩
      · have same : j = i := by omega
        exact ⟨p, came, same ▸ isPacket⟩
      · omega
    next => exact .inl rfl
  · have buffer : (m.rx.follow p).incomingBuffer = m.rx.incomingBuffer := by
      unfold ReceiveSide.follow
      split <;> rfl
    intro q member
    exact .tail _ (accounted.buffered q (buffer ▸ member))
  · intro q isHeld
    change (if _ then some p else none) = some q at isHeld
    split at isHeld
    · cases isHeld
      exact came
    · cases isHeld

theorem store_forward (isHeld : m.held = some p) : Forward base stream trace m (.store p) := by
  obtain ⟨buffer, inserted, origin⟩ := insert_cases m.rx p
  have stepped : m.step (.store p) =
      { m.moveTo { m.rx with incomingBuffer := buffer } with held := none } := by
    rw [Monitor.step, inserted]
  unfold Forward
  rw [stepped]
  refine account_step accounted rfl (.inl rfl) (fun q member => .tail _ ?_) (by simp)
  rcases origin q member with new | old
  · exact new ▸ accounted.held p isHeld
  · exact accounted.buffered q old

theorem still_forward (same : m.step e = m) : Forward base stream trace m e := by
  unfold Forward
  rw [same]
  refine account_step accounted ?_ (.inl rfl) (fun q member => .tail _ (accounted.buffered q member))
    fun q isHeld => .tail _ (accounted.held q isHeld)
  simp [Monitor.moveTo, show signed16 0 = 0 by decide]

/-- A read does not move the number, or moves it over a packet that it takes out. -/
theorem read_forward {taken : Nat} {out : Bytes}
    (stepped : m.step e = { m.moveTo rx with taken := taken, out := out })
    (moved : rx.ackNr = m.rx.ackNr ∨ rx.ackNr = m.rx.ackNr + 1 ∧
      ∃ front ∈ m.rx.incomingBuffer, ∃ i : Nat, IsPacket base stream front i ∧ m.position = i)
    (buffer : rx.incomingBuffer ⊆ m.rx.incomingBuffer) : Forward base stream trace m e := by
  unfold Forward
  rw [stepped]
  refine account_step accounted rfl (moved.imp_right ?_)
    (fun q member => .tail _ (accounted.buffered q (buffer member)))
    fun q isHeld => .tail _ (accounted.held q isHeld)
  rintro ⟨next, front, member, i, isPacket, place⟩
  refine ⟨next, fun j here _ => ⟨front, .tail _ (accounted.buffered front member), ?_⟩⟩
  have same : i = j := by omega
  exact same ▸ isPacket

theorem take_forward {kept : Bytes} {front : Packet} {rest : List Packet} {taken : Nat} {out : Bytes}
    (buffer : m.rx.incomingBuffer = front :: rest)
    (stepped : m.step e =
      { m.moveTo (ReceiveSide.removeFront front rest kept) with taken := taken, out := out })
    (sound : ∃ i : Nat, IsPacket base stream front i ∧ (m.position = i ∨ m.position = i + 1)) :
    Forward base stream trace m e := by
  obtain ⟨i, isPacket, place⟩ := sound
  obtain ⟨k, isPosition, isNumber⟩ := accounted.number
  refine read_forward accounted stepped ?_ (buffer ▸ subset_cons_self front rest)
  change front.seqNr = _ ∨ front.seqNr = _ ∧ _
  rw [isPacket.2.2, isNumber, at16_add_one]
  rcases place with next | last
  · have same : k = i := by omega
    exact .inr ⟨same ▸ rfl, front, buffer ▸ mem_cons_self, i, isPacket, next⟩
  · have same : k = i + 1 := by omega
    exact .inl (same ▸ rfl)

theorem flush_forward {caller : Bool} {room : Nat} (sound : Sound base stream m (.flush room caller)) :
    Forward base stream trace m (.flush room caller) := by
  cases result : (m.rx.flushIncomingBuffer room : Outcome Unit (Bytes × ReceiveSide)) with
  | ok answer =>
    obtain ⟨bytes, rx⟩ := answer
    have stepped : ∃ taken out, m.step (.flush room caller) =
        { m.moveTo rx with taken := taken, out := out } :=
      ⟨_, _, by simp only [Monitor.step, result]; rfl⟩
    obtain ⟨taken, out, stepped⟩ := stepped
    cases ReceiveSide.flush_ok_iff.mp result with
    | partly | exhausted | idle | gap =>
      exact read_forward accounted stepped (.inl rfl) (List.Subset.refl _)
    | next pending enough buffer =>
      apply take_forward accounted buffer stepped
      apply sound
      exact ⟨by rw [buffer]; rfl, by rwa [if_neg pending]⟩
    | due done buffer inOrder =>
      apply take_forward accounted buffer stepped
      apply sound
      exact ⟨by rw [buffer]; rfl, by rwa [if_pos done]⟩
  | err e | panic | unfinished =>
    exact still_forward accounted (by simp only [Monitor.step, result])

theorem sound_forward (sound : Sound base stream m e) (stores : ∀ p, e = .store p → m.held = some p) :
    Forward base stream trace m e := by
  cases e with
  | follow p => exact follow_forward accounted sound
  | store p => exact store_forward accounted (stores p rfl)
  | flush room caller => exact flush_forward accounted sound
  | send p => exact still_forward accounted rfl

end

/-- Along a sound run everything stays accounted for and the number moves forward only. -/
theorem sound_run (start : Accounted base stream [] (Monitor.start r))
    (steps : AllSteps (fun m e => Sound base stream m e ∧ ∀ p, e = .store p → m.held = some p)
      r trace) :
    ∀ before, before <:+ trace → Accounted base stream before (monitorOf r before) ∧
      ∀ e rest, before = e :: rest →
        (monitorOf r rest).position ≤ (monitorOf r before).position := by
  induction trace with
  | nil =>
    intro before suffix
    rw [suffix_nil.mp suffix]
    exact ⟨start, nofun⟩
  | cons e rest ih =>
    intro before suffix
    rcases suffix_cons_iff.mp suffix with whole | earlier
    · obtain ⟨after, forward⟩ :=
        sound_forward (ih steps.2 rest (suffix_refl _)).1 steps.1.1 steps.1.2
      rw [whole]
      refine ⟨after, ?_⟩
      intro e' rest' same
      cases same
      exact forward
    · exact ih steps.2 before earlier

end Steps

theorem ready_accounted {w : World} (ready : Ready w) (stream : List Bytes) :
    Accounted w.socket.ackNr stream [] (Monitor.start w.socket.toReceiveSide) := by
  refine ⟨⟨0, rfl, (at16_zero _).symm⟩, ?_, ?_, nofun⟩
  · intro i below
    exact absurd below (by simp [Monitor.start])
  · intro q member
    have empty : q ∈ w.socket.incomingBuffer := member
    rw [ready.noBuffer] at empty
    cases empty

theorem sends_past {r : Origin} {trace rest : List Event} {p : Packet}
    (sends : SendsPast r trace) (sent : .send p :: rest <:+ trace) : Past r rest p.ackNr := by
  induction trace with
  | nil => exact absurd (suffix_nil.mp sent) (by simp)
  | cons e before ih =>
    rcases suffix_cons_iff.mp sent with whole | earlier
    · cases whole
      exact sends.1
    · cases e with
      | send q => exact ih sends.2 earlier
      | follow q | store q | flush room caller => exact ih sends earlier

/-- Whatever is called on a connected socket and whatever comes in: if every step is sound, then
    at every moment all data up to the acknowledgement number has come in, the number never moves
    back, and a packet that is sent carries the number of an earlier moment, unless it was queued
    before the run. -/
theorem acknowledged_received (ops : FloatOps) (fuel : Nat) (calls : List Call) (w : World)
    (stream : List Bytes) (ready : Ready w)
    (sound : AllSteps (Sound w.socket.ackNr stream) w.socket.toReceiveSide
      (runCalls ops fuel calls w).2.trace) :
    (monitorOf w.socket.toReceiveSide (runCalls ops fuel calls w).2.trace).rx =
      (runCalls ops fuel calls w).2.socket.toReceiveSide ∧
    ∀ before, before <:+ (runCalls ops fuel calls w).2.trace →
      Truthful w.socket.ackNr stream w.socket.toReceiveSide before ∧
      (∀ e rest, before = e :: rest → (monitorOf w.socket.toReceiveSide rest).position ≤
        (monitorOf w.socket.toReceiveSide before).position) ∧
      (∀ p rest, before = .send p :: rest →
        p.ackNr ∈ (w.socket.sendWindow ++ w.socket.unsentQueue).map (·.ackNr) ∨
        ∃ moment, moment <:+ rest ∧
          (monitorOf w.socket.toReceiveSide moment).rx.ackNr = p.ackNr ∧
          Truthful w.socket.ackNr stream w.socket.toReceiveSide moment) := by
  have tracked := run_calls_tracked ops fuel calls [] w (ready_tracked ready)
  have run := sound_run (ready_accounted ready stream) (all_steps_held sound tracked.stores)
  refine ⟨tracked.receive, ?_⟩
  intro before suffix
  obtain ⟨accounted, forward⟩ := run before suffix
  refine ⟨⟨accounted.number, accounted.received⟩, forward, ?_⟩
  intro p rest sent
  rcases sends_past tracked.sends (sent ▸ suffix) with quoted | ⟨moment, earlier, number⟩
  · exact .inl quoted
  · have later : rest <:+ before := sent ▸ suffix_cons _ _
    have there := (run moment (earlier.trans (later.trans suffix))).1
    exact .inr ⟨moment, earlier, number, there.number, there.received⟩

section Runs

/-- Two packets in the wrong order: the first reply acknowledges nothing, the second one the
    first packet, and the last read moves the number over the second. -/
theorem acknowledged_received_swapped :
    (runCalls plainFloat 2 [.recv 4, .recv 4, .recvFrom 4] swapped).2.socket.ackNr = 2 ∧
    Received 0 [[97, 98], [99, 100]]
      (runCalls plainFloat 2 [.recv 4, .recv 4, .recvFrom 4] swapped).2.trace 1 := by
  have takes : ∀ {m : Monitor} (front : Packet) (i : Nat),
      m.rx.incomingBuffer.head? = some front → IsPacket 0 [[97, 98], [99, 100]] front i →
      (m.position = i ∨ m.position = i + 1) →
      Sound 0 [[97, 98], [99, 100]] m (.flush 4 true) := by
    intro m front i isFront isPacket place other taken
    have same := isFront.symm.trans taken.1
    cases same
    exact ⟨i, isPacket, place⟩
  have sound : AllSteps (Sound 0 [[97, 98], [99, 100]]) swapped.socket.toReceiveSide
      (runCalls plainFloat 2 [.recv 4, .recv 4, .recvFrom 4] swapped).2.trace := by
    rw [swapped_trace]
    refine ⟨takes (dataPacket 2 [99, 100]) 1 (by decide) ⟨rfl, rfl, rfl⟩ (.inl (by decide)),
      takes (dataPacket 1 [97, 98]) 0 (by decide) ⟨rfl, rfl, rfl⟩ (.inr (by decide)), trivial,
      trivial, ?_, ?_, trivial, trivial, ?_, trivial⟩
    · exact fun _ => .inl ⟨0, ⟨rfl, rfl, rfl⟩, by decide⟩
    · intro front taken
      cases taken.1
      exact absurd taken.2 (by decide)
    · intro next
      exact absurd next (by decide)
  obtain ⟨socket, moments⟩ := acknowledged_received plainFloat 2 [.recv 4, .recv 4, .recvFrom 4]
    swapped [[97, 98], [99, 100]] (meeting_ready _) sound
  refine ⟨by decide +kernel, (moments _ (suffix_refl _)).1.received 1 ?_ (by decide)⟩
  rw [swapped_trace]
  decide

/-- A State packet that carries the next sequence number, and the packet behind the missing one. -/
def acknowledging : World :=
  meeting [{ Packet.new with ty := .state, connectionId := 1, seqNr := 1 },
    dataPacket 2 [99, 100]]

/-- Three packets in order, of which the first is read in two parts. -/
def rewinding : World :=
  { meeting [dataPacket 1 [97, 98], dataPacket 2 [99, 100], dataPacket 3 [101, 102]] with
    net := (meeting [dataPacket 1 [97, 98], dataPacket 2 [99, 100],
      dataPacket 3 [101, 102]]).net ++ [.failure] }

/-- The first packet of the stream is acknowledged although it never came; and with all packets
    in order a read moves the number from 3 back to 2. -/
theorem acknowledged_missing :
    (Ready acknowledging ∧
      .send (acknowledgement 2) ∈ (runCalls plainFloat 3 [.recvFrom 4] acknowledging).2.trace ∧
      ¬ Received 0 [[97, 98], [99, 100]]
        (runCalls plainFloat 3 [.recvFrom 4] acknowledging).2.trace 0) ∧
    (Ready rewinding ∧
      (runCalls plainFloat 4 [.recvFrom 1, .recvFrom 0] rewinding).2.socket.ackNr = 3 ∧
      (runCalls plainFloat 4 [.recvFrom 1, .recvFrom 0, .recvFrom 1] rewinding).2.socket.ackNr =
        2) := by
  have steps : (runCalls plainFloat 3 [.recvFrom 4] acknowledging).2.trace =
      [.flush 4 true, .store (dataPacket 2 [99, 100]), .send (acknowledgement 2),
        .follow (dataPacket 2 [99, 100]), .flush 4 true,
        .follow { Packet.new with ty := .state, connectionId := 1, seqNr := 1 },
        .flush 4 true] := rfl
  refine ⟨⟨meeting_ready _, ?_, ?_⟩, ⟨⟨rfl, rfl, rfl, rfl⟩, by decide +kernel,
    by decide +kernel⟩⟩
  · rw [steps]
    simp
  · rw [steps]
    intro received
    obtain ⟨p, came, isPacket⟩ := received
    simp only [mem_cons, reduceCtorEq, Event.follow.injEq, not_mem_nil, or_false,
      false_or] at came
    rcases came with second | state
    · exact absurd (second ▸ isPacket.2.2) (by decide)
    · exact absurd (state ▸ isPacket.1) (by decide)

end Runs

end UtpAck
