import Bittorrent.Lib.Serial
import Bittorrent.Utp.Tracking

/-!
What the caller of a connected socket reads is a prefix of the peer's stream, as long as every
step of the run is orderly: packets come in whose predecessors of the last one read do not come
again, the buffer never spans the wrap of the sequence numbers, no reply fails to be sent, and no
read empties the pending data while the next packet is missing. Each of these can go wrong.
-/
namespace UtpStream
open Rust UtpPacket UtpReceive UtpSocket UtpTrace UtpTracking Serial List

variable {base : UInt16} {stream : List Bytes}

/-- The data packet with the `i`-th payload of the stream, which is numbered from `base + 1`. -/
def IsPacket (base : UInt16) (stream : List Bytes) (p : Packet) (i : Nat) : Prop :=
  p.ty = .data ∧ stream[i]? = some p.payload ∧ p.seqNr = at16 base (i + 1)

/-- Position `i` is due or lies ahead by less than half the sequence numbers. -/
def InWindow (taken i : Nat) : Prop := taken ≤ i ∧ i < taken + 2 ^ 15

/-- The 16-bit order of the packet and of those in the buffer is their order in the stream. -/
def Unwrapped (base : UInt16) (stream : List Bytes) (m : Monitor) (p : Packet) (i : Nat) : Prop :=
  ∀ q ∈ m.rx.incomingBuffer, ∀ j, IsPacket base stream q j → InWindow m.taken j →
    (p.seqNr < q.seqNr ↔ i < j)

/-- A packet that comes in: one of the stream, at most as old as the last one taken, and not
    mistaken for it. -/
def Arrives (base : UInt16) (stream : List Bytes) (m : Monitor) (p : Packet) : Prop :=
  ∃ i, IsPacket base stream p i ∧ m.taken ≤ i + 1 ∧ i < m.taken + 2 ^ 15 ∧
    (m.taken ≤ i → p.seqNr ≠ m.rx.lastDropped) ∧ Unwrapped base stream m p i

/-- The steps after which the stream is still intact. `held` is empty when the last data packet
    was stored, that is, when its acknowledgement could be sent. -/
def Orderly (base : UInt16) (stream : List Bytes) (m : Monitor) : Event → Prop
  | .follow p => m.held = none ∧ Arrives base stream m p
  | .store _ => True
  | .flush room caller => m.held = none ∧
      (caller = false → m.rx.pendingData = [] ∧ m.rx.incomingBuffer = []) ∧
      (m.rx.pendingData ≠ [] → m.rx.pendingData.length ≤ room →
        ∀ front ∈ m.rx.incomingBuffer.head?, front.seqNr = at16 base (m.taken + 1))
  | .send _ => True

def SeqSorted (packets : List Packet) : Prop := packets.Pairwise fun p q => p.seqNr < q.seqNr

section Insertion
variable {r : ReceiveSide} {packets : List Packet}

theorem insert_cases (r : ReceiveSide) (packet : Packet) : ∃ buffer,
    r.insertIntoBuffer packet = { r with incomingBuffer := buffer } ∧
      ∀ q ∈ buffer, q = packet ∨ q ∈ r.incomingBuffer := by
  unfold ReceiveSide.insertIntoBuffer
  split
  · refine ⟨_, rfl, fun q member => ?_⟩
    rcases mem_append.mp member with old | new
    · exact .inr old
    · exact .inl (mem_singleton.mp new)
  · dsimp only
    split
    · refine ⟨_, rfl, fun q member => ?_⟩
      rcases mem_append.mp member with early | later
      · exact .inr (mem_of_mem_take early)
      · exact (mem_cons.mp later).imp_right mem_of_mem_drop
    · exact ⟨_, rfl, fun q => .inr⟩

theorem sorted_parts (sorted : SeqSorted packets) (number : UInt16) :
    (∀ q ∈ packets.take (packets.filter fun p => p.seqNr < number).length, q.seqNr < number) ∧
      ∀ q ∈ packets.drop (packets.filter fun p => p.seqNr < number).length, ¬ q.seqNr < number := by
  induction packets with
  | nil => simp
  | cons q rest ih =>
    obtain ⟨above, tail⟩ := pairwise_cons.mp sorted
    by_cases less : q.seqNr < number
    · rw [filter_cons_of_pos (by simpa using less)]
      exact ⟨forall_mem_cons.mpr ⟨less, (ih tail).1⟩, (ih tail).2⟩
    · have none : ∀ p ∈ q :: rest, ¬ p.seqNr < number := forall_mem_cons.mpr
        ⟨less, fun p member small => less (UInt16.lt_trans (above p member) small)⟩
      rw [filter_eq_nil_iff.mpr (by simpa using none)]
      exact ⟨by simp, none⟩

theorem u16_lt_of_ne {x y : UInt16} (notLess : ¬ y < x) (apart : y ≠ x) : x < y := by
  rw [UInt16.lt_iff_toNat_lt] at *
  rw [ne_eq, ← UInt16.toNat_inj] at apart
  omega

theorem insert_sorted (sorted : SeqSorted r.incomingBuffer) (packet : Packet) :
    SeqSorted (r.insertIntoBuffer packet).incomingBuffer ∧
      r.incomingBuffer ⊆ (r.insertIntoBuffer packet).incomingBuffer ∧
      ∃ q ∈ (r.insertIntoBuffer packet).incomingBuffer, q.seqNr = packet.seqNr := by
  unfold ReceiveSide.insertIntoBuffer
  split
  next behind =>
    obtain ⟨final, isLast, less⟩ := (Option.any_eq_true _ _).mp behind
    have shape := dropLast_append_getLast? final isLast
    have above : ∀ q ∈ r.incomingBuffer, q.seqNr < packet.seqNr := by
      intro q member
      rw [← shape] at member sorted
      rcases mem_append.mp member with early | single
      · exact UInt16.lt_trans ((pairwise_append.mp sorted).2.2 q early final (by simp))
          (of_decide_eq_true less)
      · rw [mem_singleton.mp single]
        exact of_decide_eq_true less
    exact ⟨pairwise_append.mpr ⟨sorted, pairwise_singleton _ _, by simpa using above⟩,
      subset_append_left _ _, packet, by simp, rfl⟩
  next =>
    obtain ⟨below, above⟩ := sorted_parts sorted packet.seqNr
    dsimp only
    generalize (r.incomingBuffer.filter fun p => p.seqNr < packet.seqNr).length = i at *
    split
    next apart =>
      have rest : SeqSorted (r.incomingBuffer.drop i) := sorted.sublist (drop_sublist _ _)
      have after : ∀ q ∈ r.incomingBuffer.drop i, packet.seqNr < q.seqNr := by
        cases behind : r.incomingBuffer.drop i with
        | nil => simp
        | cons first others =>
          have there : r.incomingBuffer[i]? = some first := by
            rw [← List.head?_drop, behind]
            rfl
          have other := (Option.all_eq_true _ _).mp apart first there
          rw [behind] at above rest
          have next := u16_lt_of_ne (above first (.head _)) (of_decide_eq_true other)
          exact forall_mem_cons.mpr
            ⟨next, fun q member => UInt16.lt_trans next ((pairwise_cons.mp rest).1 q member)⟩
      refine ⟨pairwise_append.mpr ⟨sorted.sublist (take_sublist _ _),
        pairwise_cons.mpr ⟨after, rest⟩, ?_⟩, ?_, packet, by simp, rfl⟩
      · intro q early
        exact forall_mem_cons.mpr
          ⟨below q early, fun s late => UInt16.lt_trans (below q early) (after s late)⟩
      · intro q member
        rw [← take_append_drop i r.incomingBuffer] at member
        exact mem_append.mpr ((mem_append.mp member).imp_right (.tail _))
    next same =>
      obtain ⟨q, there, equal⟩ := (Option.all_eq_false _ _).mp (Bool.eq_false_iff.mpr same)
      exact ⟨sorted, List.Subset.refl _, q, mem_of_getElem? there, by simpa using equal⟩

end Insertion

/-- What holds between orderly steps: everything up to `taken` was given out or is pending, the
    packets in the buffer and in hand lie ahead, in order, and what is acknowledged beyond `taken`
    is among them. -/
structure Intact (base : UInt16) (stream : List Bytes) (m : Monitor) (a : Nat) : Prop where
  given : m.out ++ m.rx.pendingData = (stream.take m.taken).flatten
  dropped : m.taken ≠ 0 → m.rx.lastDropped = at16 base m.taken
  sorted : SeqSorted m.rx.incomingBuffer
  known : ∀ p, p ∈ m.rx.incomingBuffer ∨ m.held = some p →
    ∃ i, IsPacket base stream p i ∧ InWindow m.taken i ∧ Unwrapped base stream m p i
  ack : m.rx.ackNr = at16 base a
  reached : m.taken ≤ a ∧ a ≤ m.taken + 2 ^ 15
  acked : ∀ j, m.taken ≤ j → j < a →
    ∃ p, (p ∈ m.rx.incomingBuffer ∨ m.held = some p) ∧ IsPacket base stream p j

theorem u16_sub_pos {x y : UInt16} : 0 < x - y ↔ x ≠ y := by
  rw [UInt16.lt_iff_toNat_lt, UInt16.toNat_sub, ne_eq, ← UInt16.toNat_inj]
  have zero : (0 : UInt16).toNat = 0 := rfl
  have hx := x.toNat_lt
  have hy := y.toNat_lt
  rw [zero]
  omega

variable {m m' : Monitor} {a i j : Nat} {p q : Packet}

theorem number_eq_iff (first : IsPacket base stream p i) (second : IsPacket base stream q j)
    (near : i < j + 2 ^ 16 ∧ j < i + 2 ^ 16) : p.seqNr = q.seqNr ↔ i = j := by
  rw [first.2.2, second.2.2, at16_near (by omega) (by omega)]
  omega

theorem order_symm (first : IsPacket base stream p i) (second : IsPacket base stream q j)
    (near : i < j + 2 ^ 16 ∧ j < i + 2 ^ 16) (order : p.seqNr < q.seqNr ↔ i < j) :
    q.seqNr < p.seqNr ↔ j < i := by
  have equal := number_eq_iff first second near
  rw [UInt16.lt_iff_toNat_lt] at *
  rw [← UInt16.toNat_inj] at equal
  omega

theorem intact_follow (intact : Intact base stream m a) (free : m.held = none)
    (arrives : Arrives base stream m p) : ∃ a', Intact base stream (m.step (.follow p)) a' := by
  obtain ⟨i, isPacket, notOld, near, notDropped, unwrapped⟩ := arrives
  have reached := intact.reached
  have filter : 0 < p.seqNr - m.rx.lastDropped ↔ m.taken ≤ i := by
    rw [u16_sub_pos]
    constructor
    · intro other
      by_contra old
      have last : i + 1 = m.taken := by omega
      rw [isPacket.2.2, last, ← intact.dropped (by omega)] at other
      exact other rfl
    · exact notDropped
  have followed : m.rx.follow p = { m.rx with ackNr := at16 base (if i = a then a + 1 else a) } := by
    have next : p.seqNr - m.rx.ackNr = 1 ↔ i = a := by
      rw [isPacket.2.2, intact.ack, at16_follows]
      omega
    unfold ReceiveSide.follow
    simp only [next]
    split
    · rename_i here
      rw [isPacket.2.2, here]
    · rw [← intact.ack]
  have stepped : m.step (.follow p) = { m.moveTo (m.rx.follow p) with
      held := if m.taken ≤ i then some p else none } := by
    simp only [Monitor.step, isPacket.1, filter, true_and]
  rw [stepped, followed]
  refine ⟨if i = a then a + 1 else a, intact.given, intact.dropped, intact.sorted, ?_, rfl, ?_, ?_⟩
  · rintro q (buffered | isHeld)
    · exact intact.known q (.inl buffered)
    · dsimp only at isHeld
      split at isHeld
      · rename_i ahead
        cases isHeld
        exact ⟨i, isPacket, ⟨ahead, near⟩, unwrapped⟩
      · cases isHeld
  · change m.taken ≤ _ ∧ _ ≤ m.taken + _
    split <;> omega
  · intro j above below
    by_cases earlier : j < a
    · obtain ⟨q, old | isHeld, isOther⟩ := intact.acked j above earlier
      · exact ⟨q, .inl old, isOther⟩
      · rw [free] at isHeld
        cases isHeld
    · -- only the packet that comes in can be acknowledged now
      have last : j = i ∧ i = a := by
        split at below <;> omega
      refine ⟨p, .inr (if_pos (by omega)), ?_⟩
      rw [last.1]
      exact isPacket

theorem intact_store (intact : Intact base stream m a) (held : m.held = some p) :
    Intact base stream (m.step (.store p)) a := by
  obtain ⟨i, isPacket, ⟨low, high⟩, unwrapped⟩ := intact.known p (.inr held)
  have reached := intact.reached
  obtain ⟨buffer, inserted, origin⟩ := insert_cases m.rx p
  obtain ⟨sorted, more, twin, twinInside, equal⟩ := insert_sorted intact.sorted p
  have stepped : m.step (.store p) = { m with
      rx := { m.rx with incomingBuffer := buffer }
      held := none } := by
    simp only [Monitor.step, Monitor.moveTo, inserted, UInt16.sub_self]
    simp [signed16]
  rw [inserted] at sorted more twinInside
  rw [stepped]
  have known : ∀ q ∈ buffer, ∃ j, IsPacket base stream q j ∧ InWindow m.taken j ∧
      Unwrapped base stream m q j ∧ (p.seqNr < q.seqNr ↔ i < j) := by
    intro q member
    rcases origin q member with rfl | old
    · exact ⟨i, isPacket, ⟨low, high⟩, unwrapped, by simp [UInt16.lt_irrefl]⟩
    · obtain ⟨j, isOther, window, order⟩ := intact.known q (.inl old)
      exact ⟨j, isOther, window, order, unwrapped q old j isOther window⟩
  refine ⟨intact.given, intact.dropped, sorted, ?_, intact.ack, intact.reached, ?_⟩
  · rintro q (member | none)
    · obtain ⟨j, isOther, ⟨nearest, furthest⟩, order, mine⟩ := known q member
      refine ⟨j, isOther, ⟨nearest, furthest⟩, fun s inside k isThird near => ?_⟩
      rcases origin s inside with rfl | old
      · obtain ⟨least, most⟩ := near
        change m.taken ≤ k at least
        change k < m.taken + 2 ^ 15 at most
        obtain rfl := (number_eq_iff isPacket isThird ⟨by omega, by omega⟩).mp rfl
        exact order_symm isPacket isOther ⟨by omega, by omega⟩ mine
      · exact order s old k isThird near
    · cases none
  · intro j above below
    change m.taken ≤ j at above
    obtain ⟨q, old | isHeld, isOther⟩ := intact.acked j above below
    · exact ⟨q, .inl (more old), isOther⟩
    · -- the packet that was held is the one now in the buffer
      cases held.symm.trans isHeld
      obtain ⟨k, isTwin, ⟨nearest, furthest⟩, _⟩ := known twin twinInside
      obtain rfl := (number_eq_iff isOther isPacket ⟨by omega, by omega⟩).mp rfl
      obtain rfl := (number_eq_iff isTwin isPacket ⟨by omega, by omega⟩).mp equal
      exact ⟨twin, .inl twinInside, isTwin⟩

/-- A read that takes nothing out of the buffer moves pending bytes to the caller at most. -/
theorem intact_stay (intact : Intact base stream m a)
    (given : m'.out ++ m'.rx.pendingData = m.out ++ m.rx.pendingData)
    (ack : m'.rx.ackNr = m.rx.ackNr) (dropped : m'.rx.lastDropped = m.rx.lastDropped)
    (buffer : m'.rx.incomingBuffer = m.rx.incomingBuffer) (held : m'.held = m.held)
    (taken : m'.taken = m.taken) : Intact base stream m' a where
  given := by rw [given, taken, intact.given]
  dropped := by rw [dropped, taken]; exact intact.dropped
  sorted := by rw [buffer]; exact intact.sorted
  known := by unfold Unwrapped; rw [buffer, held, taken]; exact intact.known
  ack := by rw [ack]; exact intact.ack
  reached := by rw [taken]; exact intact.reached
  acked := by rw [buffer, held, taken]; exact intact.acked

variable {front : Packet} {rest : List Packet}

theorem intact_take {given kept : Bytes} (intact : Intact base stream m a)
    (buffer : m.rx.incomingBuffer = front :: rest) (due : IsPacket base stream front m.taken)
    (split : given ++ kept = m.rx.pendingData ++ front.payload)
    (moved : m'.rx = ReceiveSide.removeFront front rest kept) (free : m'.held = none)
    (taken : m'.taken = m.taken + 1) (out : m'.out = m.out ++ given) :
    Intact base stream m' (m.taken + 1) := by
  have known : ∀ q ∈ front :: rest, _ := fun q member => intact.known q (.inl (buffer ▸ member))
  obtain ⟨above, sorted⟩ := pairwise_cons.mp (buffer ▸ intact.sorted)
  obtain ⟨k, isFront, ⟨low, high⟩, first⟩ := known front (.head _)
  obtain rfl := (number_eq_iff isFront due ⟨by omega, by omega⟩).mp rfl
  refine ⟨?_, ?_, ?_, ?_, ?_, ?_, ?_⟩
  · rw [moved, taken, out, take_add_one, due.2.1, flatten_append]
    simp only [ReceiveSide.removeFront, append_assoc, split, Option.toList_some,
      flatten_cons, flatten_nil, append_nil]
    rw [← append_assoc, intact.given]
  · intro _
    rw [moved, taken]
    exact due.2.2
  · rw [moved]
    exact sorted
  · rw [moved, free, taken]
    rintro q (member | none)
    · obtain ⟨i, isPacket, window, order⟩ := known q (.tail _ member)
      have ahead := (first q (by simp [buffer, show q ∈ rest from member]) i isPacket window).mp (above q member)
      obtain ⟨nearest, furthest⟩ := window
      refine ⟨i, isPacket, ⟨ahead, by omega⟩, fun s inside j isOther near => ?_⟩
      rw [moved] at inside
      rw [taken] at near
      obtain ⟨least, most⟩ := near
      obtain ⟨k, isThird, ⟨nearest', furthest'⟩, _⟩ := known s (.tail _ inside)
      obtain rfl := (number_eq_iff isThird isOther ⟨by omega, by omega⟩).mp rfl
      exact order s (by simp [buffer, show s ∈ rest from inside]) k isThird ⟨nearest', furthest'⟩
    · cases none
  · rw [moved]
    exact due.2.2
  · omega
  · intro k ahead behind
    omega

/-- In a gap-free state the front packet that the acknowledgement number admits is the one that
    is due. -/
theorem front_due (intact : Intact base stream m a) (free : m.held = none)
    (buffer : m.rx.incomingBuffer = front :: rest)
    (inOrder : m.rx.ackNr = front.seqNr ∨ m.rx.ackNr.toNat + 1 = front.seqNr.toNat) :
    IsPacket base stream front m.taken := by
  obtain ⟨low, high⟩ := intact.reached
  obtain ⟨j, isPacket, ⟨nearest, furthest⟩, order⟩ := intact.known front (.inl (by simp [buffer]))
  have least : m.taken < a → j ≤ m.taken := by
    intro ahead
    obtain ⟨q, inside | isHeld, isOther⟩ := intact.acked m.taken (Nat.le_refl _) ahead
    · have earlier := order q inside m.taken isOther ⟨Nat.le_refl _, by omega⟩
      rw [buffer] at inside
      rcases mem_cons.mp inside with rfl | later
      · exact Nat.le_of_eq ((number_eq_iff isPacket isOther ⟨by omega, by omega⟩).mp rfl)
      · exact Nat.le_of_lt (earlier.mp ((pairwise_cons.mp (buffer ▸ intact.sorted)).1 q later))
    · rw [free] at isHeld
      cases isHeld
  have number := isPacket.2.2
  rw [intact.ack, number] at inOrder
  have same : j = m.taken := by
    rcases inOrder with same | next
    · rw [at16_near (by omega) (by omega)] at same
      omega
    · have step := at16_next next
      omega
  exact same ▸ isPacket

theorem intact_flush {room : Nat} {caller : Bool} (intact : Intact base stream m a)
    (orderly : Orderly base stream m (.flush room caller)) :
    ∃ a', Intact base stream (m.step (.flush room caller)) a' := by
  obtain ⟨free, discarded, gapless⟩ := orderly
  cases result : (m.rx.flushIncomingBuffer room : Outcome Unit (Bytes × ReceiveSide)) with
  | ok answer =>
    obtain ⟨bytes, r⟩ := answer
    have flush := ReceiveSide.flush_ok_iff.mp result
    have returned : (if caller then m.out ++ bytes else m.out) = m.out ++ bytes := by
      cases caller with
      | true => rfl
      | false =>
        obtain ⟨noPending, noBuffer⟩ := discarded rfl
        have nothing : bytes = [] := by cases flush <;> simp_all
        simp [nothing]
    have stepped : m.step (.flush room caller) = { m.moveTo r with
        taken := m.taken + (m.rx.incomingBuffer.length - r.incomingBuffer.length)
        out := m.out ++ bytes } := by
      simp only [Monitor.step, result, returned]
    rw [stepped]
    cases flush with
    | partly | exhausted | idle | gap =>
      refine ⟨a, intact_stay intact ?_ rfl rfl rfl rfl (by simp)⟩
      simp [Monitor.moveTo]
    | @next pending enough front rest buffer =>
      have due : IsPacket base stream front m.taken := by
        obtain ⟨j, isPacket, ⟨low, high⟩, _⟩ := intact.known front (.inl (by simp [buffer]))
        have expected := gapless pending enough front (by simp [buffer])
        rw [isPacket.2.2, at16_near (by omega) (by omega)] at expected
        exact Nat.succ.inj expected ▸ isPacket
      refine ⟨m.taken + 1, intact_take intact buffer due rfl rfl free ?_ rfl⟩
      simp [buffer, ReceiveSide.removeFront]
    | @due done front rest buffer inOrder =>
      have due := front_due intact free buffer inOrder
      refine ⟨m.taken + 1, intact_take intact buffer due ?_ rfl free ?_ rfl⟩
      · rw [done, take_append_drop, nil_append]
      · simp [buffer, ReceiveSide.removeFront]
  | err e | panic | unfinished => exact ⟨a, by simpa [Monitor.step, result] using intact⟩

theorem intact_step {e : Event} (intact : ∃ a, Intact base stream m a)
    (orderly : Orderly base stream m e ∧ ∀ p, e = .store p → m.held = some p) :
    ∃ a, Intact base stream (m.step e) a := by
  obtain ⟨a, holds⟩ := intact
  obtain ⟨allowed, stores⟩ := orderly
  cases e with
  | follow p => exact intact_follow holds allowed.1 allowed.2
  | store p => exact ⟨a, intact_store holds (stores p rfl)⟩
  | flush room caller => exact intact_flush holds allowed
  | send p => exact ⟨a, holds⟩

/-- A connected socket that has nothing of the stream yet. -/
structure Ready (w : World) : Prop where
  connected : w.socket.state = .connected
  noPending : w.socket.pendingData = []
  noBuffer : w.socket.incomingBuffer = []
  noTrace : w.trace = []

def originOf (w : World) : Origin where
  toReceiveSide := w.socket.toReceiveSide
  quoted := (w.socket.sendWindow ++ w.socket.unsentQueue).map (·.ackNr)

theorem ready_tracked {w : World} (ready : Ready w) : Tracked (originOf w) [] [] w := by
  have noTrace := ready.noTrace
  constructor
  · rw [noTrace]
    rfl
  · rw [ready.connected]
    decide
  · intro p member
    exact .inl (mem_map_of_mem member)
  · rw [noTrace]
    exact trivial
  · rw [noTrace]
    exact trivial
  · rw [noTrace]
    rfl
  · simp

theorem ready_intact {w : World} (ready : Ready w) (stream : List Bytes) :
    ∃ a, Intact w.socket.ackNr stream (Monitor.start w.socket.toReceiveSide) a := by
  refine ⟨0, ?_⟩
  constructor
  · simp [Monitor.start, ready.noPending]
  · intro taken
    exact absurd rfl taken
  · simp [Monitor.start, ready.noBuffer, SeqSorted]
  · simp [Monitor.start, ready.noBuffer]
  · rw [at16_zero]
    rfl
  · simp [Monitor.start]
  · intro j _ below
    omega

/-- Whatever is called on a connected socket and whatever the network does: if every step is
    orderly, all that was returned so far is a prefix of the stream. -/
theorem received_prefix (ops : FloatOps) (fuel : Nat) (calls : List Call) (w : World)
    (stream : List Bytes) (ready : Ready w)
    (orderly : AllSteps (Orderly w.socket.ackNr stream) w.socket.toReceiveSide
      (runCalls ops fuel calls w).2.trace) :
    (runCalls ops fuel calls w).1 <+: stream.flatten := by
  have tracked := run_calls_tracked ops fuel calls [] w (ready_tracked ready)
  obtain ⟨a, intact⟩ := monitor_invariant (ready_intact ready stream)
    (fun m e => intact_step) _ (all_steps_held orderly tracked.stores)
  have returned : (monitorOf w.socket.toReceiveSide (runCalls ops fuel calls w).2.trace).out =
      (runCalls ops fuel calls w).1 := tracked.returned
  have split := intact.given
  rw [returned] at split
  rw [← take_append_drop (monitorOf _ (runCalls ops fuel calls w).2.trace).taken stream,
    flatten_append, ← split, append_assoc]
  exact prefix_append _ _

section Runs

/-- Some floating point results; no run below computes one. -/
def plainFloat : FloatOps := ⟨fun _ => 0, fun cwnd _ _ => cwnd⟩

def peer : SocketAddr := .v4 127 0 0 1 6881

/-- A socket that connected to the peer, which numbers its stream from 1. -/
def connectedSocket : Socket := { fromRawParts peer 1 2 with state := .connected }

def dataPacket (seqNr : UInt16) (payload : Bytes) : Packet :=
  { Packet.withPayload payload with connectionId := 1, seqNr := seqNr }

def acknowledgement (ackNr : UInt16) : Packet :=
  { Packet.new with ty := .state, connectionId := 2, wndSize := windowSize, seqNr := 1, ackNr := ackNr }

def meeting (packets : List Packet) : World where
  socket := connectedSocket
  net := packets.map fun p => .datagram (some p) peer
  sendOk := []
  clock := []
  random := []
  trace := []

theorem meeting_ready (packets : List Packet) : Ready (meeting packets) := ⟨rfl, rfl, rfl, rfl⟩

def swapped : World := meeting [dataPacket 2 [99, 100], dataPacket 1 [97, 98]]

theorem swapped_trace : (runCalls plainFloat 2 [.recv 4, .recv 4, .recvFrom 4] swapped).2.trace =
    [.flush 4 true, .flush 4 true, .store (dataPacket 1 [97, 98]), .send (acknowledgement 1),
      .follow (dataPacket 1 [97, 98]), .flush 4 true, .store (dataPacket 2 [99, 100]),
      .send (acknowledgement 0), .follow (dataPacket 2 [99, 100])] := rfl

/-- Two packets that come in the wrong order are read in the right one. -/
theorem received_prefix_swapped :
    (runCalls plainFloat 2 [.recv 4, .recv 4, .recvFrom 4] swapped).1 = [97, 98, 99, 100] ∧
    (runCalls plainFloat 2 [.recv 4, .recv 4, .recvFrom 4] swapped).1 <+:
      [[97, 98], [99, 100], [101, 102]].flatten := by
  have second : ∀ j, IsPacket 0 [[97, 98], [99, 100], [101, 102]] (dataPacket 2 [99, 100]) j →
      InWindow 0 j → (1 < (2 : UInt16) ↔ 0 < j) := by
    intro j isPacket window
    have same : at16 0 2 = at16 0 (j + 1) := isPacket.2.2
    unfold InWindow at window
    rw [at16_near (by omega) (by omega)] at same
    constructor
    · omega
    · exact fun _ => by decide
  refine ⟨rfl, received_prefix _ _ _ _ [[97, 98], [99, 100], [101, 102]] (meeting_ready _) ?_⟩
  rw [swapped_trace]
  have read : ∀ {m : Monitor}, m.held = none → m.rx.pendingData = [] →
      Orderly 0 [[97, 98], [99, 100], [101, 102]] m (.flush 4 true) := fun free done =>
    ⟨free, nofun, fun pending => absurd done pending⟩
  refine ⟨read rfl (by decide), read rfl (by decide), trivial, trivial, ⟨rfl, 0, ⟨rfl, rfl, rfl⟩, ?_, ?_, ?_, ?_⟩,
    read rfl rfl, trivial, trivial, ⟨rfl, 1, ⟨rfl, rfl, rfl⟩, ?_, ?_, ?_, ?_⟩, trivial⟩
  · decide
  · decide
  · exact fun _ => by decide
  · intro q member
    rw [mem_singleton.mp member]
    exact second
  · decide
  · decide
  · exact fun _ => by decide
  · exact fun q member => nomatch member

def gap : World := meeting [dataPacket 3 [101, 102], dataPacket 1 [97, 98]]

/-- The third packet comes before the first, the second does not come at all. Once the first has
    been read in two parts, the third is handed out. -/
theorem received_skips_gap :
    Ready gap ∧
    (∀ e ∈ gap.net, ∃ p i, e = .datagram (some p) peer ∧
      IsPacket gap.socket.ackNr [[97, 98], [99, 100], [101, 102]] p i) ∧
    (runCalls plainFloat 2 [.recv 1, .recv 1, .recvFrom 1, .recvFrom 2] gap).1 =
      [97, 98, 101, 102] ∧
    ¬ (runCalls plainFloat 2 [.recv 1, .recv 1, .recvFrom 1, .recvFrom 2] gap).1 <+:
      [[97, 98], [99, 100], [101, 102]].flatten := by
  have skipped : (runCalls plainFloat 2 [.recv 1, .recv 1, .recvFrom 1, .recvFrom 2] gap).1 =
      [97, 98, 101, 102] := rfl
  refine ⟨meeting_ready _, ?_, skipped, ?_⟩
  · intro e member
    rcases mem_cons.mp member with first | later
    · exact ⟨_, 2, first, rfl, rfl, rfl⟩
    · exact ⟨_, 0, mem_singleton.mp later, rfl, rfl, rfl⟩
  · rw [skipped]
    decide

end Runs

end UtpStream
