import Bittorrent.Utp.Packet

/-!
The receiving half of a `UtpSocket`: the acknowledgement number, the buffer of packets that
arrived and were not read yet, and the rest of a packet that was read in part.
-/
namespace UtpReceive
open Rust UtpPacket List

structure ReceiveSide where
  ackNr : UInt16
  lastDropped : UInt16
  pendingData : Bytes
  incomingBuffer : List Packet
  deriving DecidableEq, Repr

def u16Add {ε : Type} (a b : UInt16) : Outcome ε UInt16 :=
  if a.toNat + b.toNat < 2 ^ 16 then .ok (a + b) else .panic

def u16Sub {ε : Type} (a b : UInt16) : Outcome ε UInt16 :=
  if b.toNat ≤ a.toNat then .ok (a - b) else .panic

theorem u16_add_value {ε : Type} {a b c : UInt16} (sum : (u16Add a b : Outcome ε UInt16) = .ok c) :
    c.toNat = a.toNat + b.toNat := by
  unfold u16Add at sum
  split at sum
  · rename_i small
    cases sum
    rw [UInt16.toNat_add, Nat.mod_eq_of_lt small]
  · cases sum

theorem u16_sub_value {ε : Type} {a b c : UInt16} (difference : (u16Sub a b : Outcome ε UInt16) = .ok c) :
    a.toNat = b.toNat + c.toNat := by
  unfold u16Sub at difference
  split at difference
  · rename_i ordered
    cases difference
    rw [UInt16.toNat_sub_of_le _ _ (UInt16.le_iff_toNat_le.mpr ordered)]
    omega
  · cases difference

namespace ReceiveSide
variable {ε : Type}

/-- The first statement of `handle_packet`, made for packets of every type. -/
def follow (r : ReceiveSide) (packet : Packet) : ReceiveSide :=
  if packet.seqNr - r.ackNr = 1 then { r with ackNr := packet.seqNr } else r

def advanceIncomingBuffer (r : ReceiveSide) : Option Packet × ReceiveSide :=
  match r.incomingBuffer with
  | packet :: rest =>
    (some packet, { r with
      incomingBuffer := rest
      ackNr := packet.seqNr
      lastDropped := packet.seqNr })
  | [] => (none, r)

/-- Reading the first packet of the buffer; what does not fit is kept as pending data. -/
def readFront (r : ReceiveSide) (front : Packet) (room : Nat) : Bytes × ReceiveSide :=
  let flushed := front.payload.take room
  if flushed.length = front.payload.length then
    (flushed, r.advanceIncomingBuffer.2)
  else
    (flushed, ({ r with pendingData := front.payload.drop flushed.length } :
      ReceiveSide).advanceIncomingBuffer.2)

/-- `flush_incoming_buffer` into a slice of `room` bytes; the bytes are those it copied. -/
def flushIncomingBuffer (r : ReceiveSide) (room : Nat) : Outcome ε (Bytes × ReceiveSide) :=
  if r.pendingData ≠ [] then
    let flushed := r.pendingData.take room
    if flushed.length = r.pendingData.length then
      match ({ r with pendingData := [] } : ReceiveSide).advanceIncomingBuffer with
      | (some package, r') => .ok (flushed, { r' with pendingData := package.payload })
      | (none, r') => .ok (flushed, r')
    else
      .ok (flushed, { r with pendingData := r.pendingData.drop flushed.length })
  else
    match r.incomingBuffer with
    | [] => .ok ([], r)
    | front :: _ =>
      -- the second comparison is made only if the first one fails
      (if r.ackNr = front.seqNr then .ok true
        else (u16Add r.ackNr 1).bind fun next => .ok (decide (next = front.seqNr))).bind
        fun due =>
          if due then .ok (r.readFront front room) else .ok ([], r)

def insertIntoBuffer (r : ReceiveSide) (packet : Packet) : ReceiveSide :=
  if r.incomingBuffer.getLast?.any fun p => p.seqNr < packet.seqNr then
    { r with incomingBuffer := r.incomingBuffer ++ [packet] }
  else
    let i := (r.incomingBuffer.filter fun p => p.seqNr < packet.seqNr).length
    if (r.incomingBuffer[i]?).all fun p => p.seqNr ≠ packet.seqNr then
      { r with incomingBuffer := r.incomingBuffer.take i ++ packet :: r.incomingBuffer.drop i }
    else r

/-- The mask of `build_selective_ack`, grown four bytes at a time. -/
def setBit (sack : Bytes) (diff : Nat) : Bytes :=
  let grown := sack ++ List.replicate ((diff / 8 / 4 + 1) * 4 - sack.length) 0
  grown.modify (diff / 8) fun byte => byte ||| (1 <<< UInt8.ofNat (diff % 8))

def stashed (ackNr : UInt16) : List Packet → Outcome ε (List Nat)
  | [] => .ok []
  | p :: rest => do
    let next ← u16Add ackNr 1
    if next < p.seqNr then
      let past ← u16Sub p.seqNr ackNr
      let diff ← u16Sub past 2
      let later ← stashed ackNr rest
      .ok (diff.toNat :: later)
    else
      stashed ackNr rest

def buildSelectiveAck (r : ReceiveSide) : Outcome ε Bytes := do
  let diffs ← stashed r.ackNr r.incomingBuffer
  .ok (diffs.foldl setBit [])

/-- The buffer without its first packet, which is now the last one acknowledged and dropped. -/
def removeFront (front : Packet) (rest : List Packet) (pending : Bytes) : ReceiveSide where
  ackNr := front.seqNr
  lastDropped := front.seqNr
  pendingData := pending
  incomingBuffer := rest

/-- What a read can do, case by case. -/
inductive FlushStep (r : ReceiveSide) (room : Nat) : Bytes → ReceiveSide → Prop where
  | partly (pending : r.pendingData ≠ []) (short : room < r.pendingData.length) :
      FlushStep r room (r.pendingData.take room) { r with pendingData := r.pendingData.drop room }
  | exhausted (pending : r.pendingData ≠ []) (enough : r.pendingData.length ≤ room)
      (empty : r.incomingBuffer = []) :
      FlushStep r room r.pendingData { r with pendingData := [] }
  | next (pending : r.pendingData ≠ []) (enough : r.pendingData.length ≤ room) {front : Packet}
      {rest : List Packet} (buffer : r.incomingBuffer = front :: rest) :
      FlushStep r room r.pendingData (removeFront front rest front.payload)
  | idle (done : r.pendingData = []) (empty : r.incomingBuffer = []) : FlushStep r room [] r
  | due (done : r.pendingData = []) {front : Packet} {rest : List Packet}
      (buffer : r.incomingBuffer = front :: rest)
      (inOrder : r.ackNr = front.seqNr ∨ r.ackNr.toNat + 1 = front.seqNr.toNat) :
      FlushStep r room (front.payload.take room)
        (removeFront front rest (front.payload.drop room))
  | gap (done : r.pendingData = []) {front : Packet} {rest : List Packet}
      (buffer : r.incomingBuffer = front :: rest) (below : r.ackNr.toNat + 1 < 2 ^ 16)
      (missing : r.ackNr ≠ front.seqNr ∧ r.ackNr.toNat + 1 ≠ front.seqNr.toNat) :
      FlushStep r room [] r

theorem u16_add_one {a : UInt16} (below : a.toNat + 1 < 2 ^ 16) (b : UInt16) :
    a + 1 = b ↔ a.toNat + 1 = b.toNat := by
  rw [← UInt16.toNat_inj, UInt16.toNat_add]
  have one : (1 : UInt16).toNat = 1 := rfl
  rw [one, Nat.mod_eq_of_lt below]

variable {room : Nat} {r : ReceiveSide}

theorem read_front {front : Packet} {rest : List Packet} (done : r.pendingData = [])
    (buffer : r.incomingBuffer = front :: rest) :
    r.readFront front room =
      (front.payload.take room, removeFront front rest (front.payload.drop room)) := by
  simp only [readFront, advanceIncomingBuffer, buffer, removeFront, length_take]
  split
  · rw [drop_eq_nil_of_le (by omega), done]
  · rw [min_eq_left (by omega)]

theorem flush_front {front : Packet} {rest : List Packet} (done : r.pendingData = [])
    (buffer : r.incomingBuffer = front :: rest) :
    (r.flushIncomingBuffer room : Outcome ε (Bytes × ReceiveSide)) =
      if r.ackNr = front.seqNr ∨ r.ackNr.toNat + 1 = front.seqNr.toNat then
        .ok (front.payload.take room, removeFront front rest (front.payload.drop room))
      else if r.ackNr.toNat + 1 < 2 ^ 16 then .ok ([], r)
      else .panic := by
  have copied : r.readFront front room = _ := read_front done buffer
  have small := front.seqNr.toNat_lt
  have one : (1 : UInt16).toNat = 1 := rfl
  unfold flushIncomingBuffer
  rw [if_neg (by simp [done]), buffer]
  dsimp only
  by_cases same : r.ackNr = front.seqNr
  · rw [if_pos same, if_pos (.inl same)]
    simp only [Outcome.bind, ↓reduceIte, copied]
  · rw [if_neg same]
    by_cases below : r.ackNr.toNat + 1 < 2 ^ 16
    · simp only [same, u16Add, one, below, ↓reduceIte, Outcome.bind, u16_add_one below, false_or,
        decide_eq_true_eq, copied]
    · have other : r.ackNr.toNat + 1 ≠ front.seqNr.toNat := by omega
      simp only [same, u16Add, one, below, ↓reduceIte, Outcome.bind, other, or_self]

variable {bytes : Bytes} {r' : ReceiveSide}

theorem flush_step_ok (step : FlushStep r room bytes r') :
    (r.flushIncomingBuffer room : Outcome ε (Bytes × ReceiveSide)) = .ok (bytes, r') := by
  cases step with
  | partly pending short =>
    rw [flushIncomingBuffer, if_pos pending]
    simp only [length_take, Nat.min_eq_left (Nat.le_of_lt short), if_neg (Nat.ne_of_lt short)]
  | exhausted pending enough empty =>
    simp [flushIncomingBuffer, pending, take_of_length_le enough, advanceIncomingBuffer, empty]
  | next pending enough buffer =>
    simp [flushIncomingBuffer, pending, take_of_length_le enough, advanceIncomingBuffer, buffer,
      removeFront]
  | idle done empty => simp [flushIncomingBuffer, done, empty]
  | due done buffer inOrder => rw [flush_front done buffer, if_pos inOrder]
  | gap done buffer below missing => rw [flush_front done buffer, if_neg (by tauto), if_pos below]

/-- A read panics only where the number behind the acknowledged one overflows. -/
theorem flush_cases (r : ReceiveSide) (room : Nat) : (∃ bytes r', FlushStep r room bytes r') ∨
    (r.flushIncomingBuffer room : Outcome ε (Bytes × ReceiveSide)) = .panic := by
  by_cases done : r.pendingData = []
  · cases buffer : r.incomingBuffer with
    | nil => exact .inl ⟨_, _, .idle done buffer⟩
    | cons front rest =>
      by_cases inOrder : r.ackNr = front.seqNr ∨ r.ackNr.toNat + 1 = front.seqNr.toNat
      · exact .inl ⟨_, _, .due done buffer inOrder⟩
      · by_cases below : r.ackNr.toNat + 1 < 2 ^ 16
        · exact .inl ⟨_, _, .gap done buffer below (by tauto)⟩
        · exact .inr (by rw [flush_front done buffer, if_neg inOrder, if_neg below])
  · by_cases enough : r.pendingData.length ≤ room
    · cases buffer : r.incomingBuffer with
      | nil => exact .inl ⟨_, _, .exhausted done enough buffer⟩
      | cons front rest => exact .inl ⟨_, _, .next done enough buffer⟩
    · exact .inl ⟨_, _, .partly done (by omega)⟩

theorem flush_ok_iff : (r.flushIncomingBuffer room : Outcome ε (Bytes × ReceiveSide)) = .ok (bytes, r') ↔
    FlushStep r room bytes r' := by
  refine ⟨fun result => ?_, flush_step_ok⟩
  rcases flush_cases (ε := ε) r room with ⟨_, _, step⟩ | panics
  · rw [flush_step_ok step] at result
    cases result
    exact step
  · rw [panics] at result
    cases result

theorem flush_step_zero (step : FlushStep r 0 bytes r') :
    bytes = [] := by
  cases step with
  | partly => rfl
  | exhausted pending enough | next pending enough =>
    exact absurd (length_eq_zero_iff.mp (Nat.le_zero.mp enough)) pending
  | idle => rfl
  | due => rfl
  | gap => rfl

end ReceiveSide

end UtpReceive
