import Bittorrent.Lib.Bytes

/-!
Messages between peers of the demo client: how they are written, and how the id and the body of a frame
are read back.
-/
namespace DemoMessage
open Rust List

variable {ε : Type}

section Words

def byte0 : Nat := 256 * 256 * 256
def byte1 : Nat := 256 * 256
def byte2 : Nat := 256
def byte3 : Nat := 1

/-- The sum of four bytes in their places is below `2 ^ 32`. -/
def bytesToU32 (bytes : Bytes) : Outcome ε UInt32 := do
  let first ← byteAt bytes 0
  let second ← byteAt bytes 1
  let third ← byteAt bytes 2
  let fourth ← byteAt bytes 3
  return .ofNat (first.toNat * byte0 + second.toNat * byte1 + third.toNat * byte2 + fourth.toNat * byte3)

def u32ToBytes (integer : UInt32) : Bytes :=
  let rest := integer.toNat
  let first := rest / byte0
  let rest := rest - first * byte0
  let second := rest / byte1
  let rest := rest - second * byte1
  let third := rest / byte2
  let fourth := rest - third * byte2
  [.ofNat first, .ofNat second, .ofNat third, .ofNat fourth]

def bigEndian : Bytes → Option Nat
  | a :: b :: c :: d :: _ => some (((a.toNat * 256 + b.toNat) * 256 + c.toNat) * 256 + d.toNat)
  | _ => none

@[simp] theorem u32_to_bytes_length (n : UInt32) : (u32ToBytes n).length = 4 := rfl

theorem big_endian_write (n : UInt32) (rest : Bytes) : bigEndian (u32ToBytes n ++ rest) = some n.toNat := by
  have bound := n.toNat_lt
  simp [bigEndian, u32ToBytes, byte0, byte1, byte2]
  omega

theorem bytes_to_u32_write (n : UInt32) (rest : Bytes) :
    (bytesToU32 (u32ToBytes n ++ rest) : Outcome ε UInt32) = .ok n := by
  have bound := n.toNat_lt
  simp [bytesToU32, u32ToBytes, byteAt, ← UInt32.toNat_inj, byte0, byte1, byte2, byte3]
  omega

end Words

inductive Message where
  | keepAlive
  | choke
  | unchoke
  | interested
  | notInterested
  | have (index : UInt32)
  | bitfield (bytes : Bytes)
  | request (index offset length : UInt32)
  | piece (index offset : UInt32) (data : Bytes)
  | cancel (index offset length : UInt32)
  | port
  deriving DecidableEq, Repr

def wordAt (body : Bytes) (start : Nat) : Outcome ε UInt32 := do
  let part ← slice body start (start + 4)
  bytesToU32 part.bytes

def Message.new (id : UInt8) (body : Bytes) : Outcome ε Message :=
  match id with
  | 0 => .ok .choke
  | 1 => .ok .unchoke
  | 2 => .ok .interested
  | 3 => .ok .notInterested
  | 4 => do
    let index ← bytesToU32 body
    return .have index
  | 5 => .ok (.bitfield body)
  | 6 => do
    let index ← wordAt body 0
    let offset ← wordAt body 4
    let length ← wordAt body 8
    return .request index offset length
  | 7 => do
    let index ← wordAt body 0
    let offset ← wordAt body 4
    let data ← sliceFrom body 8
    return .piece index offset data
  | 8 => do
    let index ← wordAt body 0
    let offset ← wordAt body 4
    let length ← wordAt body 8
    return .cancel index offset length
  | 9 => .ok .port
  | _ => .panic

def Message.payload : Message → Bytes
  | .keepAlive => []
  | .choke => [0]
  | .unchoke => [1]
  | .interested => [2]
  | .notInterested => [3]
  | .have index => 4 :: u32ToBytes index
  | .bitfield bytes => 5 :: bytes
  | .request index offset length => 6 :: (u32ToBytes index ++ u32ToBytes offset ++ u32ToBytes length)
  | .piece index offset data => 6 :: (u32ToBytes index ++ u32ToBytes offset ++ data)
  | .cancel index offset length => 8 :: (u32ToBytes index ++ u32ToBytes offset ++ u32ToBytes length)
  | .port => [9]

/-- The length is cut to 32 bits. -/
def Message.serialize (m : Message) : Bytes := u32ToBytes (.ofNat m.payload.length) ++ m.payload

/-- A size of four bytes, then as many bytes as it says, of which the first and the rest give the message
    back. -/
def RoundTrips (m : Message) : Prop :=
  ∃ id body, bigEndian m.serialize = some (body.length + 1) ∧ m.serialize.drop 4 = id :: body ∧
    (Message.new id body : Outcome Empty Message) = .ok m

def Message.WellSent : Message → Prop
  | .piece .. => False
  | .bitfield bytes => bytes.length + 1 < 2 ^ 32
  | _ => True

theorem drop_serialize (m : Message) : m.serialize.drop 4 = m.payload := by
  rw [Message.serialize, drop_left' (u32_to_bytes_length _)]

theorem word_at_write (front rest : Bytes) (n : UInt32) :
    (wordAt (front ++ (u32ToBytes n ++ rest)) front.length : Outcome ε UInt32) = .ok n := by
  have inside : front.length + 4 ≤ (front ++ (u32ToBytes n ++ rest)).length := by
    simp only [length_append, u32_to_bytes_length]
    omega
  have word : ((front ++ (u32ToBytes n ++ rest)).drop front.length).take (front.length + 4 - front.length) =
      u32ToBytes n := by
    rw [drop_left, Nat.add_sub_cancel_left, take_left' (u32_to_bytes_length n)]
  unfold wordAt
  rw [slice_ok (Nat.le_add_right _ _) inside, Outcome.ok_bind, word]
  simpa using bytes_to_u32_write n []

theorem three_words (index offset length : UInt32) :
    let body := u32ToBytes index ++ u32ToBytes offset ++ u32ToBytes length
    (wordAt body 0 : Outcome ε UInt32) = .ok index ∧ (wordAt body 4 : Outcome ε UInt32) = .ok offset ∧
      (wordAt body 8 : Outcome ε UInt32) = .ok length := by
  have first := word_at_write (ε := ε) [] (u32ToBytes offset ++ u32ToBytes length) index
  have second := word_at_write (ε := ε) (u32ToBytes index) (u32ToBytes length) offset
  have third := word_at_write (ε := ε) (u32ToBytes index ++ u32ToBytes offset) [] length
  exact ⟨first, second, third⟩

theorem new_payload {m : Message} (sent : m.WellSent) (other : m ≠ .keepAlive) :
    ∃ id body, m.payload = id :: body ∧ body.length + 1 < 2 ^ 32 ∧
      (Message.new id body : Outcome ε Message) = .ok m := by
  cases m with
  | keepAlive => exact absurd rfl other
  | choke | unchoke | interested | notInterested | port => exact ⟨_, _, rfl, by decide, rfl⟩
  | «have» index =>
    refine ⟨_, _, rfl, by simp, ?_⟩
    have word := bytes_to_u32_write (ε := ε) index []
    rw [append_nil] at word
    simp [Message.new, word]
  | bitfield bytes => exact ⟨_, _, rfl, sent, rfl⟩
  | request index offset length | cancel index offset length =>
    obtain ⟨first, second, third⟩ := three_words (ε := ε) index offset length
    refine ⟨_, _, rfl, by simp, ?_⟩
    simp only [Message.new, first, second, third]
    rfl
  | piece index offset data => exact sent.elim

/-- A piece goes out under the id of a request. -/
theorem piece_lost (index offset : UInt32) (data : Bytes) : ¬ RoundTrips (.piece index offset data) := by
  rintro ⟨id, body, -, sent, read⟩
  rw [drop_serialize] at sent
  cases sent
  obtain ⟨first, -, read⟩ := Outcome.bind_eq_ok.mp read
  obtain ⟨second, -, read⟩ := Outcome.bind_eq_ok.mp read
  obtain ⟨third, -, read⟩ := Outcome.bind_eq_ok.mp read
  cases read

theorem round_trip_iff (m : Message) (other : m ≠ .keepAlive) : RoundTrips m ↔ m.WellSent := by
  constructor
  · intro back
    cases m with
    | piece index offset data => exact piece_lost index offset data back
    | bitfield bytes =>
      obtain ⟨id, body, size, sent, -⟩ := back
      rw [drop_serialize] at sent
      cases sent
      rw [Message.serialize, big_endian_write] at size
      have bound := (UInt32.ofNat (Message.bitfield bytes).payload.length).toNat_lt
      rwa [Option.some.inj size] at bound
    | _ => trivial
  · intro sent
    obtain ⟨id, body, payload, small, read⟩ := new_payload (ε := Empty) sent other
    refine ⟨id, body, ?_, (drop_serialize m).trans payload, read⟩
    rw [Message.serialize, big_endian_write, payload, length_cons, UInt32.toNat_ofNat_of_lt' small]

theorem request_round_trips :
    (Message.request 1 16384 16384) ≠ .keepAlive ∧ RoundTrips (.request 1 16384 16384) :=
  ⟨by decide, (round_trip_iff _ (by decide)).mpr trivial⟩

/-- A piece of four bytes is read as a request for as many bytes as they say. -/
theorem piece_read_as_request :
    (Message.piece 7 0 [0, 0, 64, 0]).serialize.drop 4 = 6 :: [0, 0, 0, 7, 0, 0, 0, 0, 0, 0, 64, 0] ∧
      (Message.new 6 [0, 0, 0, 7, 0, 0, 0, 0, 0, 0, 64, 0] : Outcome Empty Message) =
        .ok (.request 7 0 16384) ∧ ¬ RoundTrips (.piece 7 0 [0, 0, 64, 0]) :=
  ⟨by decide, by decide, piece_lost 7 0 _⟩

end DemoMessage
