import Bittorrent.Handshake.Message

/-!
The writer of a handshake. A message is put behind what the write buffer still holds, and the socket is
offered the buffer until nothing is left of it. A socket is what it answers to each write: how many bytes
it takes of those it is offered, or a failure.
-/
namespace HandshakeSending
open Rust UtilSha HandshakeMessages

section Model

inductive IoError where
  | writeZero
  deriving DecidableEq, Repr

/-- The fields `send` uses; of the socket, the number of writes so far and the bytes it has taken. -/
structure FramedHandshake where
  polls : Nat
  written : Bytes
  writeBuffer : Bytes
  deriving DecidableEq, Repr

def FramedHandshake.new : FramedHandshake := ⟨0, [], []⟩

/-- A write of which the socket takes so many bytes, and `split_to`. -/
def FramedHandshake.write (framed : FramedHandshake) (count : Nat) : FramedHandshake :=
  ⟨framed.polls + 1, framed.written ++ framed.writeBuffer.take count, framed.writeBuffer.drop count⟩

variable (answer : Nat → Option Nat)

def writeLoop (framed : FramedHandshake) : Outcome IoError Unit × FramedHandshake :=
  match answer framed.polls with
  | some 0 => (.err .writeZero, framed.write 0)
  | some (count + 1) =>
    if (framed.write (count + 1)).writeBuffer = [] then (.ok (), framed.write (count + 1))
    else writeLoop (framed.write (count + 1))
  -- the arm `_`, which is every error of the socket
  | none => (.ok (), framed.write 0)
termination_by framed.writeBuffer.length
decreasing_by
  simp only [FramedHandshake.write, List.drop_eq_nil_iff, List.length_drop] at *
  omega

def send (item : HandshakeMessage) (framed : FramedHandshake) :
    Outcome IoError Unit × FramedHandshake :=
  writeLoop answer { framed with writeBuffer := framed.writeBuffer ++ item.writeBytes }

/-- A send that returns `Ok` has written its message, and no send leaves anything in front of the next. -/
def Reported : List HandshakeMessage → FramedHandshake → Prop
  | [], _ => True
  | item :: items, framed =>
    let (result, after) := send answer item framed
    (result = .ok () → after.written = framed.written ++ item.writeBytes) ∧ after.writeBuffer = [] ∧
      Reported items after

end Model

section Sends

/-- From one write on the socket takes some of the bytes each time, and has them all at the write `last`. -/
inductive Taken (answer : Nat → Option Nat) : Nat → Bytes → Nat → Prop where
  | all (poll : Nat) : Taken answer poll [] poll
  | more {poll count last : Nat} {bytes : Bytes} : bytes ≠ [] → answer poll = some (count + 1) →
      Taken answer (poll + 1) (bytes.drop (count + 1)) last → Taken answer poll bytes last

/-- The socket takes one message after the other. -/
def Smooth (answer : Nat → Option Nat) : List HandshakeMessage → Nat → Prop
  | [], _ => True
  | item :: items, poll => ∃ last, Taken answer poll item.writeBytes last ∧ Smooth answer items last

variable {answer : Nat → Option Nat} {poll last : Nat} {bytes : Bytes} {framed : FramedHandshake}
  {item : HandshakeMessage}

theorem taken_loop (taken : Taken answer poll bytes last) (some_left : bytes ≠ []) (written : Bytes) :
    writeLoop answer ⟨poll, written, bytes⟩ = (.ok (), ⟨last, written ++ bytes, []⟩) := by
  induction taken generalizing written with
  | all => contradiction
  | @more poll count last bytes _ answered taken ih =>
    rw [writeLoop]
    simp only [answered]
    split
    next whole =>
      change bytes.drop (count + 1) = [] at whole
      rw [whole] at taken
      obtain - | _ := taken
      · have all : bytes.take (count + 1) = bytes := List.take_of_length_le (List.drop_eq_nil_iff.mp whole)
        rw [FramedHandshake.write, whole, all]
      · contradiction
    next unfinished =>
      refine (ih unfinished _).trans ?_
      rw [List.append_assoc, List.take_append_drop]

theorem loop_taken (some_left : framed.writeBuffer ≠ [])
    (empty : (writeLoop answer framed).2.writeBuffer = []) :
    ∃ last, Taken answer framed.polls framed.writeBuffer last := by
  fun_induction writeLoop answer framed with
  | case1 _ refused | case4 _ failed => exact absurd empty some_left
  | case2 framed count answered whole =>
    refine ⟨framed.polls + 1, .more some_left answered ?_⟩
    rw [show framed.writeBuffer.drop (count + 1) = [] from whole]
    exact .all _
  | case3 framed count answered unfinished ih =>
    obtain ⟨last, taken⟩ := ih unfinished empty
    exact ⟨last, .more some_left answered taken⟩

theorem sends_reported_iff (items : List HandshakeMessage) (empty : framed.writeBuffer = []) :
    Reported answer items framed ↔ Smooth answer items framed.polls := by
  induction items generalizing framed with
  | nil => exact Iff.rfl
  | cons item items ih =>
    have some_left : item.writeBytes ≠ [] := by simp [HandshakeMessage.writeBytes, write_protocol_eq]
    have sends : send answer item framed =
        writeLoop answer ⟨framed.polls, framed.written, item.writeBytes⟩ := by
      rw [send, empty, List.nil_append]
    have taken_sent : ∀ last, Taken answer framed.polls item.writeBytes last →
        send answer item framed = (.ok (), ⟨last, framed.written ++ item.writeBytes, []⟩) :=
      fun last taken => sends.trans (taken_loop taken some_left _)
    constructor
    · intro reported
      have nothing_left : (send answer item framed).2.writeBuffer = [] := reported.2.1
      rw [sends] at nothing_left
      obtain ⟨last, taken⟩ := loop_taken some_left nothing_left
      rw [Reported, taken_sent last taken] at reported
      exact ⟨last, taken, (ih rfl).mp reported.2.2⟩
    · rintro ⟨last, taken, smooth⟩
      rw [Reported, taken_sent last taken]
      exact ⟨fun _ => rfl, rfl, (ih rfl).mpr smooth⟩

theorem send_reports_iff (answer : Nat → Option Nat) (items : List HandshakeMessage) :
    Reported answer items .new ↔ Smooth answer items 0 :=
  sends_reported_iff items rfl

def greeting : HandshakeMessage :=
  ⟨.bitTorrent, .new, ⟨Vector.replicate shaHashLen 0⟩, ⟨Vector.replicate shaHashLen 1⟩, bit_torrent_fits⟩

/-- The socket fails at once, the send succeeds, and its message is put in front of the next one. -/
theorem failed_write_unreported :
    send (fun _ => none) greeting .new = (.ok (), ⟨1, [], greeting.writeBytes⟩) ∧
      ¬ Reported (fun _ => none) [greeting] .new := by
  have sent : send (fun _ => none) greeting .new = (.ok (), ⟨1, [], greeting.writeBytes⟩) := by
    simp [send, writeLoop, FramedHandshake.write, FramedHandshake.new]
  refine ⟨sent, fun reported => ?_⟩
  rw [Reported, sent] at reported
  have written := reported.1 rfl
  simp [HandshakeMessage.writeBytes, write_protocol_eq, FramedHandshake.new] at written

end Sends
end HandshakeSending
