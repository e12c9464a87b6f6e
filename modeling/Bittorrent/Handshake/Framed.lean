import Bittorrent.Handshake.Message
import Bittorrent.Lib.Action
import Bittorrent.Lib.Patch

/-!
The reader of a handshake. It asks the socket for one byte, which is the length of the protocol, and then
for what is missing of the message and for nothing behind it. A socket is the bytes it has yet to give
and how many it has at hand each time it is asked; it may also fail.
-/
namespace HandshakeFramed
open Rust Action NomParse UtilSha ListPatch HandshakeMessages

section Socket

inductive Delivery where
  /-- One byte and `more` are at hand, or the stream is over. -/
  | bytes (more : Nat)
  | failed
  deriving DecidableEq, Repr

structure Socket where
  unread : Bytes
  polls : Nat
  deriving DecidableEq, Repr

/-- `read` into a slice with this much space, `none` if it fails. -/
def Socket.read (deliver : Nat → Delivery) (space : Nat) (sock : Socket) : Option Bytes × Socket :=
  match deliver sock.polls with
  | .failed => (none, { sock with polls := sock.polls + 1 })
  | .bytes more => (some (sock.unread.take (min (more + 1) space)),
      ⟨sock.unread.drop (min (more + 1) space), sock.polls + 1⟩)

end Socket

section Model

inductive HandshakeState where
  | waiting
  | length (length : UInt8)
  | finished
  deriving DecidableEq, Repr

inductive IoError where
  | invalidData
  deriving DecidableEq, Repr

structure FramedHandshake where
  sock : Socket
  readBuffer : Bytes
  readPos : Nat
  state : HandshakeState
  deriving DecidableEq, Repr

def FramedHandshake.new (incoming : Bytes) : FramedHandshake := ⟨⟨incoming, 0⟩, [0], 0, .waiting⟩

variable (deliver : Nat → Delivery)

def readInto (pos : Nat) : Action FramedHandshake IoError (Option Nat) := do
  let framed ← Action.get
  let space ← Action.lift (sliceFrom framed.readBuffer pos)
  match framed.sock.read deliver space.length with
  | (some got, sock) =>
    Action.modify fun framed =>
      { framed with sock := sock, readBuffer := patch framed.readBuffer pos got }
    return some got.length
  | (none, sock) =>
    Action.modify fun framed => { framed with sock := sock }
    return none

def readLength : Action FramedHandshake IoError (Option (Option HandshakeMessage)) := do
  match ← readInto deliver 0 with
  | some 0 => return some none
  | some 1 =>
    let framed ← Action.get
    let length ← Action.lift (byteAt framed.readBuffer 0)
    Action.modify fun framed => { framed with
      state := .length length
      readPos := 1
      readBuffer := (List.replicate (writeLenWithProtocolLen length) 0).set 0 length }
    return none
  | some _ => Action.abort
  | none => return some none

def parseBuffer : Action FramedHandshake IoError (Option (Option HandshakeMessage)) := do
  let framed ← Action.get
  match parseRemoteHandshake framed.readBuffer with
  | .ok (message, _) =>
    Action.modify fun framed => { framed with state := .finished }
    return some (some message)
  | .err .incomplete => Action.abort
  | .err .error => Action.fail .invalidData
  | .panic => Action.abort
  | .unfinished => Action.cutOff

def readRest : Action FramedHandshake IoError (Option (Option HandshakeMessage)) := do
  let framed ← Action.get
  match ← readInto deliver framed.readPos with
  | some 0 => return some none
  | some count =>
    let readPos ← Action.lift (usizeAdd framed.readPos count)
    Action.modify fun framed => { framed with readPos := readPos }
    return none
  | none => return some none

/-- One turn of the loop, `none` if it goes on. -/
def turn : Action FramedHandshake IoError (Option (Option HandshakeMessage)) := do
  let framed ← Action.get
  match framed.state with
  | .waiting => readLength deliver
  | .length length =>
    if framed.readPos = writeLenWithProtocolLen length then parseBuffer else readRest deliver
  | .finished => return some none

def read : Nat → Action FramedHandshake IoError (Option HandshakeMessage)
  | 0 => Action.cutOff
  | fuel + 1 => do
    match ← turn deliver with
    | some result => return result
    | none => read fuel

def afterReads (fuel : Nat) (incoming : Bytes) : Nat → FramedHandshake
  | 0 => .new incoming
  | calls + 1 => (read deliver fuel (afterReads fuel incoming calls)).2

end Model

section Reading
open List
variable {deliver : Nat → Delivery} {all : Bytes} {framed : FramedHandshake}

/-- What has been taken from the stream `all` so far stands at the front of the buffer, and the rest of
    the stream is still in the socket. -/
inductive Reading (all : Bytes) (framed : FramedHandshake) : Prop where
  | waiting (state : framed.state = .waiting) (buffer : framed.readBuffer.length = 1)
      (stream : framed.sock.unread = all)
  | length {length : UInt8} (taken blank : Bytes) (state : framed.state = .length length)
      (buffer : framed.readBuffer = length :: taken ++ blank) (pos : framed.readPos = taken.length + 1)
      (size : framed.readBuffer.length = writeLenWithProtocolLen length)
      (stream : length :: taken ++ framed.sock.unread = all)

inductive Short : Bytes → Prop where
  | nothing : Short []
  | cut {length : UInt8} {rest : Bytes} :
      (length :: rest).length < writeLenWithProtocolLen length → Short (length :: rest)

/-- How a call of `read` that began in the middle of a message ends. -/
inductive Ended (deliver : Nat → Delivery) (all : Bytes) :
    Option HandshakeMessage → FramedHandshake → Prop where
  | whole {m : HandshakeMessage} {framed : FramedHandshake} (proper : m.prot.Proper)
      (state : framed.state = .finished) (stream : m.writeBytes ++ framed.sock.unread = all) :
      Ended deliver all (some m) framed
  | cut {framed : FramedHandshake} (reading : Reading all framed) (short : Short all) :
      Ended deliver all none framed
  | failed {framed : FramedHandshake} {poll : Nat} (reading : Reading all framed)
      (failure : deliver poll = .failed) : Ended deliver all none framed

def turnsLeft (framed : FramedHandshake) : Nat :=
  match framed.state with
  | .waiting => 305
  | .length length => writeLenWithProtocolLen length - framed.readPos + 1
  | .finished => 1

theorem new_reading (incoming : Bytes) : Reading incoming (.new incoming) := .waiting rfl rfl rfl

theorem write_len_bounds (length : UInt8) :
    1 < writeLenWithProtocolLen length ∧ writeLenWithProtocolLen length < 305 := by
  have small := length.toNat_lt
  unfold writeLenWithProtocolLen numExtensionBytes shaHashLen
  omega

/-- A read that does not fail takes bytes off the front of the stream, none only at its end. -/
theorem read_into_runs (deliver : Nat → Delivery) {pos : Nat} (inside : pos ≤ framed.readBuffer.length) :
    (∃ got rest polls, framed.sock.unread = got ++ rest ∧
      got.length ≤ framed.readBuffer.length - pos ∧
      (got = [] → rest = [] ∨ pos = framed.readBuffer.length) ∧
      readInto deliver pos framed = (.ok (some got.length),
        { framed with sock := ⟨rest, polls⟩, readBuffer := patch framed.readBuffer pos got })) ∨
    ∃ poll, deliver poll = .failed ∧ readInto deliver pos framed = (.ok none,
      { framed with sock := { framed.sock with polls := framed.sock.polls + 1 } }) := by
  have space : (sliceFrom framed.readBuffer pos : Outcome IoError Bytes) =
      .ok (framed.readBuffer.drop pos) := slice_from_ok inside
  unfold readInto
  rw [get_bind, space, lift_bind, length_drop]
  unfold Socket.read
  cases event : deliver framed.sock.polls with
  | failed =>
    right
    exact ⟨_, event, rfl⟩
  | bytes more =>
    left
    refine ⟨_, _, _, (take_append_drop _ _).symm, ?_, ?_, rfl⟩
    · rw [length_take]
      omega
    · intro nothing
      rcases take_eq_nil_iff.mp nothing with none | stream
      · right
        omega
      · left
        rw [stream, drop_nil]

theorem patch_front {front : Bytes} {pos : Nat} (blank got : Bytes) (behind : pos = front.length) :
    patch (front ++ blank) pos got = front ++ got ++ blank.drop got.length := by
  rw [behind, patch_behind blank got (Nat.le_refl _), Nat.sub_self]
  simp [patch]

/-- What one turn does to a reader in the middle of a message: it comes nearer to the end, or it returns. -/
def Turned (deliver : Nat → Delivery) (all : Bytes) (framed : FramedHandshake)
    (ran : Outcome IoError (Option (Option HandshakeMessage)) × FramedHandshake) : Prop :=
  (∃ framed', ran = (.ok none, framed') ∧ Reading all framed' ∧ turnsLeft framed' < turnsLeft framed) ∨
    ∃ result framed', ran = (.ok (some result), framed') ∧ Ended deliver all result framed'

theorem read_length_turned (state : framed.state = .waiting) (buffer : framed.readBuffer.length = 1)
    (stream : framed.sock.unread = all) : Turned deliver all framed (readLength deliver framed) := by
  unfold Turned readLength
  rcases read_into_runs deliver (Nat.zero_le framed.readBuffer.length) with
    ⟨got, rest, polls, split, fits, ends, ran⟩ | ⟨poll, failure, ran⟩
  · rw [bind_run ran]
    rw [stream] at split
    match got with
    | [] =>
      right
      have stopped : rest = [] := (ends rfl).resolve_right (by omega)
      rw [stopped, nil_append] at split
      refine ⟨none, _, rfl, .cut (.waiting state ?_ ?_) ?_⟩
      · rwa [patch_nil]
      · rw [stopped, split]
      · rw [split]
        exact .nothing
    | [length] =>
      left
      obtain ⟨longer, shorter⟩ := write_len_bounds length
      have first : (byteAt (patch framed.readBuffer 0 [length]) 0 : Outcome IoError UInt8) =
          .ok length := rfl
      refine ⟨?next, ?ran, ?reading, ?fewer⟩
      case ran =>
        change (Action.get >>= _) _ = _
        rw [get_bind, first, lift_bind]
        rfl
      case reading =>
        refine .length [] (List.replicate (writeLenWithProtocolLen length - 1) 0)
          rfl ?_ rfl ?_ split.symm
        · obtain ⟨more, isMore⟩ : ∃ more, writeLenWithProtocolLen length = more + 1 :=
            ⟨_, (Nat.sub_add_cancel (by omega)).symm⟩
          simp [isMore, replicate_succ]
        · simp
      case fewer =>
        simp only [turnsLeft, state]
        omega
    | _ :: _ :: _ =>
      simp only [length_cons] at fits
      omega
  · right
    rw [bind_run ran]
    exact ⟨none, _, rfl, .failed (.waiting state buffer stream) failure⟩

theorem parse_buffer_turned {length : UInt8} {taken : Bytes} (buffer : framed.readBuffer = length :: taken)
    (size : framed.readBuffer.length = writeLenWithProtocolLen length)
    (stream : length :: taken ++ framed.sock.unread = all) :
    Turned deliver all framed (parseBuffer framed) := by
  right
  have announced : (length :: taken).length = writeLenWithProtocolLen length := by rw [← buffer, size]
  obtain ⟨m, proper, written⟩ := announced_is_written announced
  have parsed : parseRemoteHandshake framed.readBuffer = .ok (m, []) := by
    rw [buffer, ← written, ← parse_written proper [], append_nil]
  rw [parseBuffer, get_bind, parsed]
  refine ⟨some m, _, rfl, .whole proper rfl ?_⟩
  rw [written]
  exact stream

theorem read_rest_turned {length : UInt8} {taken blank : Bytes} (state : framed.state = .length length)
    (buffer : framed.readBuffer = length :: taken ++ blank) (pos : framed.readPos = taken.length + 1)
    (size : framed.readBuffer.length = writeLenWithProtocolLen length)
    (stream : length :: taken ++ framed.sock.unread = all)
    (missing : framed.readPos < framed.readBuffer.length) :
    Turned deliver all framed (readRest deliver framed) := by
  have behind : framed.readPos = (length :: taken).length := by
    rw [length_cons]
    exact pos
  rw [readRest, get_bind]
  rcases read_into_runs deliver (Nat.le_of_lt missing) with
    ⟨got, rest, polls, split, fits, ends, ran⟩ | ⟨poll, failure, ran⟩
  · rw [bind_run ran]
    have filled := patch_front blank got behind
    rw [← buffer] at filled
    match got with
    | [] =>
      right
      have stopped : rest = [] := (ends rfl).resolve_right (by omega)
      rw [stopped, nil_append] at split
      rw [split, append_nil] at stream
      refine ⟨none, _, rfl, .cut (.length taken blank state ?_ pos ?_ ?_) ?_⟩
      · rw [patch_nil, buffer]
      · rw [patch_nil, size]
      · rw [stopped, append_nil, stream]
      · rw [← stream]
        refine .cut ?_
        rw [← behind, ← size]
        exact missing
    | first :: others =>
      left
      have bound := write_len_bounds length
      have sum : (usizeAdd framed.readPos (first :: others).length : Outcome IoError Nat) =
          .ok (framed.readPos + (first :: others).length) := usize_add_ok (by
        unfold usizeMax
        omega)
      refine ⟨?next, ?ran, ?reading, ?fewer⟩
      case ran =>
        change (Action.lift (usizeAdd framed.readPos (first :: others).length) >>= _) _ = _
        rw [sum, lift_bind]
        rfl
      case reading =>
        refine .length (taken ++ first :: others) (blank.drop (first :: others).length) state ?_ ?_ ?_ ?_
        · simpa using filled
        · simp only [length_append, length_cons]
          omega
        · rw [patch_length (by omega), size]
        · rw [← stream, split]
          simp
      case fewer =>
        simp only [turnsLeft, state, length_cons] at fits ⊢
        omega
  · right
    rw [bind_run ran]
    exact ⟨none, _, rfl, .failed (.length taken blank state buffer pos size stream) failure⟩

theorem turn_turned (deliver : Nat → Delivery) (reading : Reading all framed) :
    Turned deliver all framed (turn deliver framed) := by
  unfold turn
  rw [get_bind]
  cases reading with
  | waiting state buffer stream =>
    rw [state]
    exact read_length_turned state buffer stream
  | @length length taken blank state buffer pos size stream =>
    rw [state]
    dsimp only
    have sizes : framed.readPos + blank.length = framed.readBuffer.length := by
      rw [buffer, pos]
      simp
      omega
    by_cases whole : framed.readPos = writeLenWithProtocolLen length
    · rw [if_pos whole]
      have full : blank = [] := eq_nil_of_length_eq_zero (by omega)
      rw [full, append_nil] at buffer
      exact parse_buffer_turned buffer size stream
    · rw [if_neg whole]
      exact read_rest_turned state buffer pos size stream (by omega)

theorem read_finished {fuel : Nat} (enough : 0 < fuel) (state : framed.state = .finished) :
    read deliver fuel framed = (.ok none, framed) := by
  obtain ⟨less, rfl⟩ : ∃ less, fuel = less + 1 := ⟨fuel - 1, by omega⟩
  have ran : turn deliver framed = (.ok (some none), framed) := by
    unfold turn
    rw [get_bind, state]
    rfl
  rw [read, bind_run ran]
  rfl

/-- A call of `read` comes to an end: by induction on the turns. -/
theorem read_ends (deliver : Nat → Delivery) (fuel : Nat) : ∀ {framed : FramedHandshake}, Reading all framed →
    turnsLeft framed ≤ fuel →
    ∃ result framed', read deliver fuel framed = (.ok result, framed') ∧
      Ended deliver all result framed' := by
  induction fuel with
  | zero =>
    intro framed reading enough
    cases reading with
    | waiting state | length taken blank state => simp [turnsLeft, state] at enough
  | succ fuel ih =>
    intro framed reading enough
    rw [read]
    rcases turn_turned deliver reading with
      ⟨next, ran, still, fewer⟩ | ⟨result, next, ran, ended⟩
    · rw [bind_run ran]
      exact ih still (by omega)
    · rw [bind_run ran]
      exact ⟨result, next, rfl, ended⟩

theorem turns_left_le (reading : Reading all framed) : turnsLeft framed ≤ 305 := by
  cases reading with
  | waiting state => simp [turnsLeft, state]
  | @length length _ _ state _ pos =>
    have bound := write_len_bounds length
    simp only [turnsLeft, state]
    omega

end Reading

section Exact
variable {deliver : Nat → Delivery} {fuel : Nat}

theorem written_announces (m : HandshakeMessage) (s : Bytes) : ¬ Short (m.writeBytes ++ s) := by
  obtain ⟨rest, front⟩ := written_head m
  have size := written_length m
  rw [HandshakeMessage.writeLen, front, List.length_cons] at size
  rw [front, List.cons_append]
  intro short
  cases short with
  | cut short =>
    simp only [List.length_cons, List.length_append] at short
    omega

theorem written_unique {m m' : HandshakeMessage} {s s' : Bytes} (proper : m.prot.Proper)
    (proper' : m'.prot.Proper) (same : m'.writeBytes ++ s' = m.writeBytes ++ s) : m' = m ∧ s' = s := by
  have first := parse_written proper s
  rw [← same, parse_written proper' s'] at first
  cases first
  exact ⟨rfl, rfl⟩

theorem prefix_not_written {m m' : HandshakeMessage} {s : Bytes} {n : Nat}
    (inside : n < m.writeBytes.length) : m'.writeBytes ++ s ≠ m.writeBytes.take n := by
  intro same
  obtain ⟨rest, front⟩ := written_head m
  obtain ⟨rest', front'⟩ := written_head m'
  have size := written_length m
  have size' := written_length m'
  have lengths := congrArg List.length same
  rw [List.length_append, List.length_take, Nat.min_eq_left (Nat.le_of_lt inside)] at lengths
  have heads : UInt8.ofNat m'.prot.writeLen = UInt8.ofNat m.prot.writeLen := by
    rw [front, front'] at same
    cases n with
    | zero => cases same
    | succ n => exact (List.cons.inj same).1
  rw [HandshakeMessage.writeLen] at size size'
  rw [heads] at size'
  omega

/-- Whatever was read before, the next `read` returns. -/
theorem after_reads_live (deliver : Nat → Delivery) (enough : 305 ≤ fuel) (incoming : Bytes) (calls : Nat) :
    (∃ all, Reading all (afterReads deliver fuel incoming calls)) ∨
      (afterReads deliver fuel incoming calls).state = .finished := by
  induction calls with
  | zero => exact .inl ⟨_, new_reading incoming⟩
  | succ calls ih =>
    rw [afterReads]
    rcases ih with ⟨all, reading⟩ | state
    · obtain ⟨result, next, ran, ended⟩ := read_ends deliver fuel reading
        (Nat.le_trans (turns_left_le reading) enough)
      rw [ran]
      cases ended with
      | whole _ state => exact .inr state
      | cut reading | failed reading => exact .inl ⟨_, reading⟩
    · rw [read_finished (by omega) state]
      exact .inr state

/-- A handshake in front of any bytes is read whole, those bytes stay in the socket, and nothing more is
    read. A handshake that breaks off is none. No bytes and no failures of the socket make a call of
    `read` panic, fail or go on for ever. -/
theorem framing_takes_exactly_its_bytes (enough : 305 ≤ fuel) :
    (∀ (m : HandshakeMessage) (s : Bytes) (more : Nat → Nat), m.prot ≠ .custom btProtocol →
      ∃ after, read (fun poll => .bytes (more poll)) fuel (.new (m.writeBytes ++ s)) =
          (.ok (some m), after) ∧ after.sock.unread = s ∧
        ∀ (deliver : Nat → Delivery) (again : Nat), 0 < again →
          read deliver again after = (.ok none, after)) ∧
    (∀ (m : HandshakeMessage) (n : Nat) (more : Nat → Nat), n < m.writeBytes.length →
      (read (fun poll => .bytes (more poll)) fuel (.new (m.writeBytes.take n))).1 = .ok none) ∧
    ∀ (incoming : Bytes) (deliver : Nat → Delivery) (calls : Nat),
      ∃ result, (read deliver fuel (afterReads deliver fuel incoming calls)).1 = .ok result := by
  refine ⟨?_, ?_, ?_⟩
  · intro m s more proper
    obtain ⟨result, after, ran, ended⟩ := read_ends (fun poll => .bytes (more poll)) fuel
      (new_reading (m.writeBytes ++ s)) enough
    cases ended with
    | whole proper' state stream =>
      obtain ⟨rfl, rest⟩ := written_unique proper proper' stream
      exact ⟨after, ran, rest, fun deliver again some => read_finished some state⟩
    | cut _ short => exact absurd short (written_announces m s)
    | failed _ failure => cases failure
  · intro m n more inside
    obtain ⟨result, after, ran, ended⟩ := read_ends (fun poll => .bytes (more poll)) fuel
      (new_reading (m.writeBytes.take n)) enough
    cases ended with
    | whole _ _ stream => exact absurd stream (prefix_not_written inside)
    | cut => rw [ran]
    | failed _ failure => cases failure
  · intro incoming deliver calls
    rcases after_reads_live deliver enough incoming calls with ⟨all, reading⟩ | state
    · obtain ⟨result, next, ran, _⟩ := read_ends deliver fuel reading
        (Nat.le_trans (turns_left_le reading) enough)
      exact ⟨result, by rw [ran]⟩
    · exact ⟨none, by rw [read_finished (by omega) state]⟩

def plainHandshake : HandshakeMessage :=
  ⟨.bitTorrent, .new, ⟨Vector.replicate shaHashLen 1⟩, ⟨Vector.replicate shaHashLen 2⟩, bit_torrent_fits⟩

theorem plain_handshake_framed :
    (305 ≤ 305 ∧ plainHandshake.prot ≠ .custom btProtocol ∧ 40 < plainHandshake.writeBytes.length) ∧
    (∃ after, read (fun _ => .bytes 6) 305 (.new (plainHandshake.writeBytes ++ [0, 0, 0, 0])) =
        (.ok (some plainHandshake), after) ∧ after.sock.unread = [0, 0, 0, 0]) ∧
    (read (fun _ => .bytes 6) 305 (.new (plainHandshake.writeBytes.take 40))).1 = .ok none := by
  have proper : plainHandshake.prot ≠ .custom btProtocol := by decide
  have inside : 40 < plainHandshake.writeBytes.length := by decide
  obtain ⟨reads, cuts, _⟩ := framing_takes_exactly_its_bytes (Nat.le_refl 305)
  obtain ⟨after, ran, rest, _⟩ := reads plainHandshake [0, 0, 0, 0] (fun _ => 6) proper
  exact ⟨⟨Nat.le_refl _, proper, inside⟩, ⟨after, ran, rest⟩, cuts plainHandshake 40 (fun _ => 6) inside⟩

end Exact

end HandshakeFramed
