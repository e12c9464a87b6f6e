import Bittorrent.Lib.Action
import Bittorrent.Peer.RoundTrip

/-!
The task that reads the messages of a peer. It fills a buffer from the socket and takes messages off its
front for as long as one can be parsed. Two kinds of streams get it stuck for good: a keep-alive is seen
only once the byte behind it is there, and a message longer than the buffer is never seen at all.
-/
namespace PeerReader
open Rust Action NomParse PeerExtended PeerMessage PeerFrame PeerRoundTrip List

section Loop

def num : Nat := 24 * 1024

/-- `incoming` is what the socket has yet to deliver, `inBuffer` what stands before the position of the
    cursor (the bytes behind it are never looked at), `reported` what the manager was sent. -/
structure ReadTask where
  incoming : Bytes
  inBuffer : Bytes
  codec : PeerWireMessageCodec
  reported : List PeerWireProtocolMessage

def ReadTask.start (incoming : Bytes) (codec : PeerWireMessageCodec) : ReadTask :=
  ⟨incoming, [], codec, []⟩

/-- `peer_read.read(in_slice)` when the socket has `given` bytes at hand. -/
def read (given : Nat) : Action ReadTask Empty Nat := fun task =>
  let space := min given (num - task.inBuffer.length)
  let bytes := task.incoming.take space
  (.ok bytes.length, { task with
    incoming := task.incoming.drop space
    inBuffer := task.inBuffer ++ bytes })

def parse (data : Bytes) : Action ReadTask Empty (Option PeerWireProtocolMessage) := fun task =>
  match task.codec.parseBytes data with
  | (.ok msg, codec) => (.ok (some msg), { task with codec := codec })
  | (.err _, codec) => (.ok none, { task with codec := codec })
  | (.panic, codec) => (.panic, { task with codec := codec })
  | (.unfinished, codec) => (.unfinished, { task with codec := codec })

/-- `while let Ok(msg) = msg_codec.parse_bytes(..)` -/
def parseAll : Nat → Bytes → Action ReadTask Empty Bytes
  | 0, _ => Action.cutOff
  | fuel + 1, data => do
    match ← parse data with
    | none => return data
    | some msg =>
      let data ← Action.lift (sliceFrom data msg.messageSize)
      Action.modify fun task => { task with reported := task.reported ++ [msg] }
      parseAll fuel data

/-- One turn of the outer loop. The codec is shared with the task that writes, which may have sent a
    handshake: `ours` is the one it has left there when the lock is taken. -/
def turn (given : Nat) (ours : Option ExtendedMessage) : Action ReadTask Empty Unit := do
  let bytesRead ← read given
  if bytesRead = 0 then return ()
  else
    let task ← Action.get
    if task.inBuffer.length < 4 then return ()
    else
      Action.modify fun task => { task with codec := { task.codec with ourExtendedMsg := ours } }
      let data ← parseAll (task.inBuffer.length + 1) task.inBuffer
      Action.modify fun task => { task with inBuffer := data }

/-- The first turns of `loop_read_msg`, while the manager listens and the lock is not poisoned. -/
def loopReadMsg (given : Nat → Nat) (ours : Nat → Option ExtendedMessage) :
    Nat → Action ReadTask Empty Unit
  | 0 => return ()
  | turns + 1 => do
    loopReadMsg given ours turns
    turn (given turns) (ours turns)

end Loop

def encodings (theirs : Option ExtendedMessage) : List PeerWireProtocolMessage → Outcome IoError Bytes
  | [] => .ok []
  | msg :: rest => do
    let bytes ← msg.writeBytes theirs
    let more ← encodings theirs rest
    return bytes ++ more

/-- However the bytes come in, after some time the messages have been reported, and that is all that is
    ever reported. -/
def ChunkingIndependent (ours : Nat → Option ExtendedMessage) (codec : PeerWireMessageCodec)
    (stream : Bytes) (msgs : List PeerWireProtocolMessage) : Prop :=
  ∀ given : Nat → Nat, (∀ k, 0 < given k) → ∃ enough, ∀ turns, enough ≤ turns →
    (loopReadMsg given ours turns (.start stream codec)).1 = .ok () ∧
      List.Forall₂ Same (loopReadMsg given ours turns (.start stream codec)).2.reported msgs

/-- A message that gets through the buffer when something follows it. -/
structure Passes (theirs : Option ExtendedMessage) (msg : PeerWireProtocolMessage) : Prop where
  size : msg.messageSize ≤ num
  fits : FitsU32 msg
  faithful : msg = .keepAlive ∨ Faithful theirs msg

section Basics
variable {ours theirs : Option ExtendedMessage} {msg : PeerWireProtocolMessage} {bytes : Bytes}

theorem size_ge_four (msg : PeerWireProtocolMessage) : 4 ≤ msg.messageSize := Nat.le_add_right _ _

theorem same_size {a b : PeerWireProtocolMessage} (same : Same a b) : a.messageSize = b.messageSize := by
  unfold Same at same
  split at same
  · simp only [PeerWireProtocolMessage.messageSize, BitsExtensionMessage.messageSize,
      ExtendedMessage.bencodeSize, same.rawBencode]
  · rw [same]

theorem faithful_agreed (agreed : Agreed ours theirs msg) : Faithful theirs msg ↔ Faithful ours msg := by
  cases msg with
  | protExtension ext =>
    cases ext with
    | utMetadata inner =>
      obtain ⟨extId, theirId, ourId⟩ := agreed.agree inner rfl
      simp only [Faithful, theirId, ourId]
    | custom inner => exact inner.elim
  | bitsExtension ext => cases ext <;> rfl
  | _ => rfl

theorem encodings_cons {rest : List PeerWireProtocolMessage} {stream : Bytes}
    (encoded : encodings theirs (msg :: rest) = .ok stream) :
    ∃ bytes more, msg.writeBytes theirs = .ok bytes ∧ encodings theirs rest = .ok more ∧
      stream = bytes ++ more := by
  obtain ⟨bytes, written, encoded⟩ := Outcome.bind_eq_ok.mp encoded
  obtain ⟨more, others, encoded⟩ := Outcome.bind_eq_ok.mp encoded
  cases encoded
  exact ⟨bytes, more, written, others, rfl⟩

theorem passes_length (agreed : Agreed ours theirs msg) (passes : Passes theirs msg)
    (written : msg.writeBytes theirs = .ok bytes) :
    bytes.length = msg.messageSize ∧ ∃ rest, bytes = 0 :: rest := by
  rcases passes.faithful with rfl | faithful
  · cases written
    exact ⟨rfl, _, rfl⟩
  · have size := passes.size
    obtain ⟨len, id, body, same, framed⟩ :=
      faithful_framed ⟨agreed, passes.fits⟩ ((faithful_agreed agreed).mp faithful)
    rw [written] at same
    cases same
    have announced := framed.announced
    have whole := framed.size
    unfold num at size
    obtain ⟨rest, zero⟩ := write_u32_small (show len.toNat < 2 ^ 24 by omega)
    refine ⟨by rw [frame_length, whole], rest ++ id :: body, ?_⟩
    rw [frame, zero, cons_append]

theorem same_plain {a b : PeerWireProtocolMessage} (same : Same a b)
    (plain : ∀ inner, b ≠ .bitsExtension (.extended inner)) : a = b := by
  unfold Same at same
  split at same
  · exact absurd rfl (plain _)
  · exact same

variable {parsed : PeerWireProtocolMessage}

/-- The length of a block is cut down to a `u32` when it is written. -/
theorem taken_block {front rest : Bytes} {len : UInt32} {id : UInt8}
    {wrap : Block → PeerWireProtocolMessage} (injective : ∀ a b, wrap a = wrap b → a = b)
    (plain : ∀ block inner, wrap block ≠ .bitsExtension (.extended inner))
    (framed : ∀ block : Block, block.blockLength < 2 ^ 32 →
      Framed ours (wrap block) len id block.writeFields)
    (block : Block) (begins : front <+: frame len id block.writeFields ++ rest)
    (enough : 17 ≤ front.length) (read : PeerWireProtocolMessage.parseBytes front ours = .ok parsed)
    (same : Same parsed (wrap block)) : block.blockLength < 2 ^ 32 := by
  let written : Block := ⟨block.pieceIndex, block.blockOffset, (UInt32.ofNat block.blockLength).toNat⟩
  have small : written.blockLength < 2 ^ 32 := (UInt32.ofNat block.blockLength).toNat_lt
  have fields : written.writeFields = block.writeFields := by
    simp only [written, Block.writeFields, UInt32.ofNat_toNat]
  have whole : frame len id block.writeFields <+: front := by
    refine prefix_of_prefix_length_le (prefix_append _ _) begins ?_
    rw [frame_length, block_length]
    exact enough
  obtain ⟨more, rfl⟩ := whole
  obtain ⟨again, readAgain, sameAgain⟩ := (framed written small).whole more
  rw [frame_append] at read
  rw [fields, read] at readAgain
  cases readAgain
  have isWritten := same_plain sameAgain (plain written)
  rw [same_plain same (plain block)] at isWritten
  rw [injective _ _ isWritten]
  exact small

theorem taken_fits {front rest : Bytes}
    (written : msg.writeBytes theirs = .ok bytes) (begins : front <+: bytes ++ rest)
    (enough : msg.messageSize ≤ front.length) (held : front.length ≤ num)
    (read : PeerWireProtocolMessage.parseBytes front ours = .ok parsed) (same : Same parsed msg) :
    FitsU32 msg := by
  have small : msg.messageSize - 4 < 2 ^ 32 := by
    unfold num at held
    omega
  cases msg with
  | request block =>
    cases written
    exact taken_block (fun _ _ same => PeerWireProtocolMessage.request.inj same) (by simp) framed_request
      block begins enough read same
  | cancel block =>
    cases written
    exact taken_block (fun _ _ same => PeerWireProtocolMessage.cancel.inj same) (by simp) framed_cancel
      block begins enough read same
  | _ => exact small

end Basics

section Taken
variable {ours : Nat → Option ExtendedMessage} {stream rest : Bytes}
  {msgs items : List PeerWireProtocolMessage}

/-- Messages taken one after the other from the front of a stream, each parsed from as much of it as the
    buffer held. -/
inductive Taken (ours : Nat → Option ExtendedMessage) :
    Bytes → List PeerWireProtocolMessage → Bytes → Prop where
  | none (stream : Bytes) : Taken ours stream [] stream
  | next {stream front rest : Bytes} {msg : PeerWireProtocolMessage} {msgs : List PeerWireProtocolMessage}
      (turn : Nat) (begins : front <+: stream) (held : front.length ≤ num)
      (read : PeerWireProtocolMessage.parseBytes front (ours turn) = .ok msg)
      (enough : msg.messageSize ≤ front.length)
      (others : Taken ours (stream.drop msg.messageSize) msgs rest) : Taken ours stream (msg :: msgs) rest

theorem taken_append {middle : Bytes} {more : List PeerWireProtocolMessage}
    (first : Taken ours stream items middle) (second : Taken ours middle more rest) :
    Taken ours stream (items ++ more) rest := by
  induction first with
  | none stream => exact second
  | next turn begins held read enough others ih =>
    exact .next turn begins held read enough (ih second)

theorem parse_eq (data : Bytes) (task : ReadTask) :
    ∃ codec, codec.ourExtendedMsg = task.codec.ourExtendedMsg ∧ parse data task =
      (match PeerWireProtocolMessage.parseBytes data task.codec.ourExtendedMsg with
        | .ok msg => .ok (some msg)
        | .err _ => .ok none
        | .panic => .panic
        | .unfinished => .unfinished, { task with codec := codec }) := by
  obtain ⟨after, answer, kept⟩ := codec_parse task.codec data
  refine ⟨after, kept, ?_⟩
  unfold parse
  rw [answer]
  cases PeerWireProtocolMessage.parseBytes data task.codec.ourExtendedMsg <;> rfl

def Refused (ours : Option ExtendedMessage) (data : Bytes) : Prop :=
  ∃ e, PeerWireProtocolMessage.parseBytes data ours = .err e

/-- The parser fails on the data, or finds a message that is longer. -/
def Broken (ours : Option ExtendedMessage) (data : Bytes) : Prop :=
  ¬ Refused ours data ∧
    ∀ msg, PeerWireProtocolMessage.parseBytes data ours = .ok msg → ¬ msg.messageSize ≤ data.length

theorem parse_all_taken (turn : Nat) (fuel : Nat) : ∀ {data : Bytes} {task : ReadTask},
    task.codec.ourExtendedMsg = ours turn → data.length ≤ num → data.length < fuel →
    ∃ items data' codec, data'.length ≤ num ∧ (∀ more, Taken ours (data ++ more) items (data' ++ more)) ∧
      (Refused (ours turn) data' ∧ parseAll fuel data task =
          (.ok data', { task with codec := codec, reported := task.reported ++ items }) ∨
        Broken (ours turn) data' ∧ ∀ x, (parseAll fuel data task).1 ≠ .ok x) := by
  induction fuel with
  | zero =>
    intro data task _ _ short
    omega
  | succ fuel ih =>
    intro data task same held short
    obtain ⟨codec, kept, shape⟩ := parse_eq data task
    rw [same] at shape
    cases outcome : PeerWireProtocolMessage.parseBytes data (ours turn) with
    | err e =>
      rw [outcome] at shape
      refine ⟨[], data, codec, held, fun more => .none _, .inl ⟨⟨e, outcome⟩, ?_⟩⟩
      rw [append_nil]
      exact bind_run shape
    | ok msg =>
      rw [outcome] at shape
      have size := size_ge_four msg
      by_cases enough : msg.messageSize ≤ data.length
      · let after : ReadTask := { task with codec := codec, reported := task.reported ++ [msg] }
        obtain ⟨items, data', codec', held', taken, ended⟩ :=
          ih (show after.codec.ourExtendedMsg = ours turn from kept.trans same)
            (Nat.le_trans (drop_sublist msg.messageSize data).length_le held)
            (by rw [length_drop]; omega)
        have step : parseAll (fuel + 1) data task = parseAll fuel (data.drop msg.messageSize) after := by
          refine (bind_run shape).trans ?_
          dsimp only
          rw [slice_from_ok enough]
          rfl
        refine ⟨msg :: items, data', codec', held', fun more => ?_, ?_⟩
        · refine .next turn (prefix_append _ _) held outcome enough ?_
          rw [drop_append_of_le_length enough]
          exact taken more
        · rw [step, append_cons]
          exact ended
      · have panics : parseAll (fuel + 1) data task = (.panic, { task with codec := codec }) := by
          refine (bind_run shape).trans ?_
          dsimp only
          rw [sliceFrom, if_neg enough]
          rfl
        refine ⟨[], data, codec, held, fun more => .none _, .inr ⟨?_, by simp [panics]⟩⟩
        simpa [Broken, Refused, outcome] using enough
    | panic | unfinished =>
      rw [outcome] at shape
      refine ⟨[], data, codec, held, fun more => .none _, .inr ⟨by simp [Broken, Refused, outcome], ?_⟩⟩
      exact (bind_stops (by simp [shape])).1

theorem read_eq (given : Nat) (task : ReadTask) : ∃ bytes more,
    task.incoming = bytes ++ more ∧
      bytes.length = min (min given (num - task.inBuffer.length)) task.incoming.length ∧
      read given task =
        (.ok bytes.length, { task with incoming := more, inBuffer := task.inBuffer ++ bytes }) :=
  ⟨_, _, (take_append_drop _ _).symm, length_take, rfl⟩

/-- What was reported was taken from the stream, and the rest is in the buffer or yet to come. -/
structure Follows (ours : Nat → Option ExtendedMessage) (stream : Bytes) (task : ReadTask) : Prop where
  taken : Taken ours stream task.reported (task.inBuffer ++ task.incoming)
  held : task.inBuffer.length ≤ num

/-- A turn reads nothing, or goes on to a buffer from which nothing can be parsed, unless that fails. -/
theorem turn_follows (given index : Nat) {task : ReadTask} (follows : Follows ours stream task) :
    (given = 0 ∨ num ≤ task.inBuffer.length ∨ task.incoming = []) ∧
        turn given (ours index) task = (.ok (), task) ∨
      ∃ task', Follows ours stream task' ∧ task'.incoming.length < task.incoming.length ∧
        (Refused (ours index) task'.inBuffer ∧ turn given (ours index) task = (.ok (), task') ∨
          Broken (ours index) task'.inBuffer ∧ (turn given (ours index) task).1 ≠ .ok ()) := by
  obtain ⟨bytes, more, parts, count, shape⟩ := read_eq given task
  have held := follows.held
  have taken := follows.taken
  rw [parts, ← append_assoc] at taken
  have inside : (task.inBuffer ++ bytes).length ≤ num := by
    rw [length_append]
    omega
  by_cases none : bytes.length = 0
  · refine .inl ⟨?_, ?_⟩
    · rw [← length_eq_zero_iff]
      omega
    · obtain rfl := length_eq_zero_iff.mp none
      rw [append_nil, ← show task.incoming = more from parts] at shape
      exact bind_run shape
  right
  have shorter : more.length < task.incoming.length := by
    rw [parts, length_append]
    omega
  by_cases few : (task.inBuffer ++ bytes).length < 4
  · refine ⟨{ task with incoming := more, inBuffer := task.inBuffer ++ bytes }, ⟨taken, inside⟩, shorter,
      .inl ⟨⟨_, parse_short (Nat.lt_succ_of_lt few) _⟩, ?_⟩⟩
    refine (bind_run shape).trans ?_
    rw [if_neg none]
    refine (bind_run rfl).trans ?_
    rw [if_pos few]
    rfl
  · let locked : ReadTask := { task with
      incoming := more
      inBuffer := task.inBuffer ++ bytes
      codec := { task.codec with ourExtendedMsg := ours index } }
    have step : turn given (ours index) task =
        (parseAll ((task.inBuffer ++ bytes).length + 1) (task.inBuffer ++ bytes) >>= fun data =>
          Action.modify fun task => { task with inBuffer := data }) locked := by
      refine (bind_run shape).trans ?_
      rw [if_neg none]
      refine (bind_run rfl).trans ?_
      rw [if_neg few]
      rfl
    obtain ⟨items, data, codec, held', others, ended⟩ := parse_all_taken index
      _ (show locked.codec.ourExtendedMsg = ours index from rfl) inside (Nat.lt_succ_self _)
    refine ⟨⟨more, data, codec, task.reported ++ items⟩, ⟨taken_append taken (others more), held'⟩, shorter, ?_⟩
    rw [step]
    rcases ended with ⟨refused, run⟩ | ⟨broken, failed⟩
    · exact .inl ⟨refused, bind_run run⟩
    · exact .inr ⟨broken, (bind_stops failed).1 ()⟩

theorem loop_follows {given : Nat → Nat} {codec : PeerWireMessageCodec} (turns : Nat) :
    ∀ {task}, loopReadMsg given ours turns (.start stream codec) = (.ok (), task) →
      Follows ours stream task := by
  induction turns with
  | zero =>
    intro task ended
    cases ended
    exact ⟨.none _, Nat.zero_le _⟩
  | succ turns ih =>
    intro task ended
    obtain ⟨_, before, earlier, ended⟩ := bind_ok ended
    rcases turn_follows (given turns) turns (ih earlier) with
      ⟨_, same⟩ | ⟨after, follows, _, ⟨_, run⟩ | ⟨_, failed⟩⟩
    · rw [same] at ended
      cases ended
      exact ih earlier
    · rw [run] at ended
      cases ended
      exact follows
    · exact absurd (congrArg Prod.fst ended) failed

/-- If the messages of a stream are what was taken from it, then they all get through. -/
theorem taken_passes {theirs : Option ExtendedMessage} (taken : Taken ours stream items rest) :
    ∀ {msgs}, (∀ index, ∀ msg ∈ msgs, Agreed (ours index) theirs msg) → List.Forall₂ Same items msgs →
      encodings theirs msgs = .ok stream →
      (∀ msg ∈ msgs, Passes theirs msg) ∧ msgs.getLast? ≠ some .keepAlive := by
  induction taken with
  | none stream =>
    intro msgs _ same _
    cases same
    simp
  | @next stream front rest item items index begins held read enough others ih =>
    intro msgs agreed same encoded
    cases same with
    | @cons _ msg _ msgs isMsg areMsgs =>
      obtain ⟨bytes, more, written, following, rfl⟩ := encodings_cons encoded
      have agree := agreed index msg (.head _)
      rw [same_size isMsg] at enough others
      have fits := taken_fits written begins enough held read isMsg
      have faithful := taken_faithful ⟨agree, fits⟩ written begins enough read isMsg
      have passes : Passes theirs msg :=
        ⟨le_trans enough held, fits, faithful.imp_right (faithful_agreed agree).mpr⟩
      have length := (passes_length agree passes written).1
      rw [same_size isMsg, drop_left' length] at ih
      obtain ⟨all, last⟩ :=
        ih (fun index msg member => agreed index msg (.tail _ member)) areMsgs following
      refine ⟨forall_mem_cons.mpr ⟨passes, all⟩, ?_⟩
      cases msgs with
      | nil =>
        intro alone
        cases Option.some.inj alone
        cases written
        cases following
        have short : front.length < 5 := Nat.lt_succ_of_le begins.length_le
        rw [parse_short short] at read
        cases read
      | cons next msgs =>
        rw [List.getLast?_cons_cons]
        exact last

end Taken

/-- Messages that all get through. -/
structure Clear (ours : Nat → Option ExtendedMessage) (theirs : Option ExtendedMessage)
    (msgs : List PeerWireProtocolMessage) : Prop where
  agreed : ∀ index, ∀ msg ∈ msgs, Agreed (ours index) theirs msg
  passes : ∀ msg ∈ msgs, Passes theirs msg
  last : msgs.getLast? ≠ some .keepAlive

section Through
variable {ours : Nat → Option ExtendedMessage} {theirs : Option ExtendedMessage}
  {msg : PeerWireProtocolMessage} {msgs rest : List PeerWireProtocolMessage} {stream : Bytes}

theorem clear_rest (clear : Clear ours theirs (msg :: rest)) : Clear ours theirs rest where
  agreed := fun index msg member => clear.agreed index msg (.tail _ member)
  passes := (forall_mem_cons.mp clear.passes).2
  last := by
    cases rest with
    | nil => simp
    | cons next rest =>
      have last := clear.last
      rwa [List.getLast?_cons_cons] at last

theorem clear_written (clear : Clear ours theirs (msg :: rest))
    (encoded : encodings theirs (msg :: rest) = .ok stream) :
    ∃ bytes more tail, msg.writeBytes theirs = .ok bytes ∧ encodings theirs rest = .ok more ∧
      stream = bytes ++ more ∧ bytes.length = msg.messageSize ∧ bytes = 0 :: tail := by
  obtain ⟨bytes, more, written, following, shape⟩ := encodings_cons encoded
  obtain ⟨length, tail, zero⟩ := passes_length (clear.agreed 0 msg (.head _))
    (clear.passes msg (.head _)) written
  exact ⟨bytes, more, tail, written, following, shape, length, zero⟩

/-- What can be parsed from a buffer that ends anywhere in a stream: the first message, or nothing yet. -/
def Answer (ours : Option ExtendedMessage) (msg : PeerWireProtocolMessage) (front stream : Bytes) : Prop :=
  (Refused ours front ∧ front.length < num ∧ front ≠ stream) ∨
    ∃ parsed, PeerWireProtocolMessage.parseBytes front ours = .ok parsed ∧ Same parsed msg ∧
      msg.messageSize ≤ front.length

variable {front : Bytes}

variable (index : Nat)

theorem keep_alive_answer (clear : Clear ours theirs (.keepAlive :: rest))
    (encoded : encodings theirs (.keepAlive :: rest) = .ok stream) (begins : front <+: stream) :
    Answer (ours index) .keepAlive front stream := by
  obtain ⟨bytes, more, _, written, following, rfl, _, _⟩ := clear_written clear encoded
  cases written
  cases rest with
  | nil => exact absurd rfl clear.last
  | cons next rest =>
    obtain ⟨bytes, others, tail, _, _, rfl, length, rfl⟩ := clear_written (clear_rest clear) following
    by_cases short : front.length < 5
    · refine .inl ⟨⟨_, parse_short short _⟩, lt_trans short (by decide), ?_⟩
      intro same
      rw [same, length_append, length_append, length_cons] at short
      simp only [writeLengthIdPair, length_append, write_u32_length] at short
      omega
    · have framed : front <+: frame 0 0 (tail ++ others) := begins
      obtain ⟨start, rfl, _⟩ := frame_front framed (by omega)
      refine .inr ⟨.keepAlive, parse_arm (m := .ok (.ok .keepAlive)) ?_ (by simp), rfl, ?_⟩
      · simp +decide only [parseStandardArm, if_true, if_false]
      · have size : PeerWireProtocolMessage.keepAlive.messageSize = 4 := rfl
        omega

theorem faithful_answer (clear : Clear ours theirs (msg :: rest))
    (faithful : Faithful theirs msg) (encoded : encodings theirs (msg :: rest) = .ok stream)
    (begins : front <+: stream) : Answer (ours index) msg front stream := by
  obtain ⟨bytes, more, _, written, following, rfl, length, _⟩ := clear_written clear encoded
  have agreed := clear.agreed index msg (.head _)
  have passes := clear.passes msg (.head _)
  obtain ⟨len, id, body, same, framed⟩ :=
    faithful_framed ⟨agreed, passes.fits⟩ ((faithful_agreed agreed).mp faithful)
  rw [written] at same
  cases same
  by_cases whole : (frame len id body).length ≤ front.length
  · obtain ⟨after, rfl⟩ := prefix_of_prefix_length_le (prefix_append _ _) begins whole
    obtain ⟨parsed, read, same⟩ := framed.whole after
    rw [← frame_append] at read
    exact .inr ⟨parsed, read, same, by omega⟩
  · have size := passes.size
    have inside : front <+: frame len id body :=
      prefix_of_prefix_length_le begins (prefix_append _ _) (by omega)
    refine .inl ⟨?_, by omega, ?_⟩
    · by_cases short : front.length < 5
      · exact ⟨_, parse_short short _⟩
      · obtain ⟨start, rfl, part⟩ := frame_front inside (by omega)
        rw [frame_length, frame_length] at whole
        exact framed.cut start part (by omega)
    · intro same
      rw [same, length_append] at whole
      omega

theorem front_answer (clear : Clear ours theirs (msg :: rest))
    (encoded : encodings theirs (msg :: rest) = .ok stream) (begins : front <+: stream) :
    Answer (ours index) msg front stream := by
  rcases (clear.passes msg (.head _)).faithful with rfl | faithful
  · exact keep_alive_answer index clear encoded begins
  · exact faithful_answer index clear faithful encoded begins

/-- What is taken from a clear stream are its first messages. -/
theorem taken_split {items : List PeerWireProtocolMessage} {left : Bytes}
    (taken : Taken ours stream items left) : ∀ {msgs}, Clear ours theirs msgs →
      encodings theirs msgs = .ok stream → ∃ done rest, msgs = done ++ rest ∧
        List.Forall₂ Same items done ∧ Clear ours theirs rest ∧ encodings theirs rest = .ok left := by
  induction taken with
  | none stream => exact fun clear encoded => ⟨[], _, rfl, .nil, clear, encoded⟩
  | @next stream front rest item items index begins held read enough others ih =>
    intro msgs clear encoded
    cases msgs with
    | nil =>
      cases encoded
      rw [prefix_nil.mp begins, parse_short (by decide)] at read
      cases read
    | cons msg msgs =>
      obtain ⟨bytes, more, _, _, following, rfl, length, _⟩ := clear_written clear encoded
      rcases front_answer index clear encoded begins with ⟨⟨e, refused⟩, _⟩ | ⟨parsed, found, isMsg, _⟩
      · rw [read] at refused
        cases refused
      · rw [read] at found
        cases found
        rw [same_size isMsg, drop_left' length] at ih
        obtain ⟨done, rest, rfl, sames, clear', encoded'⟩ := ih (clear_rest clear) following
        exact ⟨msg :: done, rest, rfl, .cons isMsg sames, clear', encoded'⟩

theorem encodings_nil (clear : Clear ours theirs msgs) (encoded : encodings theirs msgs = .ok []) :
    msgs = [] := by
  cases msgs with
  | nil => rfl
  | cons msg rest =>
    obtain ⟨bytes, more, tail, _, _, empty, _, rfl⟩ := clear_written clear encoded
    cases empty

/-- Unless everything was reported there is more to come and space for it. -/
def Moving (task : ReadTask) : Prop :=
  task.inBuffer ++ task.incoming = [] ∨ task.inBuffer.length < num ∧ task.incoming ≠ []

section
variable (clear : Clear ours theirs msgs) (encoded : encodings theirs msgs = .ok stream)
include clear encoded

theorem turn_clear {given : Nat} {task : ReadTask} (some : 0 < given) (follows : Follows ours stream task)
    (moving : Moving task) :
    ∃ task', turn given (ours index) task = (.ok (), task') ∧ Follows ours stream task' ∧ Moving task' ∧
      task'.incoming.length ≤ task.incoming.length - 1 := by
  rcases turn_follows given index follows with ⟨why, same⟩ | ⟨task', follows', shorter, ended⟩
  · refine ⟨task, same, follows, moving, ?_⟩
    rcases moving with whole | ⟨space, waiting⟩
    · rw [(append_eq_nil_iff.mp whole).2]
      exact Nat.zero_le _
    · rcases why with none | full | empty
      · omega
      · omega
      · exact absurd empty waiting
  · obtain ⟨done, left, _, _, clear', encoded'⟩ := taken_split follows'.taken clear encoded
    have answer : Refused (ours index) task'.inBuffer ∧ Moving task' ∨
        ∃ msg, PeerWireProtocolMessage.parseBytes task'.inBuffer (ours index) = .ok msg ∧
          msg.messageSize ≤ task'.inBuffer.length := by
      cases left with
      | nil =>
        have whole := (Outcome.ok.inj encoded').symm
        rw [(append_eq_nil_iff.mp whole).1]
        exact .inl ⟨⟨_, parse_short (by decide) _⟩, .inl whole⟩
      | cons msg rest =>
        rcases front_answer index clear' encoded' (prefix_append _ _) with
          ⟨refused, room, unequal⟩ | ⟨parsed, read, isMsg, enough⟩
        · refine .inl ⟨refused, .inr ⟨room, ?_⟩⟩
          intro empty
          rw [empty, append_nil] at unequal
          exact unequal rfl
        · exact .inr ⟨parsed, read, same_size isMsg ▸ enough⟩
    rcases ended with ⟨⟨e, refused⟩, run⟩ | ⟨broken, _⟩
    · rcases answer with ⟨_, moving'⟩ | ⟨msg, read, _⟩
      · exact ⟨task', run, follows', moving', by omega⟩
      · rw [read] at refused
        cases refused
    · rcases answer with ⟨refused, _⟩ | ⟨msg, read, enough⟩
      · exact absurd refused broken.1
      · exact absurd enough (broken.2 msg read)

theorem loop_clear {given : Nat → Nat} (codec : PeerWireMessageCodec) (some : ∀ k, 0 < given k)
    (turns : Nat) :
    ∃ task, loopReadMsg given ours turns (.start stream codec) = (.ok (), task) ∧
      Follows ours stream task ∧ Moving task ∧ task.incoming.length ≤ stream.length - turns := by
  induction turns with
  | zero =>
    refine ⟨_, rfl, ⟨.none _, Nat.zero_le _⟩, ?_, le_refl _⟩
    by_cases empty : stream = []
    · exact .inl empty
    · exact .inr ⟨show 0 < num by decide, empty⟩
  | succ turns ih =>
    obtain ⟨before, earlier, follows, moving, left⟩ := ih
    obtain ⟨task, ended, follows', moving', shorter⟩ :=
      turn_clear turns clear encoded (some turns) follows moving
    exact ⟨task, (bind_run earlier).trans ended, follows', moving', by omega⟩

end

end Through

section Independence
variable {ours : Nat → Option ExtendedMessage} {theirs : Option ExtendedMessage}
  {codec : PeerWireMessageCodec} {msgs : List PeerWireProtocolMessage} {stream : Bytes}

theorem independent_passes (agreed : ∀ index, ∀ msg ∈ msgs, Agreed (ours index) theirs msg)
    (encoded : encodings theirs msgs = .ok stream)
    (independent : ChunkingIndependent ours codec stream msgs) :
    (∀ msg ∈ msgs, Passes theirs msg) ∧ msgs.getLast? ≠ some .keepAlive := by
  obtain ⟨enough, reports⟩ := independent (fun _ => 1) fun _ => Nat.one_pos
  obtain ⟨returned, sames⟩ := reports enough (le_refl _)
  have follows := loop_follows enough (Prod.ext returned rfl)
  exact taken_passes follows.taken agreed sames encoded

theorem clear_independent (clear : Clear ours theirs msgs)
    (encoded : encodings theirs msgs = .ok stream) : ChunkingIndependent ours codec stream msgs := by
  intro given some
  refine ⟨stream.length, ?_⟩
  intro turns enough
  obtain ⟨task, ended, follows, moving, left⟩ := loop_clear clear encoded codec some turns
  have all : task.incoming = [] := length_eq_zero_iff.mp (by omega)
  have nothing := moving.resolve_right fun more => more.2 all
  obtain ⟨done, rest, rfl, sames, clear', encoded'⟩ := taken_split follows.taken clear encoded
  rw [nothing] at encoded'
  rw [ended, encodings_nil clear' encoded', append_nil]
  exact ⟨rfl, sames⟩

end Independence

/-- A stream is reported message by message however it is cut, exactly if every message fits into the
    buffer and, keep-alives aside, comes back from its bytes, and the last one is no keep-alive. -/
theorem chunking_independent_iff (ours : Nat → Option ExtendedMessage)
    (theirs : Option ExtendedMessage) (codec : PeerWireMessageCodec)
    (msgs : List PeerWireProtocolMessage) (stream : Bytes)
    (agreed : ∀ index, ∀ msg ∈ msgs, Agreed (ours index) theirs msg)
    (encoded : encodings theirs msgs = .ok stream) :
    ChunkingIndependent ours codec stream msgs ↔
      (∀ msg ∈ msgs, Passes theirs msg) ∧ msgs.getLast? ≠ some .keepAlive := by
  constructor
  · exact independent_passes agreed encoded
  · rintro ⟨passes, last⟩
    exact clear_independent ⟨agreed, passes, last⟩ encoded

theorem have_after_keep_alive :
    ChunkingIndependent (fun _ => none) .new [0, 0, 0, 0, 0, 0, 0, 5, 4, 0, 0, 0, 7]
      [.keepAlive, .have ⟨7⟩] := by
  refine (chunking_independent_iff _ none _ _ _ ?_ (by decide)).mpr ⟨?_, by decide⟩
  · intro index msg member
    rcases mem_pair.mp member with rfl | rfl
    · exact ⟨by simp, by simp⟩
    · exact ⟨by simp, by simp⟩
  · intro msg member
    rcases mem_pair.mp member with rfl | rfl
    · exact ⟨by decide, show 4 - 4 < 2 ^ 32 by decide, .inl rfl⟩
    · exact ⟨show 9 ≤ num by decide, show 9 - 4 < 2 ^ 32 by decide, .inr trivial⟩

/-- A keep-alive with nothing behind it, and a block one byte too long for the buffer. -/
theorem stuck_streams :
    encodings none [.keepAlive] = .ok [0, 0, 0, 0] ∧
      ¬ ChunkingIndependent (fun _ => none) .new [0, 0, 0, 0] [.keepAlive] ∧
      ∃ stream, encodings none [.piece ⟨0, 0, List.replicate 24564 0⟩] = .ok stream ∧
        ¬ ChunkingIndependent (fun _ => none) .new stream [.piece ⟨0, 0, List.replicate 24564 0⟩] := by
  refine ⟨rfl, ?_, _, rfl, ?_⟩
  · intro independent
    have agreed : ∀ _ : Nat, ∀ msg ∈ [PeerWireProtocolMessage.keepAlive], Agreed none none msg := by
      intro _ msg member
      cases mem_singleton.mp member
      exact ⟨by simp, by simp⟩
    have passes := independent_passes agreed rfl independent
    exact passes.2 rfl
  · intro independent
    have agreed : ∀ block (_ : Nat), ∀ msg ∈ [PeerWireProtocolMessage.piece block],
        Agreed none none msg := by
      intro block _ msg member
      cases mem_singleton.mp member
      exact ⟨by simp, by simp⟩
    have passes := independent_passes (agreed _) rfl independent
    have size := (passes.1 _ (mem_singleton_self _)).size
    simp only [PeerWireProtocolMessage.messageSize, messageLengthLenBytes, basePieceMessageLen,
      length_replicate] at size
    exact absurd size (by decide)

end PeerReader
