import Bittorrent.Peer.Frame

/-!
Which messages come back from the bytes they are written to. All of them do but the keep-alive, whose
four bytes are never enough for the optional id behind the length, and messages that were put together
by hand: a cached size that is not the size of the dictionary, a metadata message under the id of the
handshake, and handshakes whose builder was given something in the way.
-/
namespace PeerRoundTrip
open Rust Outcome NomParse PeerExtended PeerHandshake PeerMessage PeerFrame List

/-- The id that an extended message, if there is one, gives to metadata messages. -/
def metadataId (extended : Option ExtendedMessage) : Option UInt8 :=
  extended.bind (·.queryId .utMetadata)

/-- The lengths of a message fit in a `u32`. -/
def FitsU32 : PeerWireProtocolMessage → Prop
  | .request msg => msg.blockLength < 2 ^ 32
  | .cancel msg => msg.blockLength < 2 ^ 32
  | msg => msg.messageSize - 4 < 2 ^ 32

/-- What has to be said about a message, and about the id that we gave to metadata messages, for it to
    come back. -/
def Faithful (ours : Option ExtendedMessage) : PeerWireProtocolMessage → Prop
  | .keepAlive => False
  | .bitsExtension (.extended msg) => ∃ builder, msg = .fromBuilder builder ∧ PlainBuilder builder
  | .protExtension (.utMetadata msg) => Sized msg ∧ metadataId ours ≠ some extendedMessageHandshakeId
  | _ => True

/-- Both sides agree about metadata messages, and handshakes come from builders. -/
structure Agreed (ours theirs : Option ExtendedMessage) (msg : PeerWireProtocolMessage) : Prop where
  agree : ∀ inner, msg = .protExtension (.utMetadata inner) →
    ∃ extId, metadataId theirs = some extId ∧ metadataId ours = some extId
  built : ∀ inner, msg = .bitsExtension (.extended inner) → ∃ builder, inner = .fromBuilder builder

structure Sendable (ours theirs : Option ExtendedMessage) (msg : PeerWireProtocolMessage) : Prop
    extends Agreed ours theirs msg where
  fits : FitsU32 msg

variable {ours theirs : Option ExtendedMessage} {msg : PeerWireProtocolMessage}

section Written

theorem known_metadata {extended : Option ExtendedMessage} {extId : UInt8}
    (known : metadataId extended = some extId) :
    ∃ extendedMsg, extended = some extendedMsg ∧ extendedMsg.queryId .utMetadata = some extId :=
  Option.bind_eq_some_iff.mp known

theorem write_metadata (inner : UtMetadataMessage) {extId : UInt8}
    (known : metadataId theirs = some extId) :
    (PeerWireProtocolMessage.protExtension (.utMetadata inner)).writeBytes theirs =
      .ok (frame (UInt32.ofNat (2 + inner.messageSize)) extendedMessageId (extId :: inner.writeBytes)) := by
  obtain ⟨extendedMsg, rfl, query⟩ := known_metadata known
  simp only [PeerWireProtocolMessage.writeBytes, PeerExtensionProtocolMessage.writeBytes, query,
    writeLengthIdPair, frame, Option.toList_some, append_assoc, singleton_append]

/-- A faithful message is written as a frame that is parsed back. -/
theorem faithful_framed (sendable : Sendable ours theirs msg) (faithful : Faithful ours msg) :
    ∃ len id body, msg.writeBytes theirs = .ok (frame len id body) ∧ Framed ours msg len id body := by
  have fits := sendable.fits
  cases msg with
  | keepAlive => exact absurd faithful id
  | choke | unChoke | interested | unInterested =>
    refine ⟨_, _, _, rfl, framed_empty rfl rfl ?_⟩
    intro body
    simp +decide only [parseStandardArm, if_true, if_false]
  | «have» msg => exact ⟨_, _, _, rfl, framed_have msg⟩
  | bitField msg =>
    refine ⟨_, _, _, rfl, framed_bitfield msg ?_⟩
    simp only [FitsU32, PeerWireProtocolMessage.messageSize, messageLengthLenBytes,
      baseBitfieldMessageLen] at fits
    omega
  | request msg => exact ⟨_, _, _, rfl, framed_request msg fits⟩
  | piece msg =>
    refine ⟨_, _, _, rfl, framed_piece msg ?_⟩
    simp only [FitsU32, PeerWireProtocolMessage.messageSize, messageLengthLenBytes,
      basePieceMessageLen] at fits
    omega
  | cancel msg => exact ⟨_, _, _, rfl, framed_cancel msg fits⟩
  | bitsExtension ext =>
    cases ext with
    | port msg => exact ⟨_, _, _, rfl, framed_port msg⟩
    | extended msg =>
      obtain ⟨builder, rfl, plain⟩ := faithful
      refine ⟨_, _, _, rfl, framed_extended builder plain ?_⟩
      simp only [FitsU32, PeerWireProtocolMessage.messageSize, messageLengthLenBytes,
        BitsExtensionMessage.messageSize, baseExtendedMessageLen, ExtendedMessage.bencodeSize,
        ExtendedMessage.fromBuilder] at fits
      omega
  | protExtension ext =>
    cases ext with
    | utMetadata inner =>
      obtain ⟨sized, other⟩ := faithful
      obtain ⟨extId, theirId, ourId⟩ := sendable.agree inner rfl
      obtain ⟨extendedMsg, rfl, query⟩ := known_metadata ourId
      have own : extId ≠ extendedMessageHandshakeId := by
        intro same
        rw [ourId, same] at other
        exact other rfl
      refine ⟨_, _, _, write_metadata inner theirId, framed_metadata inner sized own query ?_⟩
      simp only [FitsU32, PeerWireProtocolMessage.messageSize, messageLengthLenBytes,
        baseProtExtensionMessageLen, PeerExtensionProtocolMessage.messageSize] at fits
      omega
    | custom inner => exact inner.elim

end Written

/-- Writing gives as many bytes as the message says, behind a length that counts them, and parsing them
    gives the message back. -/
def ComesBack (ours theirs : Option ExtendedMessage) (msg : PeerWireProtocolMessage) : Prop :=
  ∃ bytes, msg.writeBytes theirs = .ok bytes ∧ bytes.length = msg.messageSize ∧
    beNat (bytes.take 4) = msg.messageSize - 4 ∧
    ∃ parsed, PeerWireProtocolMessage.parseBytes bytes ours = .ok parsed ∧ Same parsed msg

theorem finish_ok_iff {α : Type} {failed : IoError} {m : Parsed (IoResult α)} {a : α} :
    finish failed m = .ok a ↔ m = .ok (.ok a) := by
  cases m with
  | ok res => cases res <;> simp [finish]
  | err trouble | panic | unfinished => simp [finish]

/-- A handshake never counts as wrong, so the alternatives behind it are not tried. -/
theorem handshake_decided (body : Bytes) (len : UInt32) :
    (do
      let res ← ExtendedMessage.parseBytes body (← subU32 len 2)
      return res.map BitsExtensionMessage.extended : Parsed (IoResult BitsExtensionMessage)) ≠
        .err .error := by
  unfold subU32
  split
  · rw [ok_bind]
    unfold ExtendedMessage.parseBytes
    split
    · cases (do
        let raw := body.take (len - 2).toNat
        let bencode ← decodeIo raw .default
        let root ← BencodeConvert.convertDict IoError.bencodeConvert bencode.kind rootErrorKey
        return .ofDict root raw : Outcome IoError ExtendedMessage) <;> simp [settle]
    · simp
  · simp

variable {parsed : PeerWireProtocolMessage}

theorem handshake_ok {len : UInt32} {body : Bytes} (read : PeerWireProtocolMessage.parseBytes
      (frame len extendedMessageId (extendedMessageHandshakeId :: body)) ours = .ok parsed) :
    ∃ less inner, (subU32 len 2 : Parsed UInt32) = .ok less ∧
      ExtendedMessage.parseBytes body less = .ok (.ok inner) ∧
      parsed = .bitsExtension (.extended inner) := by
  rw [parse_bits (by decide) bits_handshake (handshake_decided body len), finish_ok_iff] at read
  obtain ⟨res, inside, outer⟩ := bind_eq_ok.mp read
  obtain ⟨less, isLess, inside⟩ := bind_eq_ok.mp inside
  obtain ⟨inner, isInner, inside⟩ := bind_eq_ok.mp inside
  cases inside
  cases inner with
  | error e => cases outer
  | ok inner =>
    cases outer
    exact ⟨less, inner, isLess, isInner, rfl⟩

/-- A metadata message is read from exactly the bytes it announces. -/
theorem metadata_read {inner : UtMetadataMessage} {extendedMsg : ExtendedMessage} {extId : UInt8}
    {tail : Bytes} (own : extId ≠ extendedMessageHandshakeId)
    (known : extendedMsg.queryId .utMetadata = some extId) (small : 2 + inner.messageSize < 2 ^ 32)
    (enough : inner.messageSize ≤ tail.length) (read : PeerWireProtocolMessage.parseBytes
      (frame (UInt32.ofNat (2 + inner.messageSize)) extendedMessageId (extId :: tail))
        (some extendedMsg) = .ok parsed) (same : Same parsed (.protExtension (.utMetadata inner))) :
    UtMetadataMessage.parseBytes (tail.take inner.messageSize) = .ok inner := by
  rw [parse_prot own, with_id_known known small enough, finish_ok_iff] at read
  cases result : UtMetadataMessage.parseBytes (tail.take inner.messageSize) with
  | ok msg =>
    rw [result] at read
    cases read
    cases same
    rfl
  | err e | panic | unfinished =>
    rw [result] at read
    cases read

theorem faithful_back (sendable : Sendable ours theirs msg) (faithful : Faithful ours msg) :
    ComesBack ours theirs msg := by
  obtain ⟨len, id, body, written, framed⟩ := faithful_framed sendable faithful
  obtain ⟨parsed, read, same⟩ := framed.whole []
  rw [append_nil] at read
  refine ⟨_, written, ?_, ?_, parsed, read, same⟩
  · rw [frame_length, framed.size]
  · have header : (frame len id body).take 4 = writeU32 len := take_left' (by simp)
    have value := len.toNat_lt
    rw [header, writeU32, be_nat_bytes, framed.announced, framed.size, Nat.mod_eq_of_lt]
    · omega
    · rw [← framed.announced]
      exact value

/-- What is read from the front of a stream that begins with the bytes of a message is this message
    only if it is faithful, or a keep-alive. -/
theorem taken_faithful {bytes front rest : Bytes} (sendable : Sendable ours theirs msg)
    (written : msg.writeBytes theirs = .ok bytes) (begins : front <+: bytes ++ rest)
    (enough : msg.messageSize ≤ front.length)
    (read : PeerWireProtocolMessage.parseBytes front ours = .ok parsed) (same : Same parsed msg) :
    msg = .keepAlive ∨ Faithful ours msg := by
  have fits := sendable.fits
  cases msg with
  | keepAlive => exact .inl rfl
  | bitsExtension ext =>
    right
    cases ext with
    | port msg => trivial
    | extended msg =>
      obtain ⟨builder, rfl⟩ := sendable.built msg rfl
      simp only [FitsU32, PeerWireProtocolMessage.messageSize, messageLengthLenBytes,
        BitsExtensionMessage.messageSize, baseExtendedMessageLen, ExtendedMessage.bencodeSize,
        ExtendedMessage.fromBuilder] at fits enough
      have small : 2 + (bencodeFromBuilder builder).length < 2 ^ 32 := by omega
      have shape : bytes = frame (UInt32.ofNat (2 + (bencodeFromBuilder builder).length))
          extendedMessageId (extendedMessageHandshakeId :: bencodeFromBuilder builder) := by
        cases written
        rfl
      have whole : bytes <+: front := by
        refine prefix_of_prefix_length_le (prefix_append _ _) begins ?_
        rw [shape, frame_length, length_cons]
        omega
      obtain ⟨more, rfl⟩ := whole
      rw [shape, frame_append, cons_append] at read
      obtain ⟨less, inner, isLess, isInner, rfl⟩ := handshake_ok read
      obtain ⟨rest, announced⟩ := announced_less (b := 2) small rfl
      rw [rest] at isLess
      cases isLess
      have allocated : (bencodeFromBuilder builder).length ≤ isizeMax := by
        unfold isizeMax
        omega
      have plain := (built_back_iff builder more announced allocated).mp
      exact ⟨builder, rfl, plain ⟨inner, isInner, same⟩⟩
  | protExtension ext =>
    right
    cases ext with
    | utMetadata inner =>
      obtain ⟨extId, theirId, ourId⟩ := sendable.agree inner rfl
      rw [write_metadata inner theirId] at written
      cases written
      simp only [FitsU32, PeerWireProtocolMessage.messageSize, messageLengthLenBytes,
        baseProtExtensionMessageLen, PeerExtensionProtocolMessage.messageSize] at fits enough
      rw [frame_append] at begins
      obtain ⟨start, rfl, inside⟩ := frame_front begins (by omega)
      rw [frame_length] at enough
      cases start with
      | nil =>
        rw [length_nil] at enough
        omega
      | cons sub tail =>
        obtain ⟨rfl, following⟩ := cons_prefix_cons.mp inside
        rw [length_cons] at enough
        have other : sub ≠ extendedMessageHandshakeId := by
          rintro rfl
          obtain ⟨_, inner', _, _, rfl⟩ := handshake_ok read
          cases same
        refine ⟨?_, by rw [ourId]; simpa using other⟩
        obtain ⟨extendedMsg, rfl, query⟩ := known_metadata ourId
        have taken := metadata_read other query (by omega) (by omega) read same
        refine metadata_taken (.trans ( take_prefix _ _) following) ?_ taken
        rw [length_take]
        unfold isizeMax
        omega
    | custom inner => exact inner.elim
  | _ => exact .inr trivial

theorem back_faithful (sendable : Sendable ours theirs msg) (back : ComesBack ours theirs msg) :
    Faithful ours msg := by
  obtain ⟨bytes, written, size, _, parsed, read, same⟩ := back
  have begins : bytes <+: bytes ++ [] := by simp
  rcases taken_faithful sendable written begins size.ge read same with rfl | faithful
  · cases written
    rw [parse_short (by decide)] at read
    cases read
  · exact faithful

/-- A message comes back from its bytes exactly if it is faithful. -/
theorem message_back_iff (ours theirs : Option ExtendedMessage) (msg : PeerWireProtocolMessage)
    (sendable : Sendable ours theirs msg) : ComesBack ours theirs msg ↔ Faithful ours msg :=
  ⟨back_faithful sendable, faithful_back sendable⟩

/-- The handshake of a peer that calls metadata messages 3. -/
def speaksMetadata : ExtendedMessage :=
  .fromBuilder (ExtendedMessageBuilder.new.withExtendedType .utMetadata (some 3))

theorem metadata_request_back :
    ComesBack (some speaksMetadata) (some speaksMetadata)
      (.protExtension (.utMetadata (.request (.new 1)))) := by
  have sendable : Sendable (some speaksMetadata) (some speaksMetadata)
      (.protExtension (.utMetadata (.request (.new 1)))) :=
    { fits := show 2 + 25 < 2 ^ 32 by decide
      agree := fun _ _ => ⟨3, by decide +kernel, by decide +kernel⟩
      built := fun _ wrong => by cases wrong }
  refine (message_back_iff _ _ _ sendable).mpr ⟨rfl, ?_⟩
  decide +kernel

theorem keep_alive_lost :
    Sendable none none .keepAlive ∧
      PeerWireProtocolMessage.writeBytes .keepAlive none = .ok [0, 0, 0, 0] ∧
      PeerWireProtocolMessage.parseBytes [0, 0, 0, 0] none = .err .failedToParse ∧
      ¬ ComesBack none none .keepAlive := by
  have fits : FitsU32 .keepAlive := show 4 - 4 < 2 ^ 32 by decide
  refine ⟨⟨⟨by simp, by simp⟩, fits⟩, rfl, parse_short (by decide) none, ?_⟩
  rintro ⟨bytes, written, _, _, parsed, read, _⟩
  cases written
  rw [parse_short (by decide)] at read
  cases read

end PeerRoundTrip
