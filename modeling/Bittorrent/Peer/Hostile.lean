import Bittorrent.Peer.RoundTrip

/-!
Which bytes of a peer panic the parser. The announced length is taken at its word: it is decreased by one
or two before anything is compared with it, and by eight more in a piece message. What is left are the
dictionaries of the extension protocol, on which the decoder itself may panic.
-/
namespace PeerHostile
open Rust Outcome NomParse BencodeValue BencodeConvert BencodeRoundTrip BencodePanic PeerExtended
  PeerMessage PeerFrame PeerRoundTrip

/-- The announced bytes are all there, and the decoder panics on them. -/
def BadBody (opts : BDecodeOpt) (len : UInt32) (rest : Bytes) : Prop :=
  len.toNat - 2 ≤ rest.length ∧ BadValue (rest.take (len.toNat - 2)) opts

inductive Trips (ours : Option ExtendedMessage) : UInt32 → UInt8 → Bytes → Prop where
  | bitfield (body : Bytes) : Trips ours 0 bitfieldMessageId body
  | piece (body : Bytes) : Trips ours 0 pieceMessageId body
  | block {len : UInt32} {body : Bytes} (short : len < 9) (fields : 8 ≤ body.length) :
      Trips ours len pieceMessageId body
  | handshake {len : UInt32} {rest : Bytes} (bad : len < 2 ∨ BadBody .default len rest) :
      Trips ours len extendedMessageId (extendedMessageHandshakeId :: rest)
  | extension {len : UInt32} {sub : UInt8} {rest : Bytes} (other : sub ≠ extendedMessageHandshakeId)
      (spoken : ours ≠ none) (short : len < 2) : Trips ours len extendedMessageId (sub :: rest)
  | metadata {len : UInt32} {sub : UInt8} {rest : Bytes} (other : sub ≠ extendedMessageHandshakeId)
      (known : metadataId ours = some sub) (bad : BadBody metadataDecodeOpts len rest) :
      Trips ours len extendedMessageId (sub :: rest)

section Parts
variable {α ε : Type} {ours : Option ExtendedMessage} {len : UInt32} {id : UInt8} {raw body : Bytes}

theorem finish_settled_iff {failed : IoError} {m : Parsed (IoResult α)} :
    Settled (finish failed m) ↔ Settled m := by
  cases m with
  | ok res => cases res <;> simp [finish, Settled]
  | err trouble | panic | unfinished => simp [finish, Settled]

theorem settle_settled_iff {m : Outcome IoError α} : Settled (settle m) ↔ Settled m := by
  cases m <;> simp [settle, Settled]

theorem map_settled_iff {β : Type} {m : Parsed (IoResult α)} {f : α → β} :
    Settled (do return (← m).map f : Parsed (IoResult β)) ↔ Settled m :=
  settled_bind_iff fun _ _ => settled_ok _

theorem sub_u32_settled_iff {a b : UInt32} : Settled (subU32 a b : Outcome ε UInt32) ↔ b ≤ a := by
  unfold subU32
  split <;> simp_all [Settled]

theorem decode_io_settled_iff {opts : BDecodeOpt} (fits : raw.length ≤ isizeMax) :
    Settled (decodeIo raw opts) ↔ ¬ BadValue raw opts := by
  rw [← decode_panic_iff fits]
  have finished : BencodeDecode.BencodeRef.decode raw opts ≠ .unfinished := decode_finished fits
  unfold decodeIo
  cases outcome : BencodeDecode.BencodeRef.decode raw opts with
  | ok r | err e | panic => simp [Settled]
  | unfinished => exact absurd outcome finished

theorem extended_settled_iff (fits : body.length ≤ isizeMax) :
    Settled (ExtendedMessage.parseBytes body len) ↔
      ¬ (len.toNat ≤ body.length ∧ BadValue (body.take len.toNat) .default) := by
  unfold ExtendedMessage.parseBytes
  split
  · rename_i enough
    have part : (body.take len.toNat).length ≤ isizeMax := le_trans (List.length_take_le' _ _) fits
    have rest : ∀ r : BencodeRef, decodeIo (body.take len.toNat) .default = .ok r →
        Settled (do
          let root ← convertDict IoError.bencodeConvert r.kind rootErrorKey
          return ExtendedMessage.ofDict root (body.take len.toNat)) :=
      fun r _ => settled_map convert_settled
    rw [settle_settled_iff, settled_bind_iff rest, decode_io_settled_iff part]
    simp [enough]
  · rename_i short
    simp [short, settled_err]

theorem metadata_settled_iff (fits : raw.length ≤ isizeMax) :
    Settled (UtMetadataMessage.parseBytes raw) ↔ ¬ BadValue raw metadataDecodeOpts := by
  rw [← decode_io_settled_iff fits]
  refine settled_bind_iff ?_
  intro r decoded
  have inside := decode_inside fits (PeerHandshake.decode_io_ok_iff.mp decoded)
  refine settled_bind convert_settled fun root => ?_
  refine settled_bind (settled_map lookup_and_convert_settled) ?_
  intro msgType
  refine settled_bind lookup_and_convert_settled fun piece => ?_
  dsimp only
  rw [slice_from_ok inside, ok_bind]
  split
  · exact settled_ok _
  split
  · exact settled_ok _
  split
  · exact settled_map lookup_and_convert_settled
  · exact settled_err _

theorem announced_rest (enough : 2 ≤ len) : (len - 2).toNat = len.toNat - 2 :=
  UInt32.toNat_sub_of_le _ _ enough

theorem sub_u32_decided (a b : UInt32) : (subU32 a b : Parsed UInt32) ≠ .err .error := by
  unfold subU32
  split <;> simp

theorem bitfield_bytes_settled : Settled (BitFieldMessage.parseBytes body len) ∧
    BitFieldMessage.parseBytes body len ≠ .err .error := by
  unfold BitFieldMessage.parseBytes
  split
  · exact ⟨settled_ok _, by simp⟩
  · exact ⟨settled_err _, by simp⟩

theorem piece_bytes_cases (body : Bytes) (len : UInt32) :
    PieceMessage.parseBytes body len = .err .incomplete ∧ body.length < 8 ∨
    8 ≤ body.length ∧ ∃ index offset rest, PieceMessage.parseBytes body len = (do
      let blockLen ← subU32 len 8
      let _ ← take blockLen.toNat rest
      let block ← slice body 8 (8 + blockLen.toNat)
      return .ok ⟨index, offset, block.bytes⟩) ∧ body.length = 8 + rest.length := by
  unfold PieceMessage.parseBytes
  by_cases first : 4 ≤ body.length
  · obtain ⟨index, tail, rfl⟩ := be_u32_split first
    rw [be_u32_write, ok_bind]
    dsimp only
    rw [List.length_append, write_u32_length]
    by_cases second : 4 ≤ tail.length
    · obtain ⟨offset, rest, rfl⟩ := be_u32_split second
      rw [be_u32_write, ok_bind, List.length_append, write_u32_length]
      exact .inr ⟨by omega, index, offset, rest, rfl, by omega⟩
    · rw [be_u32_short (by omega)]
      exact .inl ⟨rfl, by omega⟩
  · rw [be_u32_short (by omega)]
    exact .inl ⟨rfl, by omega⟩

theorem piece_bytes_settled_iff : Settled (PieceMessage.parseBytes body len) ↔
    ¬ (8 ≤ body.length ∧ len < 8) := by
  rcases piece_bytes_cases body len with ⟨few, short⟩ | ⟨enough, index, offset, rest, shape, size⟩
  · rw [few]
    exact ⟨fun _ both => by omega, fun _ => settled_err _⟩
  · rw [shape, settled_bind_iff, sub_u32_settled_iff]
    · simp [enough]
    · intro blockLen _
      by_cases whole : blockLen.toNat ≤ rest.length
      · have inside : 8 + blockLen.toNat ≤ body.length := by omega
        rw [take, if_pos whole, ok_bind, slice_ok (by omega) inside]
        exact settled_ok _
      · rw [take_short (by omega)]
        exact settled_err _

theorem piece_bytes_decided : PieceMessage.parseBytes body len ≠ .err .error := by
  rcases piece_bytes_cases body len with ⟨few, _⟩ | ⟨_, index, offset, rest, shape, _⟩
  · simp [few]
  · rw [shape]
    refine bind_ne_err (sub_u32_decided _ _) fun blockLen _ => bind_ne_err ?_ fun _ _ => bind_ne_err ?_ ?_
    · unfold take
      split <;> simp
    · unfold slice
      split <;> simp
    · simp

end Parts

section Ids
variable {ours : Option ExtendedMessage} {len : UInt32} {id : UInt8} {body rest : Bytes}

theorem bitfield_settled_iff :
    Settled (PeerWireProtocolMessage.parseBytes (frame len bitfieldMessageId body) ours) ↔ 1 ≤ len := by
  rw [parse_arm arm_bitfield, finish_settled_iff, settled_bind_iff, sub_u32_settled_iff]
  · exact fun _ _ => settled_map bitfield_bytes_settled.1
  · refine bind_ne_err (sub_u32_decided _ _) fun _ _ => bind_ne_err bitfield_bytes_settled.2 ?_
    simp

theorem piece_settled_iff :
    Settled (PeerWireProtocolMessage.parseBytes (frame len pieceMessageId body) ours) ↔
      1 ≤ len ∧ ¬ (8 ≤ body.length ∧ len < 9) := by
  have decided : (do
      let res ← PieceMessage.parseBytes body (← subU32 len 1)
      return res.map .piece : Parsed (IoResult PeerWireProtocolMessage)) ≠ .err .error := by
    refine bind_ne_err (sub_u32_decided _ _) fun _ _ => bind_ne_err piece_bytes_decided ?_
    simp
  rw [parse_arm arm_piece decided, finish_settled_iff]
  by_cases positive : 1 ≤ len
  · have less : (subU32 len 1 : Parsed UInt32) = .ok (len - 1) := if_pos positive
    have value : (len - 1).toNat = len.toNat - 1 := UInt32.toNat_sub_of_le _ _ positive
    rw [less, ok_bind, map_settled_iff, piece_bytes_settled_iff]
    rw [UInt32.le_iff_toNat_le] at positive
    simp only [UInt32.lt_iff_toNat_lt, UInt32.le_iff_toNat_le, value, UInt32.reduceToNat] at positive ⊢
    omega
  · have less : (subU32 len 1 : Parsed UInt32) = .panic := if_neg positive
    rw [less]
    simp [Settled, positive]

theorem handshake_settled_iff (fits : rest.length ≤ isizeMax) :
    Settled (PeerWireProtocolMessage.parseBytes
      (frame len extendedMessageId (extendedMessageHandshakeId :: rest)) ours) ↔
      2 ≤ len ∧ ¬ BadBody .default len rest := by
  rw [parse_bits (by decide) bits_handshake (handshake_decided rest len), finish_settled_iff,
    map_settled_iff]
  by_cases enough : 2 ≤ len
  · have less : (subU32 len 2 : Parsed UInt32) = .ok (len - 2) := if_pos enough
    rw [less, ok_bind, map_settled_iff, extended_settled_iff fits, announced_rest enough]
    simp [enough, BadBody]
  · have less : (subU32 len 2 : Parsed UInt32) = .panic := if_neg enough
    rw [less]
    simp [Settled, enough]

theorem with_id_settled_iff {extendedMsg : ExtendedMessage} {sub : UInt8} (fits : rest.length ≤ isizeMax) :
    Settled (parseExtensionsWithId (frame len id (sub :: rest)) extendedMsg len sub) ↔
      2 ≤ len ∧ ¬ (extendedMsg.queryId .utMetadata = some sub ∧ BadBody metadataDecodeOpts len rest) := by
  unfold parseExtensionsWithId
  by_cases enough : 2 ≤ len
  · have less : (subU32 len 2 : Parsed UInt32) = .ok (len - 2) := if_pos enough
    rw [less, ok_bind, frame_extension, ok_bind, announced_rest enough]
    split
    · rename_i short
      have tooFew : ¬ BadBody metadataDecodeOpts len rest := fun bad => by
        have := bad.1
        omega
      simp [enough, tooFew, settled_ok]
    · rename_i whole
      have part : (rest.take (len.toNat - 2)).length ≤ isizeMax :=
        le_trans (List.length_take_le' _ _) fits
      split
      · rename_i known
        rw [map_settled_iff, settle_settled_iff, metadata_settled_iff part]
        simp [enough, known, BadBody, not_lt.mp whole]
      · rename_i unknown
        simp [enough, unknown, settled_ok]
  · have less : (subU32 len 2 : Parsed UInt32) = .panic := if_neg enough
    rw [less]
    simp [Settled, enough]

theorem extension_settled_iff {sub : UInt8} (other : sub ≠ extendedMessageHandshakeId)
    (fits : rest.length ≤ isizeMax) :
    Settled (PeerWireProtocolMessage.parseBytes (frame len extendedMessageId (sub :: rest)) ours) ↔
      (ours ≠ none → 2 ≤ len) ∧
        ¬ (metadataId ours = some sub ∧ BadBody metadataDecodeOpts len rest) := by
  cases ours with
  | none =>
    rw [parse_extension other]
    simp [PeerExtensionProtocolMessage.parseBytes, settle, finish, Except.map, metadataId, settled_err]
  | some extendedMsg =>
    rw [parse_prot other, finish_settled_iff, map_settled_iff, settle_settled_iff, finish_settled_iff,
      with_id_settled_iff fits]
    simp [metadataId]

theorem alt_settled {α : Type} {first second : Parsed α} (one : Settled first) (two : Settled second) :
    Settled (alt first second) := by
  rcases one with ⟨a, rfl⟩ | ⟨trouble, rfl⟩
  · exact settled_ok a
  · cases trouble with
    | error => exact two
    | incomplete => exact settled_err _

theorem block_bytes_settled (bytes : Bytes) : Settled (Block.parseBytes bytes) := by
  refine settled_bind (be_u32_settled _) fun index => ?_
  refine settled_bind (be_u32_settled _) fun offset => ?_
  exact settled_bind (be_u32_settled _) fun length => settled_ok _

theorem arm_settled (noBitfield : id ≠ bitfieldMessageId) (noPiece : id ≠ pieceMessageId) :
    Settled (parseStandardArm (frame len id body) len (some id)) := by
  unfold parseStandardArm
  rw [frame_body, ok_bind]
  iterate 6 refine settled_ite (fun _ => settled_ok _) fun _ => ?_
  refine settled_ite (fun _ => ?_) fun _ => ?_
  · exact map_settled_iff.mpr (settled_map (be_u32_settled _))
  refine settled_ite (fun same => absurd (Option.some.inj same) noBitfield) fun _ => ?_
  refine settled_ite (fun _ => map_settled_iff.mpr (block_bytes_settled _)) fun _ => ?_
  refine settled_ite (fun same => absurd (Option.some.inj same) noPiece) fun _ => ?_
  exact settled_ite (fun _ => map_settled_iff.mpr (block_bytes_settled _)) fun _ => settled_err _

theorem port_settled : Settled (parsePort (frame len id body)) := by
  rw [port_frame]
  exact settled_ite (fun _ => map_settled_iff.mpr (settled_map (be_u16_settled _))) fun _ => settled_err _

/-- Without the extension protocol there is nothing to subtract from. -/
theorem other_settled (noBitfield : id ≠ bitfieldMessageId) (noPiece : id ≠ pieceMessageId)
    (notExtended : id ≠ extendedMessageId ∨ body = []) :
    Settled (PeerWireProtocolMessage.parseBytes (frame len id body) ours) := by
  have bits : Settled (BitsExtensionMessage.parseBytes (frame len id body)) := by
    refine alt_settled port_settled ?_
    cases body with
    | nil =>
      rw [handshake_short]
      exact settled_err _
    | cons sub rest =>
      rw [handshake_frame, if_neg fun both => notExtended.elim (fun other => other both.1) (by simp)]
      exact settled_err _
  have prot : Settled (PeerExtensionProtocolMessage.parseBytes (frame len id body) ours) := by
    unfold PeerExtensionProtocolMessage.parseBytes
    cases ours with
    | none => exact settled_err _
    | some extendedMsg =>
      rw [finish_settled_iff]
      cases body with
      | nil =>
        rw [extensions_short]
        exact settled_err _
      | cons sub rest =>
        rw [extensions_frame, if_neg (notExtended.resolve_right (by simp))]
        exact settled_err _
  unfold PeerWireProtocolMessage.parseBytes parseMessage
  rw [finish_settled_iff, standard_frame]
  refine alt_settled (arm_settled noBitfield noPiece) (alt_settled ?_ ?_)
  · exact map_settled_iff.mpr bits
  · exact map_settled_iff.mpr (settle_settled_iff.mpr prot)

end Ids

section Buffer
variable {ours : Option ExtendedMessage} {len : UInt32} {id : UInt8} {body : Bytes}

theorem trips_iff : Trips ours len id body ↔
    (id = bitfieldMessageId ∧ len = 0) ∨
    (id = pieceMessageId ∧ (len = 0 ∨ len < 9 ∧ 8 ≤ body.length)) ∨
    (id = extendedMessageId ∧ ∃ sub rest, body = sub :: rest ∧
      (sub = extendedMessageHandshakeId ∧ (len < 2 ∨ BadBody .default len rest) ∨
        sub ≠ extendedMessageHandshakeId ∧ (ours ≠ none ∧ len < 2 ∨
          metadataId ours = some sub ∧ BadBody metadataDecodeOpts len rest))) := by
  constructor
  · intro trips
    cases trips with
    | bitfield body => exact .inl ⟨rfl, rfl⟩
    | piece body => exact .inr (.inl ⟨rfl, .inl rfl⟩)
    | block short fields => exact .inr (.inl ⟨rfl, .inr ⟨short, fields⟩⟩)
    | handshake bad => exact .inr (.inr ⟨rfl, _, _, rfl, .inl ⟨rfl, bad⟩⟩)
    | extension other spoken short =>
      exact .inr (.inr ⟨rfl, _, _, rfl, .inr ⟨other, .inl ⟨spoken, short⟩⟩⟩)
    | metadata other known bad =>
      exact .inr (.inr ⟨rfl, _, _, rfl, .inr ⟨other, .inr ⟨known, bad⟩⟩⟩)
  · rintro (⟨rfl, rfl⟩ | ⟨rfl, rfl | ⟨short, fields⟩⟩ | ⟨rfl, sub, rest, rfl, ⟨rfl, bad⟩ | ⟨other, inside⟩⟩)
    · exact .bitfield body
    · exact .piece body
    · exact .block short fields
    · exact .handshake bad
    · rcases inside with ⟨spoken, short⟩ | ⟨known, bad⟩
      · exact .extension other spoken short
      · exact .metadata other known bad

theorem positive_iff : 1 ≤ len ↔ len ≠ 0 := by
  rw [UInt32.le_iff_toNat_le, ne_eq, ← UInt32.toNat_inj]
  simp only [UInt32.reduceToNat]
  omega

theorem frame_settled_iff (fits : body.length ≤ isizeMax) :
    Settled (PeerWireProtocolMessage.parseBytes (frame len id body) ours) ↔ ¬ Trips ours len id body := by
  rw [trips_iff]
  by_cases bitfield : id = bitfieldMessageId
  · subst bitfield
    rw [bitfield_settled_iff, positive_iff]
    simp +decide
  by_cases piece : id = pieceMessageId
  · subst piece
    rw [piece_settled_iff, positive_iff]
    constructor
    · rintro ⟨positive, guarded⟩ (⟨wrong, _⟩ | ⟨_, zero | ⟨short, fields⟩⟩ | ⟨wrong, _⟩)
      · exact bitfield wrong
      · exact positive zero
      · exact guarded ⟨fields, short⟩
      · exact absurd wrong (by decide)
    · intro safe
      exact ⟨fun zero => safe (.inr (.inl ⟨rfl, .inl zero⟩)),
        fun both => safe (.inr (.inl ⟨rfl, .inr ⟨both.2, both.1⟩⟩))⟩
  by_cases extended : id = extendedMessageId
  · subst extended
    cases body with
    | nil =>
      have settled : Settled (PeerWireProtocolMessage.parseBytes (frame len extendedMessageId []) ours) :=
        other_settled bitfield piece (.inr rfl)
      simp [settled, bitfield, piece]
    | cons sub rest =>
      have part : rest.length ≤ isizeMax := le_trans (Nat.le_succ _) fits
      by_cases handshake : sub = extendedMessageHandshakeId
      · subst handshake
        rw [handshake_settled_iff part]
        simp [bitfield, piece]
      · rw [extension_settled_iff handshake part]
        simp [bitfield, piece, handshake]
  · have settled : Settled (PeerWireProtocolMessage.parseBytes (frame len id body) ours) :=
      other_settled bitfield piece (.inl extended)
    simp [settled, bitfield, piece, extended]

theorem frame_injective {len' : UInt32} {id' : UInt8} {body' : Bytes}
    (same : frame len id body = frame len' id' body') : len = len' ∧ id = id' ∧ body = body' := by
  have header : beU32 (frame len id body) = .ok (len, id :: body) := be_u32_write len _
  have header' : beU32 (frame len' id' body') = .ok (len', id' :: body') := be_u32_write len' _
  rw [same, header'] at header
  cases header
  exact ⟨rfl, rfl, rfl⟩

end Buffer

/-- The parser returns, whatever it is given and whatever stands behind the first frame, exactly if the
    buffer does not begin with a frame that trips it. -/
theorem parse_bytes_returns_iff (codec : PeerWireMessageCodec) (bytes : Bytes)
    (fits : bytes.length ≤ isizeMax) :
    ((∃ msg, (codec.parseBytes bytes).1 = .ok msg) ∨ ∃ e, (codec.parseBytes bytes).1 = .err e) ↔
      ∀ len id body, bytes = frame len id body → ¬ Trips codec.ourExtendedMsg len id body := by
  obtain ⟨after, answer, _⟩ := codec_parse codec bytes
  rw [answer]
  change Settled (PeerWireProtocolMessage.parseBytes bytes codec.ourExtendedMsg) ↔ _
  by_cases short : bytes.length < 5
  · rw [parse_short short]
    refine ⟨?_, fun _ => settled_err _⟩
    rintro _ len id body rfl
    rw [frame_length] at short
    omega
  · obtain ⟨len, id, body, rfl⟩ := frame_split (show 5 ≤ bytes.length by omega)
    rw [frame_length] at fits
    rw [frame_settled_iff (by omega)]
    constructor
    · intro safe len' id' body' same
      obtain ⟨rfl, rfl, rfl⟩ := frame_injective same
      exact safe
    · intro safe
      exact safe len id body rfl

/-- A bit field of one byte with three more frames' worth of bytes behind it. -/
theorem bitfield_returns :
    (∃ msg, (PeerWireMessageCodec.new.parseBytes [0, 0, 0, 2, 5, 255, 0, 0, 0, 0, 5]).1 = .ok msg) ∨
      ∃ e, (PeerWireMessageCodec.new.parseBytes [0, 0, 0, 2, 5, 255, 0, 0, 0, 0, 5]).1 = .err e := by
  refine (parse_bytes_returns_iff _ _ (by decide)).mpr ?_
  intro len id body same trips
  obtain ⟨rfl, rfl, rfl⟩ := frame_injective (show frame 2 5 [255, 0, 0, 0, 0, 5] = _ from same)
  have cases := trips_iff.mp trips
  revert cases
  simp +decide

/-- A bit field and a piece message of no length at all, a piece message that is shorter than its own
    fields, and a handshake of length one. -/
theorem short_lengths_panic :
    (PeerWireMessageCodec.new.parseBytes [0, 0, 0, 0, 5]).1 = .panic ∧
      (PeerWireMessageCodec.new.parseBytes [0, 0, 0, 0, 7]).1 = .panic ∧
      (PeerWireMessageCodec.new.parseBytes [0, 0, 0, 5, 7, 0, 0, 0, 0, 0, 0, 0, 0]).1 = .panic ∧
      (PeerWireMessageCodec.new.parseBytes [0, 0, 0, 1, 20, 0]).1 = .panic := by
  decide

end PeerHostile
