import Bittorrent.Peer.Handshake
import Bittorrent.Peer.Message

/-!
Messages as frames: a length, an id and a body. For every kind of message there is one lemma that says
what a buffer that begins with its frame is parsed to, and that a buffer that ends inside the frame is
refused.
-/
namespace PeerFrame
open Rust Outcome DecimalText NomParse BencodeValue BencodeConvert BencodeEncode BencodeRoundTrip
  PeerExtended PeerHandshake PeerMessage
open List hiding take_append
variable {ε : Type}

def frame (len : UInt32) (id : UInt8) (body : Bytes) : Bytes := writeU32 len ++ id :: body

variable {bytes : Bytes} {sub : UInt8}

section Shape
variable {len : UInt32} {id : UInt8} {body rest : Bytes}

theorem frame_length : (frame len id body).length = 5 + body.length := by
  simp only [frame, length_append, write_u32_length, length_cons]
  omega

theorem frame_append : frame len id body ++ rest = frame len id (body ++ rest) := by
  simp [frame]

theorem frame_split (enough : 5 ≤ bytes.length) : ∃ len id body, bytes = frame len id body := by
  obtain ⟨len, tail, rfl⟩ := be_u32_split (show 4 ≤ bytes.length by omega)
  cases tail with
  | nil =>
    rw [append_nil, write_u32_length] at enough
    omega
  | cons id body => exact ⟨len, id, body, rfl⟩

/-- A buffer that ends inside a frame but behind its header has the same header. -/
theorem frame_front (front : bytes <+: frame len id body) (enough : 5 ≤ bytes.length) :
    ∃ start, bytes = frame len id start ∧ start <+: body := by
  obtain ⟨more, whole⟩ := front
  obtain ⟨len', id', start, rfl⟩ := frame_split enough
  rw [frame_append, frame, frame] at whole
  obtain ⟨first, second⟩ := append_inj whole (by simp)
  cases second
  have same : len' = len := by
    have value := be_u32_write len' []
    rw [first, be_u32_write] at value
    cases value
    rfl
  rw [same]
  exact ⟨start, rfl, more, rfl⟩

theorem frame_drop (front : Bytes) :
    (frame len id (front ++ body)).drop (5 + front.length) = body := by
  have whole : frame len id (front ++ body) = (writeU32 len ++ id :: front) ++ body := by
    simp [frame]
  rw [whole, drop_left']
  simp only [length_append, write_u32_length, length_cons]
  omega

theorem frame_body : (sliceFrom (frame len id body) headerLen : Outcome ε Bytes) = .ok body := by
  have enough : headerLen ≤ (frame len id body).length := by
    rw [frame_length, headerLen]
    omega
  have tail : (frame len id body).drop headerLen = body := frame_drop []
  rw [slice_from_ok enough, tail]

theorem frame_extension :
    (sliceFrom (frame len id (sub :: body)) extensionHeaderLen : Outcome ε Bytes) = .ok body := by
  have enough : extensionHeaderLen ≤ (frame len id (sub :: body)).length := by
    rw [frame_length, extensionHeaderLen, length_cons]
    omega
  have tail : (frame len id (sub :: body)).drop extensionHeaderLen = body := frame_drop [sub]
  rw [slice_from_ok enough, tail]

end Shape

section Dispatch
variable {len : UInt32} {id : UInt8} {body : Bytes} {ours : Option ExtendedMessage}

theorem parse_short (short : bytes.length < 5) (ours : Option ExtendedMessage) :
    PeerWireProtocolMessage.parseBytes bytes ours = .err .failedToParse := by
  have standard : parseStandard bytes = .err .incomplete := by
    refine be_u32_then_short (fun len tail (empty : tail.length < 1) => ?_) short
    rw [length_eq_zero_iff.mp (Nat.lt_one_iff.mp empty)]
    rfl
  unfold PeerWireProtocolMessage.parseBytes parseMessage
  rw [standard, alt_incomplete]
  rfl

theorem frame_bind {α : Type} (next : UInt32 × Bytes → Parsed α) :
    (beU32 (frame len id body) >>= next) = next (len, id :: body) := by
  rw [frame, be_u32_write, ok_bind]

theorem standard_frame : parseStandard (frame len id body) =
    parseStandardArm (frame len id body) len (some id) := by
  unfold parseStandard
  rw [frame_bind]
  dsimp only
  rw [opt_ok (be_u8_cons id body), ok_bind]

theorem port_frame : parsePort (frame len id body) =
    if len = portMessageLen ∧ id = portMessageId then
      (do return (← PortMessage.parseBytes body).map .port)
    else .err .error := by
  unfold parsePort
  rw [frame_bind]
  dsimp only
  rw [be_u8_cons, ok_bind]
  rw [frame_body]
  rfl

theorem handshake_short : parseHandshake (frame len id []) = .err .incomplete := by
  unfold parseHandshake
  rw [frame_bind]
  dsimp only
  rw [be_u8_cons, ok_bind]
  rw [be_u8_nil, err_bind]

theorem handshake_frame : parseHandshake (frame len id (sub :: body)) =
    if id = extendedMessageId ∧ sub = extendedMessageHandshakeId then do
      let res ← ExtendedMessage.parseBytes body (← subU32 len 2)
      return res.map .extended
    else .err .error := by
  have tail : (sliceFrom (frame len id (sub :: body)) (headerLen + 1) : Parsed Bytes) = .ok body :=
    frame_extension
  unfold parseHandshake
  rw [frame_bind]
  dsimp only
  rw [be_u8_cons, ok_bind]
  rw [be_u8_cons, ok_bind]
  rw [tail]
  rfl

theorem extensions_short (extendedMsg : ExtendedMessage) :
    parseExtensions (frame len id []) extendedMsg = .err .incomplete := by
  unfold parseExtensions
  rw [frame_bind]
  dsimp only
  rw [be_u8_cons, ok_bind]
  rfl

theorem extensions_frame (extendedMsg : ExtendedMessage) :
    parseExtensions (frame len id (sub :: body)) extendedMsg =
      if id = extendedMessageId then
        parseExtensionsWithId (frame len id (sub :: body)) extendedMsg len sub
      else .err .error := by
  unfold parseExtensions
  rw [frame_bind]
  dsimp only
  rw [be_u8_cons, ok_bind]
  rw [be_u8_cons, ok_bind]

theorem arm_above (above : 8 < id) (bytes : Bytes) :
    parseStandardArm bytes len (some id) = .err .error := by
  have other : ∀ small : UInt8, small ≤ 8 → ¬ some id = some small := by
    intro small low same
    cases same
    exact absurd (UInt8.lt_of_lt_of_le above low) (UInt8.lt_irrefl _)
  unfold parseStandardArm
  rw [if_neg (by simp), if_neg fun h => other 0 (by decide) h.2,
    if_neg fun h => other _ (by decide) h.2, if_neg fun h => other _ (by decide) h.2,
    if_neg fun h => other _ (by decide) h.2, if_neg fun h => other _ (by decide) h.2,
    if_neg fun h => other _ (by decide) h.2, if_neg (other _ (by decide)),
    if_neg fun h => other _ (by decide) h.2, if_neg (other _ (by decide)),
    if_neg fun h => other _ (by decide) h.2]

theorem arm_bitfield : parseStandardArm (frame len bitfieldMessageId body) len
    (some bitfieldMessageId) = (do
      let res ← BitFieldMessage.parseBytes body (← subU32 len 1)
      return res.map .bitField) := by
  simp +decide only [parseStandardArm, frame_body, ok_bind, if_true, if_false, and_false]

theorem arm_piece : parseStandardArm (frame len pieceMessageId body) len (some pieceMessageId) = (do
      let res ← PieceMessage.parseBytes body (← subU32 len 1)
      return res.map .piece) := by
  simp +decide only [parseStandardArm, frame_body, ok_bind, if_true, if_false, and_false]

/-- The first alternative decides, unless it finds the input wrong. -/
theorem parse_arm {m : Parsed (IoResult PeerWireProtocolMessage)}
    (arm : parseStandardArm (frame len id body) len (some id) = m) (decided : m ≠ .err .error) :
    PeerWireProtocolMessage.parseBytes (frame len id body) ours = finish .failedToParse m := by
  unfold PeerWireProtocolMessage.parseBytes parseMessage
  rw [standard_frame, arm, alt_decided _ decided]

end Dispatch

/-- The codec answers as the parser does, and keeps our own handshake. -/
theorem codec_parse (codec : PeerWireMessageCodec) (bytes : Bytes) : ∃ after,
    codec.parseBytes bytes = (PeerWireProtocolMessage.parseBytes bytes codec.ourExtendedMsg, after) ∧
      after.ourExtendedMsg = codec.ourExtendedMsg := by
  unfold PeerWireMessageCodec.parseBytes
  split
  · rename_i msg read
    exact ⟨{ codec with theirExtendedMsg := some msg }, by rw [read], rfl⟩
  · exact ⟨codec, rfl, rfl⟩

def Same : PeerWireProtocolMessage → PeerWireProtocolMessage → Prop
  | .bitsExtension (.extended a), .bitsExtension (.extended b) => a.Same b
  | a, b => a = b

theorem same_refl (msg : PeerWireProtocolMessage) : Same msg msg := by
  unfold Same
  split
  · exact ⟨fun _ => rfl, rfl, rfl, rfl, rfl, rfl, rfl, rfl, rfl⟩
  · rfl

/-- A message whose frame is parsed back from the front of any buffer, and refused where the buffer
    ends inside it. -/
structure Framed (ours : Option ExtendedMessage) (msg : PeerWireProtocolMessage) (len : UInt32)
    (id : UInt8) (body : Bytes) : Prop where
  announced : len.toNat = 1 + body.length
  size : msg.messageSize = 5 + body.length
  whole : ∀ rest, ∃ parsed,
    PeerWireProtocolMessage.parseBytes (frame len id (body ++ rest)) ours = .ok parsed ∧ Same parsed msg
  cut : ∀ front, front <+: body → front.length < body.length →
    ∃ e, PeerWireProtocolMessage.parseBytes (frame len id front) ours = .err e

section Standard
variable {ours : Option ExtendedMessage}

/-- The parser of the arm gives the message back, and refuses a body that ends early. -/
theorem framed_arm {msg : PeerWireProtocolMessage} {len : UInt32} {id : UInt8} {body : Bytes}
    {p : Bytes → Parsed (IoResult PeerWireProtocolMessage)}
    (parses : ∀ body, parseStandardArm (frame len id body) len (some id) = p body)
    (announced : len.toNat = 1 + body.length) (size : msg.messageSize = 5 + body.length)
    (back : ∀ rest, p (body ++ rest) = .ok (.ok msg))
    (short : ∀ front : Bytes, front.length < body.length → p front = .err .incomplete) :
    Framed ours msg len id body where
  announced := announced
  size := size
  whole := fun rest => ⟨msg, parse_arm ((parses _).trans (back rest)) (by simp), same_refl msg⟩
  cut := fun front _ less => ⟨_, parse_arm ((parses front).trans (short front less)) (by simp)⟩

theorem framed_empty {msg : PeerWireProtocolMessage} {len : UInt32} {id : UInt8}
    (announced : len.toNat = 1) (size : msg.messageSize = 5)
    (parses : ∀ body, parseStandardArm (frame len id body) len (some id) = .ok (.ok msg)) :
    Framed ours msg len id [] :=
  framed_arm parses announced size (fun _ => rfl) fun front less => absurd less (by simp)

theorem framed_have (msg : HaveMessage) :
    Framed ours (.have msg) haveMessageLen haveMessageId (writeU32 msg.pieceIndex) := by
  refine framed_arm (p := fun body => do return (← HaveMessage.parseBytes body).map .have) ?_
    (by simp [haveMessageLen]) (by simp [PeerWireProtocolMessage.messageSize, messageLengthLenBytes,
      haveMessageLen]) ?_ ?_
  · intro body
    simp +decide only [parseStandardArm, frame_body, ok_bind, if_true, if_false]
  · intro rest
    rw [HaveMessage.parseBytes, be_u32_write]
    rfl
  · intro front less
    rw [write_u32_length] at less
    rw [HaveMessage.parseBytes, be_u32_short less]
    rfl

theorem sub_u32_ofNat {n : Nat} {b : UInt32} (enough : b.toNat ≤ n) (small : n < 2 ^ 32) :
    (subU32 (UInt32.ofNat n) b : Outcome ε UInt32) = .ok (UInt32.ofNat (n - b.toNat)) := by
  have value : (UInt32.ofNat n).toNat = n := UInt32.toNat_ofNat_of_lt' small
  have below : b ≤ UInt32.ofNat n := by
    rw [UInt32.le_iff_toNat_le, value]
    exact enough
  unfold subU32
  rw [if_pos below]
  congr 1
  rw [← UInt32.toNat_inj, UInt32.toNat_sub_of_le _ _ below, value,
    UInt32.toNat_ofNat_of_lt' (show n - b.toNat < 2 ^ 32 by omega)]

theorem announced_less {b : UInt32} {first size : Nat} (small : first + size < 2 ^ 32)
    (front : b.toNat = first) :
    (subU32 (UInt32.ofNat (first + size)) b : Outcome ε UInt32) = .ok (UInt32.ofNat size) ∧
      (UInt32.ofNat size).toNat = size := by
  refine ⟨?_, UInt32.toNat_ofNat_of_lt' (show size < 2 ^ 32 by omega)⟩
  rw [sub_u32_ofNat (by omega) small, front, Nat.add_sub_cancel_left]

theorem framed_bitfield (msg : BitFieldMessage) (small : 1 + msg.bytes.length < 2 ^ 32) :
    Framed ours (.bitField msg) (UInt32.ofNat (1 + msg.bytes.length)) bitfieldMessageId msg.bytes := by
  obtain ⟨rest, value⟩ := announced_less (b := 1) small rfl
  refine framed_arm (fun _ => arm_bitfield) (UInt32.toNat_ofNat_of_lt' small)
    (by simp [PeerWireProtocolMessage.messageSize, messageLengthLenBytes, baseBitfieldMessageLen]; omega) ?_ ?_
  · intro more
    have enough : msg.bytes.length ≤ (msg.bytes ++ more).length := by simp
    rw [rest, ok_bind, BitFieldMessage.parseBytes, value, if_pos enough, take_left' rfl]
    rfl
  · intro front less
    rw [rest, ok_bind, BitFieldMessage.parseBytes, value, if_neg (by omega)]
    rfl

variable (block : Block)

theorem block_back (small : block.blockLength < 2 ^ 32) (rest : Bytes) :
    Block.parseBytes (block.writeFields ++ rest) = .ok (.ok block) := by
  unfold Block.parseBytes Block.writeFields
  rw [append_assoc, be_u32_write, ok_bind]
  dsimp only
  rw [append_assoc, be_u32_write, ok_bind]
  rw [be_u32_write, ok_bind]
  rw [UInt32.toNat_ofNat_of_lt' small]
  rfl

theorem block_cut (front : Bytes) (short : front.length < 12) :
    Block.parseBytes front = .err .incomplete := by
  refine be_u32_then_short (fun index rest short => ?_) (show front.length < 4 + (4 + 4) from short)
  refine be_u32_then_short (fun offset last short => ?_) short
  dsimp only
  rw [be_u32_short short, err_bind]

theorem block_length : block.writeFields.length = 12 := by
  simp [Block.writeFields]

theorem framed_block {msg : PeerWireProtocolMessage} {id : UInt8}
    (wrap : Block → PeerWireProtocolMessage) (isMsg : msg = wrap block)
    (small : block.blockLength < 2 ^ 32) (size : msg.messageSize = 17)
    (arm : ∀ body, parseStandardArm (frame 13 id body) 13 (some id) = (do return (← Block.parseBytes body).map wrap)):
    Framed ours msg 13 id block.writeFields := by
  subst isMsg
  refine framed_arm arm (by rw [block_length]; rfl) (by rw [block_length, size]) ?_ ?_
  · intro rest
    rw [block_back block small]
    rfl
  · intro front less
    rw [block_length] at less
    rw [block_cut front less]
    rfl

theorem framed_request (msg : RequestMessage) (small : msg.blockLength < 2 ^ 32) :
    Framed ours (.request msg) requestMessageLen requestMessageId msg.writeFields := by
  refine framed_block msg .request rfl small rfl ?_
  intro body
  change parseStandardArm (frame requestMessageLen requestMessageId body) requestMessageLen
    (some requestMessageId) = _
  simp +decide only [parseStandardArm, frame_body, ok_bind, if_true, if_false,
    RequestMessage.parseBytes]

theorem framed_cancel (msg : CancelMessage) (small : msg.blockLength < 2 ^ 32) :
    Framed ours (.cancel msg) cancelMessageLen cancelMessageId msg.writeFields := by
  refine framed_block msg .cancel rfl small rfl ?_
  intro body
  change parseStandardArm (frame cancelMessageLen cancelMessageId body) cancelMessageLen
    (some cancelMessageId) = _
  simp +decide only [parseStandardArm, frame_body, ok_bind, if_true, if_false,
    CancelMessage.parseBytes]

theorem framed_piece (msg : PieceMessage) (small : 9 + msg.block.length < 2 ^ 32) :
    Framed ours (.piece msg) (UInt32.ofNat (9 + msg.block.length)) pieceMessageId
      (writeU32 msg.pieceIndex ++ (writeU32 msg.blockOffset ++ msg.block)) := by
  have size : (writeU32 msg.pieceIndex ++ (writeU32 msg.blockOffset ++ msg.block)).length =
      8 + msg.block.length := by
    simp only [length_append, write_u32_length]
    omega
  have less : (subU32 (UInt32.ofNat (9 + msg.block.length)) 1 : Parsed UInt32) =
      .ok (UInt32.ofNat (8 + msg.block.length)) := by
    rw [sub_u32_ofNat (show (1 : UInt32).toNat ≤ 9 + msg.block.length from by simp; omega) small]
    congr 2
    simp
  obtain ⟨rest, value⟩ := announced_less (b := 8) (show 8 + msg.block.length < 2 ^ 32 by omega) rfl
  refine framed_arm (fun _ => arm_piece) ?_ ?_ ?_ ?_
  · rw [size, UInt32.toNat_ofNat_of_lt' small]
    omega
  · rw [size]
    simp only [PeerWireProtocolMessage.messageSize, messageLengthLenBytes, basePieceMessageLen]
    omega
  · intro more
    have cut : (slice (writeU32 msg.pieceIndex ++ (writeU32 msg.blockOffset ++ (msg.block ++ more))) 8
        (8 + msg.block.length) : Parsed SubSlice) = .ok ⟨8, msg.block⟩ := by
      rw [slice_ok (by omega) (by simp only [length_append, write_u32_length]; omega)]
      have tail : (writeU32 msg.pieceIndex ++ (writeU32 msg.blockOffset ++ (msg.block ++ more))).drop 8 =
          msg.block ++ more := by
        rw [← append_assoc]
        exact drop_left' (by simp)
      rw [tail, Nat.add_sub_cancel_left, take_left' rfl]
    rw [less, ok_bind, append_assoc, append_assoc, PieceMessage.parseBytes, be_u32_write, ok_bind]
    dsimp only
    rw [be_u32_write, ok_bind]
    rw [rest, ok_bind, value, take_append more rfl, ok_bind, cut]
    rfl
  · intro front short
    rw [size] at short
    rw [less, ok_bind]
    have cut : PieceMessage.parseBytes front (UInt32.ofNat (8 + msg.block.length)) = .err .incomplete := by
      refine be_u32_then_short (fun index tail short => ?_) (Nat.add_assoc 4 4 _ ▸ short)
      refine be_u32_then_short (fun offset last short => ?_) short
      dsimp only
      rw [rest, ok_bind, value, take_short short, err_bind]
    rw [cut, err_bind]

end Standard

section Extensions
variable {ours : Option ExtendedMessage} {len : UInt32} {id : UInt8} {body : Bytes}

/-- Behind the standard messages the bits extensions decide, unless they find the input wrong. -/
theorem parse_bits {m : Parsed (IoResult BitsExtensionMessage)} (above : 8 < id)
    (bits : BitsExtensionMessage.parseBytes (frame len id body) = m) (decided : m ≠ .err .error) :
    PeerWireProtocolMessage.parseBytes (frame len id body) ours =
      finish .failedToParse (do return (← m).map .bitsExtension) := by
  have both : (do return (← m).map PeerWireProtocolMessage.bitsExtension) ≠ .err .error :=
    bind_ne_err decided fun _ _ => by simp
  unfold PeerWireProtocolMessage.parseBytes parseMessage
  rw [standard_frame, arm_above above, alt_error, bits, alt_decided _ both]

theorem framed_port (msg : PortMessage) :
    Framed ours (.bitsExtension (.port msg)) portMessageLen portMessageId (writeU16 msg.port) := by
  have bits : ∀ body, BitsExtensionMessage.parseBytes (frame portMessageLen portMessageId body) =
      alt (do return (← PortMessage.parseBytes body).map .port)
        (parseHandshake (frame portMessageLen portMessageId body)) := by
    intro body
    unfold BitsExtensionMessage.parseBytes
    rw [port_frame, if_pos ⟨rfl, rfl⟩]
  refine ⟨by simp [portMessageLen], by simp [PeerWireProtocolMessage.messageSize,
    messageLengthLenBytes, BitsExtensionMessage.messageSize, portMessageLen], ?_, ?_⟩
  · intro rest
    refine ⟨.bitsExtension (.port msg), parse_bits (m := .ok (.ok (.port msg))) (by decide) ?_ (by simp),
      same_refl _⟩
    rw [bits, PortMessage.parseBytes, be_u16_write]
    rfl
  · intro front _ short
    rw [write_u16_length] at short
    refine ⟨_, parse_bits (m := .err .incomplete) (by decide) ?_ (by simp)⟩
    rw [bits, PortMessage.parseBytes, be_u16_short short]
    rfl

theorem bits_handshake : BitsExtensionMessage.parseBytes
      (frame len extendedMessageId (extendedMessageHandshakeId :: body)) = (do
    let res ← ExtendedMessage.parseBytes body (← subU32 len 2)
    return res.map .extended) := by
  unfold BitsExtensionMessage.parseBytes
  rw [port_frame, if_neg (by simp +decide), alt_error, handshake_frame, if_pos ⟨rfl, rfl⟩]

theorem bits_short {len : UInt32} :
    BitsExtensionMessage.parseBytes (frame len extendedMessageId []) = .err .incomplete := by
  unfold BitsExtensionMessage.parseBytes
  rw [port_frame, if_neg (by simp +decide), alt_error, handshake_short]

theorem framed_extended (builder : ExtendedMessageBuilder) (plain : PlainBuilder builder)
    (small : 2 + (bencodeFromBuilder builder).length < 2 ^ 32) :
    Framed ours (.bitsExtension (.extended (.fromBuilder builder)))
      (UInt32.ofNat (2 + (bencodeFromBuilder builder).length)) extendedMessageId
      (extendedMessageHandshakeId :: bencodeFromBuilder builder) := by
  obtain ⟨less, value⟩ := announced_less (b := 2) small rfl
  refine ⟨?_, ?_, ?_, ?_⟩
  · rw [UInt32.toNat_ofNat_of_lt' small, length_cons]
    omega
  · simp only [PeerWireProtocolMessage.messageSize, messageLengthLenBytes,
      BitsExtensionMessage.messageSize, baseExtendedMessageLen, ExtendedMessage.bencodeSize,
      ExtendedMessage.fromBuilder, length_cons]
    omega
  · intro rest
    have fits : (bencodeFromBuilder builder).length ≤ isizeMax := by
      unfold isizeMax
      omega
    obtain ⟨msg, parsed, same⟩ := (built_back_iff builder rest value fits).mpr plain
    refine ⟨.bitsExtension (.extended msg),
      parse_bits (m := .ok (.ok (.extended msg))) (by decide) ?_ (by simp), same⟩
    rw [cons_append, bits_handshake, less, ok_bind, parsed]
    rfl
  · intro front begins short
    rw [length_cons] at short
    refine ⟨_, parse_bits (m := .err .incomplete) (by decide) ?_ (by simp)⟩
    cases front with
    | nil => exact bits_short
    | cons sub tail =>
      obtain ⟨same, _⟩ := cons_prefix_cons.mp begins
      rw [length_cons] at short
      rw [same, bits_handshake, less, ok_bind, ExtendedMessage.parseBytes, value,
        if_neg (by omega)]
      rfl

end Extensions

section Metadata

/-- The dictionary of a metadata message, and what stands behind it. -/
def fields : UtMetadataMessage → Dict
  | .request msg => [(messageTypeKey, .int requestMessageTypeId.toUInt64.toInt64),
      (pieceIndexKey, .int msg.piece)]
  | .data msg => [(messageTypeKey, .int dataMessageTypeId.toUInt64.toInt64),
      (pieceIndexKey, .int msg.piece), (totalSizeKey, .int msg.totalSize)]
  | .reject msg => [(messageTypeKey, .int rejectMessageTypeId.toUInt64.toInt64),
      (pieceIndexKey, .int msg.piece)]

def extra : UtMetadataMessage → Bytes
  | .data msg => msg.data
  | _ => []

variable (msg : UtMetadataMessage)

theorem fields_sorted : SortedMap.Sorted (fields msg) := by
  cases msg <;> simp +decide [fields, SortedMap.Sorted]

theorem fields_flat : ∀ e ∈ fields msg, Shallow e.2 1 := by
  cases msg <;> simp [fields]

theorem ben_request (msg : UtMetadataRequestMessage) :
    benPiece requestMessageTypeId msg.piece = .dict (fields (.request msg)) :=
  congrArg Bencode.dict (SortedMap.of_list_of_sorted (fields_sorted (.request msg)))

theorem ben_data (msg : UtMetadataDataMessage) :
    benData msg.piece msg.totalSize = .dict (fields (.data msg)) :=
  congrArg Bencode.dict (SortedMap.of_list_of_sorted (fields_sorted (.data msg)))

theorem ben_reject (msg : UtMetadataRejectMessage) :
    benPiece rejectMessageTypeId msg.piece = .dict (fields (.reject msg)) :=
  congrArg Bencode.dict (SortedMap.of_list_of_sorted (fields_sorted (.reject msg)))

theorem fields_written : msg.writeBytes = encode (.dict (fields msg)) ++ extra msg := by
  cases msg <;>
    simp only [UtMetadataMessage.writeBytes, ben_request, ben_data, ben_reject, extra, append_nil]

theorem fields_short : (encode (.dict (fields msg))).length ≤ isizeMax := by
  have keys : (encodeBytes messageTypeKey).length = 10 ∧ (encodeBytes pieceIndexKey).length = 7 ∧
      (encodeBytes totalSizeKey).length = 13 := by decide +kernel
  have number : ∀ n, (encode (.int n)).length ≤ 22 := by
    intro n
    have digits := print_int64_short n
    rw [encode, encodeInt, length_cons, length_append]
    simp only [length_cons, length_nil]
    omega
  have small : (encode (.dict (fields msg))).length ≤ 100 := by
    rw [encode_dict (fields_sorted msg)]
    cases msg <;> simp only [fields, flatMap_cons, flatMap_nil, length_append,
      length_cons, length_nil, keys] <;> grind
  exact le_trans small (by decide)

theorem fields_decoded (rest : Bytes)
    (fits : (encode (.dict (fields msg)) ++ rest).length ≤ isizeMax) :
    ∃ r, BencodeDecode.BencodeRef.decode (encode (.dict (fields msg)) ++ rest) metadataDecodeOpts =
      .ok r ∧ r.kind = .dict (fields msg) ∧ r.buffer = ⟨0, encode (.dict (fields msg))⟩ := by
  obtain ⟨sorted, shallow⟩ := shallow_dict (fields_sorted msg) (fields_flat msg)
  exact decode_encode_front rest rfl sorted fits shallow

/-- The message with the size its dictionary has, and with other bytes behind it. -/
def remade : UtMetadataMessage → Bytes → UtMetadataMessage
  | .request msg, _ => .request (.new msg.piece)
  | .data msg, more => .data (.new msg.piece msg.totalSize more)
  | .reject msg, _ => .reject (.new msg.piece)

/-- The cached size is the size of the dictionary, as the constructors make it. -/
def Sized (msg : UtMetadataMessage) : Prop := msg = remade msg (extra msg)

theorem remade_sized (more : Bytes) : Sized (remade msg more) := by
  cases msg <;> rfl

theorem sized_iff : Sized msg ↔ msg.messageSize = msg.writeBytes.length := by
  rcases msg with ⟨piece, size⟩ | ⟨piece, total, data, size⟩ | ⟨piece, size⟩ <;>
    simp [Sized, remade, extra, UtMetadataRequestMessage.new, UtMetadataDataMessage.new,
      UtMetadataRejectMessage.new, UtMetadataMessage.messageSize, UtMetadataMessage.writeBytes]

theorem slice_behind (front rest : Bytes) :
    (sliceFrom (front ++ rest) front.length : Outcome ε Bytes) = .ok rest := by
  rw [slice_from_ok (by simp), drop_left' rfl]

theorem int_found {handleError : BencodeConvertError → ε} {dict : Dict} {key : Bytes} {n : Int64}
    (found : SortedMap.lookup key dict = some (.int n)) :
    lookupAndConvertInt handleError dict key = .ok n := by
  unfold lookupAndConvertInt
  rw [lookup_ok_iff.mpr found, ok_bind]
  rfl

def typeOf : UtMetadataMessage → UInt8
  | .request _ => requestMessageTypeId
  | .data _ => dataMessageTypeId
  | .reject _ => rejectMessageTypeId

theorem type_found : parseMessageType (fields msg) = .ok (typeOf msg) := by
  have found : SortedMap.lookup messageTypeKey (fields msg) =
      some (.int (typeOf msg).toUInt64.toInt64) := by
    cases msg <;> simp [fields, typeOf, SortedMap.lookup]
  unfold parseMessageType
  rw [int_found found, ok_bind]
  simp

def pieceOf : UtMetadataMessage → Int64
  | .request msg => msg.piece
  | .data msg => msg.piece
  | .reject msg => msg.piece

theorem piece_found : parsePieceIndex (fields msg) = .ok (pieceOf msg) :=
  int_found (by cases msg <;> simp +decide [fields, SortedMap.lookup, pieceOf])

theorem metadata_front (more : Bytes)
    (fits : (encode (.dict (fields msg)) ++ more).length ≤ isizeMax) :
    UtMetadataMessage.parseBytes (encode (.dict (fields msg)) ++ more) = .ok (remade msg more) := by
  obtain ⟨r, decoded, kind, buffer⟩ := fields_decoded msg more fits
  have isDict : convertDict IoError.bencodeConvert (.dict (fields msg)) metadataErrorKey =
      .ok (fields msg) := rfl
  unfold UtMetadataMessage.parseBytes
  rw [decode_io_ok_iff.mpr decoded, ok_bind, kind, isDict, ok_bind, type_found, ok_bind, piece_found,
    ok_bind, buffer]
  dsimp only
  rw [slice_behind, ok_bind]
  cases msg with
  | request msg =>
    rw [typeOf, if_pos rfl, remade, UtMetadataRequestMessage.new, ben_request]
    rfl
  | data msg =>
    have total : parseTotalSize (fields (.data msg)) = .ok msg.totalSize :=
      int_found (by simp +decide [fields, SortedMap.lookup])
    rw [typeOf, if_neg (by decide), if_neg (by decide), if_pos rfl, total, remade,
      UtMetadataDataMessage.new, ben_data]
    rfl
  | reject msg =>
    rw [typeOf, if_neg (by decide), if_pos rfl, remade, UtMetadataRejectMessage.new, ben_reject]
    rfl

theorem metadata_back (sized : Sized msg) (fits : msg.writeBytes.length ≤ isizeMax) :
    UtMetadataMessage.parseBytes msg.writeBytes = .ok msg := by
  rw [fields_written] at fits ⊢
  rw [metadata_front msg (extra msg) fits, ← sized]

theorem parsed_whole {msg : UtMetadataMessage}
    (parsed : UtMetadataMessage.parseBytes bytes = .ok msg) :
    ∃ r, BencodeDecode.BencodeRef.decode bytes metadataDecodeOpts = .ok r ∧
      r.buffer.bytes.length ≤ bytes.length := by
  obtain ⟨r, decoded, parsed⟩ := bind_eq_ok.mp parsed
  obtain ⟨root, _, parsed⟩ := bind_eq_ok.mp parsed
  obtain ⟨typeId, _, parsed⟩ := bind_eq_ok.mp parsed
  obtain ⟨piece, _, parsed⟩ := bind_eq_ok.mp parsed
  obtain ⟨more, inside, parsed⟩ := bind_eq_ok.mp parsed
  refine ⟨r, decode_io_ok_iff.mp decoded, ?_⟩
  unfold sliceFrom at inside
  split at inside
  · assumption
  · cases inside

/-- A message that is read from the front of its own bytes is of the right size. -/
theorem metadata_taken {msg : UtMetadataMessage} {front rest : Bytes}
    (begins : front <+: msg.writeBytes ++ rest) (fits : front.length ≤ isizeMax)
    (parsed : UtMetadataMessage.parseBytes front = .ok msg) : Sized msg := by
  rw [fields_written, append_assoc] at begins
  have whole : encode (.dict (fields msg)) <+: front := by
    rcases prefix_or_prefix_of_prefix begins (prefix_append _ _) with short | long
    · obtain ⟨r, decoded, inside⟩ := parsed_whole parsed
      have room := fields_short msg
      rw [← append_nil (encode _)] at room
      obtain ⟨r', again, _, buffer⟩ := fields_decoded msg [] room
      rw [append_nil] at again room
      rw [decode_extend rfl room short decoded] at again
      cases again
      rw [buffer] at inside
      exact (short.eq_of_length_le inside).symm ▸ prefix_rfl
    · exact long
  obtain ⟨more, rfl⟩ := whole
  rw [metadata_front msg more fits] at parsed
  rw [← Outcome.ok.inj parsed]
  exact remade_sized msg more

variable {len : UInt32} {body : Bytes}
variable {extId : UInt8}

theorem parse_extension (own : extId ≠ extendedMessageHandshakeId) (ours : Option ExtendedMessage) :
    PeerWireProtocolMessage.parseBytes (frame len extendedMessageId (extId :: body)) ours =
      finish .failedToParse (do
        let res ← settle (PeerExtensionProtocolMessage.parseBytes
          (frame len extendedMessageId (extId :: body)) ours)
        return res.map .protExtension) := by
  have bits : BitsExtensionMessage.parseBytes (frame len extendedMessageId (extId :: body)) =
      .err .error := by
    unfold BitsExtensionMessage.parseBytes
    rw [port_frame, if_neg (by simp +decide), alt_error, handshake_frame, if_neg fun both => own both.2]
  unfold PeerWireProtocolMessage.parseBytes parseMessage
  rw [standard_frame, arm_above (by decide), alt_error, bits]
  rfl

theorem parse_prot (own : extId ≠ extendedMessageHandshakeId) (extendedMsg : ExtendedMessage) :
    PeerWireProtocolMessage.parseBytes (frame len extendedMessageId (extId :: body)) (some extendedMsg) =
      finish .failedToParse (do
        let res ← settle (finish .failedToParseExtension
          (parseExtensionsWithId (frame len extendedMessageId (extId :: body)) extendedMsg len extId))
        return res.map .protExtension) := by
  rw [parse_extension own]
  unfold PeerExtensionProtocolMessage.parseBytes
  dsimp only
  rw [extensions_frame, if_pos rfl]

theorem with_id_known {extendedMsg : ExtendedMessage} {size : Nat}
    (known : extendedMsg.queryId .utMetadata = some extId) (small : 2 + size < 2 ^ 32)
    (enough : size ≤ body.length) :
    parseExtensionsWithId (frame (UInt32.ofNat (2 + size)) extendedMessageId (extId :: body)) extendedMsg
      (UInt32.ofNat (2 + size)) extId = (do
        let res ← settle (UtMetadataMessage.parseBytes (body.take size))
        return res.map .utMetadata) := by
  obtain ⟨less, value⟩ := announced_less (b := 2) small rfl
  rw [parseExtensionsWithId, less, ok_bind, value, frame_extension, ok_bind,
    if_neg (by omega), if_pos known]

theorem framed_metadata (sized : Sized msg) {extendedMsg : ExtendedMessage}
    (own : extId ≠ extendedMessageHandshakeId)
    (known : extendedMsg.queryId .utMetadata = some extId) (small : 2 + msg.messageSize < 2 ^ 32) :
    Framed (some extendedMsg) (.protExtension (.utMetadata msg)) (UInt32.ofNat (2 + msg.messageSize))
      extendedMessageId (extId :: msg.writeBytes) := by
  have size := (sized_iff msg).mp sized
  obtain ⟨less, value⟩ := announced_less (b := 2) small rfl
  refine ⟨?_, ?_, ?_, ?_⟩
  · rw [UInt32.toNat_ofNat_of_lt' small, length_cons, size]
    omega
  · simp only [PeerWireProtocolMessage.messageSize, messageLengthLenBytes, baseProtExtensionMessageLen,
      PeerExtensionProtocolMessage.messageSize, length_cons, size]
    omega
  · intro rest
    have fits : msg.writeBytes.length ≤ isizeMax := by
      unfold isizeMax
      omega
    refine ⟨.protExtension (.utMetadata msg), ?_, same_refl _⟩
    rw [cons_append, parse_prot own, with_id_known known small (by simp [size]), size,
      take_left' rfl, metadata_back msg sized fits]
    rfl
  · intro front begins short
    cases front with
    | nil => exact ⟨_, parse_bits (by decide) bits_short (by simp)⟩
    | cons sub tail =>
      obtain ⟨same, _⟩ := cons_prefix_cons.mp begins
      simp only [length_cons] at short
      refine ⟨.tooShort msg.messageSize, ?_⟩
      rw [same, parse_prot own, parseExtensionsWithId, less, ok_bind, value, frame_extension,
        ok_bind, if_pos (by omega)]
      rfl

end Metadata

end PeerFrame
