import Mathlib.Order.Lattice
import Bittorrent.Utp.Wire
import Bittorrent.Utp.Stream

/-!
The replies of `handle_packet` on the wire. A selective acknowledgement has a bit for every number
between the acknowledged one and the last packet in the buffer, and one byte for its length. It is
read back as it was built exactly if the buffered packets are less than 2018 ahead.
-/
namespace UtpReply
open Rust Outcome Action UtpPacket UtpReceive UtpSocket UtpStream UtpWire List

section Mask
variable {ε : Type}

variable (sack : Bytes)

theorem set_bit_length (diff : Nat) :
    (ReceiveSide.setBit sack diff).length = max sack.length ((diff / 8 / 4 + 1) * 4) := by
  simp only [ReceiveSide.setBit, length_modify, length_append, length_replicate]
  omega

variable {sack : Bytes}

variable (diffs : List Nat)

theorem mask_words (words : sack.length % 4 = 0) :
    (diffs.foldl ReceiveSide.setBit sack).length % 4 = 0 := by
  refine List.foldlRecOn (motive := (List.length · % 4 = 0)) diffs _ words fun sack words diff _ => ?_
  rw [set_bit_length]
  omega

theorem mask_length_le (bound : Nat) :
    (diffs.foldl ReceiveSide.setBit sack).length ≤ bound ↔
      sack.length ≤ bound ∧ ∀ diff ∈ diffs, (diff / 8 / 4 + 1) * 4 ≤ bound := by
  induction diffs generalizing sack with
  | nil => simp
  | cons diff rest ih =>
    rw [foldl_cons, ih, set_bit_length, Nat.max_le, forall_mem_cons, and_assoc]

/-- The bits of the mask belong to the buffered packets behind the next one. -/
theorem stashed_iff {ackNr : UInt16} {buffer : List Packet} {diffs : List Nat}
    (run : (ReceiveSide.stashed ackNr buffer : Outcome ε (List Nat)) = .ok diffs) (diff : Nat) :
    diff ∈ diffs ↔ ∃ p ∈ buffer, p.seqNr.toNat = ackNr.toNat + 2 + diff := by
  induction buffer generalizing diffs with
  | nil =>
    cases run
    simp
  | cons p rest ih =>
    obtain ⟨next, sum, run⟩ := bind_eq_ok.mp run
    have following : next.toNat = ackNr.toNat + 1 := u16_add_value sum
    split at run
    · rename_i behind
      obtain ⟨past, first, run⟩ := bind_eq_ok.mp run
      obtain ⟨d, second, run⟩ := bind_eq_ok.mp run
      obtain ⟨later, others, run⟩ := bind_eq_ok.mp run
      cases run
      have value : p.seqNr.toNat = ackNr.toNat + 2 + d.toNat := by
        have whole := u16_sub_value first
        have part : past.toNat = 2 + d.toNat := u16_sub_value second
        omega
      rw [mem_cons, ih others, exists_mem_cons_iff, value]
      constructor
      · rintro (rfl | other)
        · exact .inl rfl
        · exact .inr other
      · rintro (same | other)
        · exact .inl (by omega)
        · exact .inr other
    · rename_i before
      have low : p.seqNr.toNat ≤ ackNr.toNat + 1 := by
        rw [← following]
        exact UInt16.le_iff_toNat_le.mp (UInt16.not_lt.mp before)
      rw [ih run, exists_mem_cons_iff]
      constructor
      · exact .inr
      · rintro (same | other)
        · omega
        · exact other

/-- A mask fits its length byte exactly if no buffered packet is too far ahead. -/
theorem build_selective_ack_short {r : ReceiveSide}
    (built : (r.buildSelectiveAck : Outcome ε Bytes) = .ok sack) :
    sack.length < 256 ↔ ∀ p ∈ r.incomingBuffer, p.seqNr.toNat < r.ackNr.toNat + 2018 := by
  obtain ⟨diffs, run, filled⟩ := bind_eq_ok.mp built
  cases filled
  rw [← Nat.le_sub_one_iff_lt (by decide), mask_length_le]
  constructor
  · rintro ⟨_, small⟩ p member
    by_contra far
    have bit := (stashed_iff run (p.seqNr.toNat - r.ackNr.toNat - 2)).mpr ⟨p, member, by omega⟩
    have := small _ bit
    omega
  · intro near
    refine ⟨by decide, ?_⟩
    intro diff bit
    obtain ⟨p, member, place⟩ := (stashed_iff run diff).mp bit
    have := near p member
    omega

theorem build_selective_ack_words {r : ReceiveSide}
    (built : (r.buildSelectiveAck : Outcome ε Bytes) = .ok sack) : sack.length % 4 = 0 := by
  obtain ⟨diffs, _, filled⟩ := bind_eq_ok.mp built
  cases filled
  exact mask_words diffs rfl

/-- The bit of a mask that stands for the number that far behind the second one. -/
def Marks (mask : Bytes) (i : Nat) : Prop := (⟨.selectiveAck, mask⟩ : Extension).iter[i]? = some true

variable {r : ReceiveSide}

/-- The numbers that the other end reads off a mask, modulo 2^16. -/
def derived (ackNr : UInt16) (mask : Bytes) (n : UInt16) : Prop :=
  ∃ i, Marks mask i ∧ n = ackNr + 2 + UInt16.ofNat i

/-- Ahead of the next number by at most half of all numbers. -/
def Beyond (ackNr n : UInt16) : Prop := 2 ≤ (n - ackNr).toNat ∧ (n - ackNr).toNat ≤ 2 ^ 15

/-- Both ends take the mask for the same packets. -/
def Agreed (r : ReceiveSide) : Prop :=
  ∃ mask, (r.buildSelectiveAck : Outcome Unit Bytes) = .ok mask ∧ ∀ n, derived r.ackNr mask n ↔
    Beyond r.ackNr n ∧ ∃ p ∈ r.incomingBuffer, p.seqNr = n

end Mask

section Wire
variable {ε : Type} {reply : Packet} {bv : Bytes}

/-- A selective acknowledgement is read back up to its length modulo 256. -/
theorem sack_read (only : reply.extensions = [⟨.selectiveAck, bv⟩]) :
    (extensions (asRef reply) : Outcome ε (List Extension)) =
      .ok [⟨.selectiveAck, bv.take (bv.length % 256)⟩] := by
  have small : bv.length % 256 < 256 := Nat.mod_lt _ (by decide)
  have size : (bv.take (bv.length % 256)).length = bv.length % 256 := by
    rw [length_take]
    omega
  have record : header reply ++ record 0 (bv.take (bv.length % 256)) <+: asRef reply := by
    refine ⟨bv.drop (bv.length % 256) ++ reply.payload, ?_⟩
    have whole : bv.take (bv.length % 256) ++ (bv.drop (bv.length % 256) ++ reply.payload) =
        bv ++ reply.payload := by
      rw [← append_assoc, take_append_drop]
    rw [UtpWire.record, size, UInt8.ofNat_mod_size]
    simp [asRef, only, chain, leading, ExtensionType.toU8, whole]
  have first : ExtensionType.fromU8 (leading .none reply.extensions).toU8 = .selectiveAck := by
    rw [only]
    rfl
  obtain ⟨fuel, enough⟩ : ∃ fuel, (asRef reply).length = fuel + 1 := by
    refine ⟨(asRef reply).length - 1, ?_⟩
    rw [as_ref_length, Packet.len, headerSize]
    omega
  rw [extensions, leading_byte, ok_bind, first, ← header_length reply,
    extensions_from_record record (size.trans_lt small) (by decide), enough, extensionsFrom, if_pos (show ExtensionType.fromU8 0 = .none from rfl), ok_bind]

end Wire

section Handling
variable {packet reply : Packet} {w w' : World}

theorem now_socket {now : UInt32} (ran : nowMicroseconds w = (.ok now, w')) : w'.socket = w.socket := by
  unfold nowMicroseconds at ran
  split at ran <;> cases ran <;> rfl

variable {t : PacketType}

theorem prepare_reply_bare (ran : prepareReply packet t w = (.ok reply, w')) :
    reply.extensions = [] ∧ w'.socket = w.socket := by
  obtain ⟨now, w₁, read, rest⟩ := bind_ok (show (nowMicroseconds >>= _) w = _ from ran)
  cases rest
  exact ⟨rfl, now_socket read⟩

/-- The extensions of a reply that carries this mask, if it has any bits. -/
def masked (sack : Bytes) : List Extension := if sack = [] then [] else [⟨.selectiveAck, sack⟩]

/-- How the reply looks to a packet that does or does not come ahead of the next one. -/
inductive Attached (r : ReceiveSide) (ahead : Prop) (reply : Packet) : Prop where
  | bare (level : ¬ ahead) (none : reply.extensions = [])
  | sack (out : ahead) {sack : Bytes}
      (built : (r.buildSelectiveAck : Outcome SocketError Bytes) = .ok sack)
      (only : reply.extensions = masked sack)

variable {bare : Packet}

theorem with_sack_cases (ran : withSack packet bare w = (.ok reply, w')) :
    ¬ 1 < packet.seqNr - w.socket.ackNr ∧ reply = bare ∨
      1 < packet.seqNr - w.socket.ackNr ∧ ∃ sack,
        (w.socket.toReceiveSide.buildSelectiveAck : Outcome SocketError Bytes) = .ok sack ∧
          (sack = [] ∧ reply = bare ∨
            sack ≠ [] ∧ (bare.setSack sack : Outcome SocketError Packet) = .ok reply) := by
  change (if 1 < packet.seqNr - w.socket.ackNr then _ else _ : Sock Packet) w = _ at ran
  split at ran
  · rename_i ahead
    obtain ⟨sack, w₁, built, rest⟩ := bind_ok ran
    obtain ⟨made, rfl⟩ := Prod.mk.inj built
    refine .inr ⟨ahead, sack, made, ?_⟩
    split at rest
    · rename_i filled
      exact .inr ⟨filled, (Prod.mk.inj rest).1⟩
    · rename_i empty
      cases rest
      exact .inl ⟨not_not.mp empty, rfl⟩
  · rename_i level
    cases ran
    exact .inl ⟨level, rfl⟩

theorem with_sack_attached (fresh : bare.extensions = [])
    (ran : withSack packet bare w = (.ok reply, w')) :
    Attached w.socket.toReceiveSide (1 < packet.seqNr - w.socket.ackNr) reply := by
  rcases with_sack_cases ran with ⟨level, rfl⟩ | ⟨ahead, sack, built, ⟨empty, rfl⟩ | ⟨filled, set⟩⟩
  · exact .bare level fresh
  · exact .sack ahead built (by rw [masked, if_pos empty, fresh])
  · apply Attached.sack ahead built
    unfold Packet.setSack at set
    split at set
    · cases set
      rw [masked, if_neg filled, fresh, nil_append]
    · cases set

theorem acknowledging_reply {w₁ : World} (prepared : prepareReply packet t w = (.ok bare, w₁))
    (ran : withSack packet bare w₁ = (.ok reply, w')) :
    Attached w.socket.toReceiveSide (1 < packet.seqNr - w.socket.ackNr) reply := by
  obtain ⟨fresh, same⟩ := prepare_reply_bare prepared
  have attached := with_sack_attached fresh ran
  rwa [same] at attached

theorem refusing_reply {r : ReceiveSide} {ahead : Prop} (level : ¬ ahead)
    (ran : (prepareReply packet t >>= fun reply => pure (some reply)) w = (.ok (some reply), w')) :
    Attached r ahead reply := by
  obtain ⟨bare, w₁, prepared, rest⟩ := bind_ok ran
  cases rest
  exact .bare level (prepare_reply_bare prepared).1

theorem attached_iff {r : ReceiveSide} {ahead ahead' : Prop} (same : ahead ↔ ahead')
    (attached : Attached r ahead reply) : Attached r ahead' reply := by
  rwa [← propext same]

section Dispatch
variable {ops : FloatOps} {inner : Nat → Sock Bytes} {rounds : Nat} {src : SocketAddr}

theorem dispatch_attached {state : SocketState} (live : state = .connected ∨ state = .finSent)
    (ran : dispatch ops inner rounds packet src state packet.ty w = (.ok (some reply), w')) :
    Attached w.socket.toReceiveSide
      ((packet.ty = .data ∨ packet.ty = .fin) ∧ 1 < packet.seqNr - w.socket.ackNr) reply := by
  cases kind : packet.ty with
  | data =>
    have data : (handleDataPacket packet >>= fun reply => pure (some reply)) w =
        (.ok (some reply), w') := by
      rcases live with rfl | rfl <;> rwa [kind] at ran
    obtain ⟨reply', w₂, handled, rest⟩ := bind_ok data
    cases rest
    obtain ⟨bare, w₁, prepared, attached⟩ :=
      bind_ok (show (prepareReply packet _ >>= withSack packet) w = _ from handled)
    exact attached_iff (by simp) (acknowledging_reply prepared attached)
  | fin =>
    have fin : (prepareReply packet .state >>= fun reply => withSack packet reply >>= fun reply =>
        update (fun s => { s with state := .closed }) >>= fun _ => pure (some reply)) w =
        (.ok (some reply), w') := by
      rcases live with rfl | rfl <;> rwa [kind] at ran
    obtain ⟨bare, w₁, prepared, rest⟩ := bind_ok fin
    obtain ⟨reply', w₂, attached, rest⟩ := bind_ok rest
    cases rest
    exact attached_iff (by simp) (acknowledging_reply prepared attached)
  | state =>
    -- an acknowledgement is never answered
    rcases live with rfl | rfl <;> rw [kind] at ran
    · obtain ⟨_, _, _, rest⟩ := bind_ok ran
      cases rest
    · obtain ⟨s, w₁, _, rest⟩ := bind_ok ran
      split at rest
      · obtain ⟨_, _, _, rest⟩ := bind_ok rest
        cases rest
      · obtain ⟨_, _, _, rest⟩ := bind_ok rest
        cases rest
  | reset => rcases live with rfl | rfl <;> rw [kind] at ran <;> cases ran
  | syn =>
    have refused : (prepareReply packet .reset >>= fun reply => pure (some reply)) w =
        (.ok (some reply), w') := by
      rcases live with rfl | rfl <;> rwa [kind] at ran
    exact refusing_reply (by simp) refused

theorem note_header_receive (ran : noteHeader packet w = (.ok (), w')) :
    w'.socket.toReceiveSide = w.socket.toReceiveSide := by
  obtain ⟨_, w₁, sized, ran⟩ := bind_ok ran
  cases sized
  obtain ⟨now, w₂, read, delayed⟩ := bind_ok ran
  cases delayed
  simp only [now_socket read]

/-- A packet ahead of the next one does not move the acknowledgement. -/
theorem follow_ahead (r : ReceiveSide) (packet : Packet) :
    1 < packet.seqNr - (r.follow packet).ackNr ↔ 1 < packet.seqNr - r.ackNr := by
  unfold ReceiveSide.follow
  split
  · rename_i next
    simp [next]
  · rfl

theorem follow_same {r : ReceiveSide} (ahead : 1 < packet.seqNr - r.ackNr) : r.follow packet = r := by
  unfold ReceiveSide.follow
  rw [if_neg]
  intro next
  rw [next] at ahead
  exact absurd ahead (by decide)

/-- The packet belongs to the connection, carries a number of the stream and comes ahead of the
    next one. -/
structure OutOfOrder (s : Socket) (packet : Packet) : Prop where
  known : packet.connectionId = s.senderConnectionId ∨ packet.connectionId = s.receiverConnectionId
  kind : packet.ty = .data ∨ packet.ty = .fin
  ahead : 1 < packet.seqNr - s.ackNr

theorem handle_packet_attached (live : w.socket.state = .connected ∨ w.socket.state = .finSent)
    (ran : handlePacket ops inner rounds packet src w = (.ok (some reply), w')) :
    Attached (w.socket.toReceiveSide.follow packet) (OutOfOrder w.socket packet) reply := by
  obtain ⟨_, w₁, followed, ran⟩ := bind_ok ran
  cases followed
  obtain ⟨s, w₂, read, ran⟩ := bind_ok ran
  cases read
  split at ran
  · rename_i unknown
    exact refusing_reply (fun out => unknown.2.2 out.known) ran
  · rename_i known
    obtain ⟨_, w₁, noted, ran⟩ := bind_ok ran
    have same := note_header_receive noted
    have attached := dispatch_attached live ran
    rw [same] at attached
    apply attached_iff _ attached
    constructor
    · rintro ⟨kind, ahead⟩
      refine ⟨?_, kind, (follow_ahead _ _).mp ahead⟩
      by_contra stranger
      apply known
      refine ⟨?_, ?_, stranger⟩
      · rcases kind with kind | kind <;> simp [kind]
      · rcases live with live | live <;> simp [live]
    · intro out
      exact ⟨out.kind, (follow_ahead _ _).mpr out.ahead⟩

/-- The reply is a packet, and its extensions are read back as none or as the mask that was built
    for it. -/
structure Decodable (r : ReceiveSide) (reply : Packet) : Prop where
  accepted : tryFromType (asRef reply) = .ok (asRef reply)
  read : (extensions (asRef reply) : Outcome SocketError (List Extension)) = .ok [] ∨
    ∃ sack, (r.buildSelectiveAck : Outcome SocketError Bytes) = .ok sack ∧
      (extensions (asRef reply) : Outcome SocketError (List Extension)) = .ok [⟨.selectiveAck, sack⟩]

theorem decodable_bare (r : ReceiveSide) (bare : reply.extensions = []) : Decodable r reply where
  accepted := try_from_type_as_ref (by simp [bare])
  read := .inl (by rw [extensions_as_ref (by simp [bare]), bare])

theorem decodable_masked {r : ReceiveSide} {sack : Bytes}
    (built : (r.buildSelectiveAck : Outcome SocketError Bytes) = .ok sack)
    (only : reply.extensions = masked sack) : Decodable r reply ↔ sack.length < 256 := by
  by_cases empty : sack = []
  · rw [masked, if_pos empty] at only
    simp [decodable_bare r only, empty]
  · rw [masked, if_neg empty] at only
    constructor
    · intro decodable
      rcases decodable.read with none | ⟨sack', built', same⟩
      · rw [sack_read only] at none
        cases none
      · rw [built] at built'
        cases built'
        rw [sack_read only] at same
        have whole : sack.take (sack.length % 256) = sack := by
          simpa using same
        have size := congrArg List.length whole
        rw [length_take] at size
        omega
    · intro short
      have valid : ∀ e ∈ reply.extensions, Valid e := by
        rw [only]
        intro e member
        rw [mem_singleton.mp member]
        exact ⟨⟨nofun, rfl, short⟩, by simpa using empty, build_selective_ack_words built⟩
      refine ⟨try_from_type_as_ref valid, .inr ⟨sack, built, ?_⟩⟩
      rw [extensions_as_ref fun e member => (valid e member).toLegible, only]

/-- No buffered packet is further ahead than the length of a mask can say. -/
def Within (s : Socket) (packet : Packet) : Prop :=
  OutOfOrder s packet → ∀ p ∈ s.incomingBuffer, p.seqNr.toNat < s.ackNr.toNat + 2018

end Dispatch

theorem reply_decodable_iff (ops : FloatOps) (inner : Nat → Sock Bytes) (rounds : Nat)
    (packet reply : Packet) (src : SocketAddr) (w w' : World)
    (live : w.socket.state = .connected ∨ w.socket.state = .finSent)
    (ran : handlePacket ops inner rounds packet src w = (.ok (some reply), w')) :
    Decodable (w.socket.toReceiveSide.follow packet) reply ↔ Within w.socket packet := by
  cases handle_packet_attached live ran with
  | bare level none =>
    exact ⟨fun _ out => absurd out level, fun _ => decodable_bare _ none⟩
  | sack out built only =>
    have same : w.socket.toReceiveSide.follow packet = w.socket.toReceiveSide := follow_same out.ahead
    rw [decodable_masked built only, build_selective_ack_short built, same]
    exact ⟨fun near _ => near, fun within => within out⟩

/-- Two packets come past the next one, and the reply to the second says that the first is there. -/
theorem near_reply_decodable :
    ∃ w reply, w = (recv plainFloat 1 bufSize true (meeting [dataPacket 3 [97]])).2 ∧
      w.socket.state = .connected ∧ Within w.socket (dataPacket 4 [98]) ∧
      (handlePacket plainFloat (fun _ => Action.cutOff) 0 (dataPacket 4 [98]) peer w).1 =
        .ok (some reply) ∧
      reply.extensions = [⟨.selectiveAck, [2, 0, 0, 0]⟩] ∧
      Decodable (w.socket.toReceiveSide.follow (dataPacket 4 [98])) reply := by
  have within : Within (recv plainFloat 1 bufSize true (meeting [dataPacket 3 [97]])).2.socket
      (dataPacket 4 [98]) := by
    intro _ p member
    have only : p = dataPacket 3 [97] := mem_singleton.mp member
    rw [only]
    decide
  refine ⟨_, { Packet.new with
    ty := .state, connectionId := 2, seqNr := 1
    extensions := [⟨.selectiveAck, [2, 0, 0, 0]⟩] }, rfl, rfl, within, ?_, rfl, ?_⟩
  · decide +kernel
  · refine (reply_decodable_iff plainFloat (fun _ => Action.cutOff) 0 (dataPacket 4 [98]) _ peer _ _
      (.inl rfl) (Prod.ext ?_ rfl)).mpr within
    decide +kernel

/-- A packet 2018 ahead is stored. The reply to the next one needs a mask of 256 bytes, whose length
    is written as 0. -/
theorem far_reply_rejected :
    ∃ w reply, w = (recv plainFloat 1 bufSize true (meeting [dataPacket 2018 [97]])).2 ∧
      w.socket.state = .connected ∧
      (handlePacket plainFloat (fun _ => Action.cutOff) 0 (dataPacket 2019 [98]) peer w).1 =
        .ok (some reply) ∧
      tryFromType (asRef reply) = .err .invalidExtensionLength := by
  refine ⟨_, { Packet.new with
    ty := .state, connectionId := 2, seqNr := 1
    extensions := [⟨.selectiveAck, List.replicate 252 0 ++ [1, 0, 0, 0]⟩] }, rfl, ?_, ?_, ?_⟩
  · rfl
  · decide +kernel
  · decide +kernel

end Handling

end UtpReply
