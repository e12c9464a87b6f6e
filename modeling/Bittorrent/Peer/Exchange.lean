import Bittorrent.Peer.RoundTrip

/-!
Two codecs that talk to each other. A metadata message goes out under the id that its receiver has announced,
and the receiver looks the id up in its own handshake; so both have to agree by the time the frame arrives.
-/
namespace PeerExchange
open Rust PeerExtended PeerMessage PeerFrame PeerRoundTrip List

/-- A message and the frame it was written to. -/
abbrev Sent := PeerWireProtocolMessage × Bytes

/-- What a client may write: no keep-alive and nothing put together by hand, no metadata message to one that
    has announced the id 0 for it, and at most one handshake. -/
structure Proper (codec : PeerWireMessageCodec) (msg : PeerWireProtocolMessage) : Prop where
  fits : FitsU32 msg
  faithful : Faithful codec.theirExtendedMsg msg
  once : ∀ h, msg = .bitsExtension (.extended h) → codec.ourExtendedMsg = none

/-- The side that acts and the other one, with the frames on their way. -/
structure Link where
  own : PeerWireMessageCodec
  other : PeerWireMessageCodec
  outbox : List Sent
  inbox : List Sent

/-- Either side may act: `turn` makes the other one the first. -/
inductive Reachable : Link → Prop where
  | start : Reachable ⟨.new, .new, [], []⟩
  | turn {l : Link} (before : Reachable l) : Reachable ⟨l.other, l.own, l.inbox, l.outbox⟩
  | write {l : Link} (before : Reachable l) {sent : Sent} (proper : Proper l.own sent.1)
      {own : PeerWireMessageCodec} (written : l.own.writeBytes sent.1 = (.ok sent.2, own)) :
      Reachable ⟨own, l.other, l.outbox ++ [sent], l.inbox⟩
  | read {l : Link} (before : Reachable l) {sent : Sent} {rest : List Sent} (next : l.inbox = sent :: rest) :
      Reachable ⟨(l.own.parseBytes sent.2).2, l.other, l.outbox, rest⟩

section Steps
variable {out ours theirs : Option ExtendedMessage} {sent : Sent} {frames : List Sent}

def Reads (ours : Option ExtendedMessage) (sent : Sent) : Prop :=
  ∃ parsed, PeerWireProtocolMessage.parseBytes sent.2 ours = .ok parsed ∧ Same parsed sent.1

/-- A frame from a side whose handshake is `out` to one whose handshake is `ours`. Only a metadata message
    needs the second, which is written before it and stays as it is. -/
structure Fine (out ours : Option ExtendedMessage) (sent : Sent) : Prop where
  announced : ∀ h, sent.1 = .bitsExtension (.extended h) → out = some h
  readable : (∀ ours, Reads ours sent) ∨ ours ≠ none ∧ Reads ours sent

/-- One direction, with what the receiver knows of the handshake `out`. -/
structure InStep (out theirs ours : Option ExtendedMessage) (frames : List Sent) : Prop where
  seen : ∀ p, theirs = some p → ∃ h, out = some h ∧ p.Same h
  fine : ∀ sent ∈ frames, Fine out ours sent

theorem back_reads (back : ComesBack ours theirs sent.1)
    (written : sent.1.writeBytes theirs = .ok sent.2) : Reads ours sent := by
  obtain ⟨_, same, _, _, parsed⟩ := back
  cases written.symm.trans same
  exact parsed

theorem written_readable {own : PeerWireMessageCodec} (proper : Proper own sent.1)
    (written : sent.1.writeBytes own.theirExtendedMsg = .ok sent.2)
    (back : InStep ours own.theirExtendedMsg out frames) :
    (∀ ours, Reads ours sent) ∨ ours ≠ none ∧ Reads ours sent := by
  obtain ⟨msg, bytes⟩ := sent
  have built : ∀ h, msg = .bitsExtension (.extended h) → ∃ builder, h = .fromBuilder builder := by
    rintro h rfl
    obtain ⟨builder, made, _⟩ := proper.faithful
    exact ⟨builder, made⟩
  by_cases metadata : ∃ inner, msg = .protExtension (.utMetadata inner)
  · obtain ⟨inner, rfl⟩ := metadata
    obtain ⟨p, extId, known, id⟩ : ∃ p extId, own.theirExtendedMsg = some p ∧
        p.queryId .utMetadata = some extId := by
      dsimp only [PeerWireProtocolMessage.writeBytes, PeerExtensionProtocolMessage.writeBytes] at written
      grind
    obtain ⟨h, rfl, same⟩ := back.seen p known
    have told : metadataId own.theirExtendedMsg = some extId := known ▸ id
    have ours : metadataId (some h) = some extId := (same.idMap .utMetadata).symm.trans id
    exact .inr ⟨by simp, back_reads (faithful_back ⟨⟨fun _ _ => ⟨extId, told, ours⟩, built⟩, proper.fits⟩
      ⟨proper.faithful.1, ours ▸ told ▸ proper.faithful.2⟩) written⟩
  · refine .inl fun ours => back_reads (faithful_back
      ⟨⟨fun inner same => absurd ⟨inner, same⟩ metadata, built⟩, proper.fits⟩ ?_) written
    have plain := proper.faithful
    cases msg with
    | bitsExtension ext => cases ext <;> exact plain
    | protExtension ext =>
      cases ext with
      | utMetadata inner => exact absurd ⟨inner, rfl⟩ metadata
      | custom inner => exact inner.elim
    | _ => exact plain

/-- Nobody has heard of a handshake of ours before the first one. -/
theorem announce_in_step (step : InStep none theirs ours frames) : InStep out theirs ours frames := by
  refine ⟨?_, fun sent member => ⟨?_, (step.fine sent member).readable⟩⟩
  · intro p known
    obtain ⟨_, ⟨⟩, _⟩ := step.seen p known
  · intro h' same
    cases (step.fine sent member).announced h' same

theorem prepare_in_step (step : InStep out theirs none frames) : InStep out theirs ours frames :=
  ⟨step.seen, fun sent member => ⟨(step.fine sent member).announced,
    .inl ((step.fine sent member).readable.resolve_right fun needs => needs.1 rfl)⟩⟩

theorem push_in_step (step : InStep out theirs ours frames) (fine : Fine out ours sent) :
    InStep out theirs ours (frames ++ [sent]) :=
  ⟨step.seen, forall_mem_append.mpr ⟨step.fine, forall_mem_singleton.mpr fine⟩⟩

theorem fine_reads (fine : Fine out ours sent) : Reads ours sent := by
  rcases fine.readable with always | ⟨_, reads⟩
  · exact always _
  · exact reads

theorem same_handshake {p : ExtendedMessage} {msg : PeerWireProtocolMessage}
    (same : Same (.bitsExtension (.extended p)) msg) :
    ∃ h, msg = .bitsExtension (.extended h) ∧ p.Same h := by
  cases msg with
  | bitsExtension ext =>
    cases ext with
    | extended h => exact ⟨h, rfl, same⟩
    | port _ => cases same
  | _ => cases same

end Steps

variable {l : Link}

theorem reachable_in_step (reachable : Reachable l) :
    InStep l.own.ourExtendedMsg l.other.theirExtendedMsg l.other.ourExtendedMsg l.outbox ∧
      InStep l.other.ourExtendedMsg l.own.theirExtendedMsg l.own.ourExtendedMsg l.inbox := by
  induction reachable with
  | start =>
    have quiet : InStep none none none [] := ⟨by rintro _ ⟨⟩, by simp⟩
    exact ⟨quiet, quiet⟩
  | turn _ ih => exact ih.symm
  | @write l _ sent proper own written ih =>
    obtain ⟨out, back⟩ := ih
    unfold PeerWireMessageCodec.writeBytes at written
    split at written
    next h ended isHandshake =>
      cases written
      rw [proper.once h isHandshake] at out back
      refine ⟨push_in_step (announce_in_step out) ⟨fun h' same => ?_, written_readable proper ended back⟩,
        prepare_in_step back⟩
      cases isHandshake.symm.trans same
      rfl
    next different =>
      obtain ⟨ended, rfl⟩ := Prod.mk.inj written
      exact ⟨push_in_step out ⟨fun h same => absurd same (different _ h ended),
        written_readable proper ended back⟩, back⟩
  | @read l _ sent rest next ih =>
    obtain ⟨out, back⟩ := ih
    rw [next] at back
    obtain ⟨first, fine⟩ := forall_mem_cons.mp back.fine
    obtain ⟨parsed, read, same⟩ := fine_reads first
    dsimp only [PeerWireMessageCodec.parseBytes]
    split
    next p ended =>
      cases ended.symm.trans read
      obtain ⟨h, isHandshake, same⟩ := same_handshake same
      refine ⟨out, ?_, fine⟩
      rintro _ ⟨⟩
      exact ⟨h, first.announced h isHandshake, same⟩
    next => exact ⟨out, back.seen, fine⟩

/-- Whatever is on its way, the next frame is read as the message that was written, and what a side knows of
    the other one's handshake is right. -/
theorem arrives_as_written (reachable : Reachable l) :
    (∀ sent rest, l.inbox = sent :: rest →
      ∃ parsed, (l.own.parseBytes sent.2).1 = .ok parsed ∧ Same parsed sent.1) ∧
    ∀ p, l.own.theirExtendedMsg = some p → ∃ h, l.other.ourExtendedMsg = some h ∧ p.Same h := by
  obtain ⟨_, back⟩ := reachable_in_step reachable
  refine ⟨fun sent rest next => ?_, back.seen⟩
  obtain ⟨_, parses, _⟩ := codec_parse l.own sent.2
  rw [parses]
  exact fine_reads (back.fine sent (next ▸ .head _))

theorem interested_arrives : ∃ parsed,
    (PeerWireMessageCodec.new.parseBytes [0, 0, 0, 1, 2]).1 = .ok parsed ∧ Same parsed .interested := by
  have proper : Proper .new ((.interested, [0, 0, 0, 1, 2]) : Sent).1 :=
    ⟨show 5 - 4 < 2 ^ 32 by decide, trivial, by rintro _ ⟨⟩⟩
  exact (arrives_as_written (.turn (.write .start proper rfl))).1 _ _ rfl

end PeerExchange
