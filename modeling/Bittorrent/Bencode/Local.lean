import Bittorrent.Bencode.RoundTrip

/-!
Locality of the decoder. Every value below the one that was decoded stands where its buffer says,
and its bytes alone are decoded to the same value.
-/
namespace BencodeLocal
open Rust BencodeValue BencodeDecode BencodeLexeme BencodeForm BencodeRoundTrip SortedMap
open List hiding range

def children : BencodeRef → List BencodeRef
  | .list items _ => items
  | .dict entries _ => entries.map Prod.snd
  | _ => []

inductive Nested (r : BencodeRef) : BencodeRef → Prop where
  | root : Nested r r
  | child {v w : BencodeRef} (outer : Nested r v) (member : w ∈ children v) : Nested r w

def stop (v : BencodeRef) : Nat := v.buffer.start + v.buffer.bytes.length

/-- The children of a list in its order, and those of a dictionary in some order, stand one behind
    the other inside the container. -/
def InputOrder (v : BencodeRef) : Prop :=
  ∃ order : List BencodeRef, order.Perm (children v) ∧
    (∀ items buffer, v = .list items buffer → order = items) ∧
    order.Pairwise (fun w w' => stop w ≤ w'.buffer.start) ∧
    ∀ w ∈ order, v.buffer.start < w.buffer.start ∧ stop w < stop v

structure Local (b : Bytes) (opts : BDecodeOpt) (v : BencodeRef) : Prop where
  slice : StandsAt b v.buffer.start v.buffer.bytes
  again : ∃ v', BencodeRef.decode v.buffer.bytes opts = .ok v' ∧ v'.kind = v.kind ∧
    v'.buffer = ⟨0, v.buffer.bytes⟩
  ordered : InputOrder v

section
variable {b : Bytes} {opts : BDecodeOpt} {depth pos first last : Nat} {v w : BencodeRef}

/-- What the decoder makes of an accepted form that stands in the input. -/
def Standing (b : Bytes) (opts : BDecodeOpt) (v : BencodeRef) : Prop :=
  ∃ f depth pos, v = f.refAt pos ∧ Accepted opts depth f ∧ StandsAt b pos f.print

/-- Values that stand one behind the other in a range of the input. -/
structure Laid (b : Bytes) (opts : BDecodeOpt) (first last : Nat) (ws : List BencodeRef) : Prop where
  range : first ≤ last
  ordered : ws.Pairwise (fun w w' => stop w ≤ w'.buffer.start)
  inside : ∀ w ∈ ws, first ≤ w.buffer.start ∧ stop w ≤ last
  standing : ∀ w ∈ ws, Standing b opts w

theorem laid_cons {f : Form} {ws : List BencodeRef} (accepted : Accepted opts depth f)
    (here : StandsAt b pos f.print) (behind : first ≤ pos)
    (laid : Laid b opts (pos + f.print.length) last ws) : Laid b opts first last (f.refAt pos :: ws) := by
  obtain ⟨range, ordered, inside, standing⟩ := laid
  have ends : stop (f.refAt pos) = pos + f.print.length := by rw [stop, buffer_ref_at]
  have starts : (f.refAt pos).buffer.start = pos := by rw [buffer_ref_at]
  refine ⟨by omega, .cons (fun w member => ends ▸ (inside w member).1) ordered, ?_, ?_⟩
  · refine forall_mem_cons.mpr ⟨by omega, fun w member => ?_⟩
    have := inside w member
    omega
  · exact forall_mem_cons.mpr ⟨⟨f, depth, pos, rfl, accepted, here⟩, standing⟩

theorem items_laid {items : List Form} (all : ∀ f ∈ items, Accepted opts depth f)
    (stands : StandsAt b pos (printItems items)) :
    Laid b opts pos (pos + (printItems items).length) (refItems items pos) := by
  induction items generalizing pos with
  | nil => exact ⟨Nat.le_add_right .., .nil, nofun, nofun⟩
  | cons f rest ih =>
    obtain ⟨accepted, others⟩ := forall_mem_cons.mp all
    obtain ⟨here, later⟩ := stands_at_append.mp stands
    have laid := laid_cons accepted here (le_refl pos) (ih others later)
    rwa [Nat.add_assoc, ← length_append] at laid

theorem entries_laid {entries : List (ByteString × Form)} (all : ∀ e ∈ entries, Accepted opts depth e.2)
    (stands : StandsAt b pos (printEntries entries)) :
    Laid b opts pos (pos + (printEntries entries).length) ((refEntries entries pos).map Prod.snd) := by
  induction entries generalizing pos with
  | nil => exact ⟨Nat.le_add_right .., .nil, nofun, nofun⟩
  | cons e rest ih =>
    obtain ⟨accepted, others⟩ := forall_mem_cons.mp all
    obtain ⟨_, value⟩ := stands_at_append.mp stands
    obtain ⟨here, later⟩ := stands_at_append.mp value
    have laid := laid_cons accepted here (Nat.le_add_right pos e.1.print.length) (ih others later)
    rwa [Nat.add_assoc, Nat.add_assoc, ← length_append, ← length_append] at laid

section
variable (standing : Standing b opts v)
include standing

theorem children_laid : ∃ order : List BencodeRef, order.Perm (children v) ∧
      (∀ items buffer, v = .list items buffer → order = items) ∧
      (order = [] ∨ Laid b opts (v.buffer.start + 1) (stop v - 1) order) := by
  obtain ⟨f, depth, pos, rfl, accepted, stands⟩ := standing
  rw [stop, buffer_ref_at]
  -- around its children a container has one byte on either side
  have between : ∀ {c : UInt8} {inner : Bytes}, f.print = c :: (inner ++ [benEnd]) →
      StandsAt b (pos + 1) inner ∧ pos + f.print.length - 1 = pos + 1 + inner.length := by
    intro c inner print
    rw [print, stands_at_cons, stands_at_append] at stands
    exact ⟨stands.2.1, by simp [print]; omega⟩
  cases accepted with
  | int _ n | bytes _ s => exact ⟨[], by rw [Form.refAt]; exact .refl _, by simp [Form.refAt], .inl rfl⟩
  | list _ items all =>
    obtain ⟨inner, ends⟩ := between (by rw [Form.print])
    rw [ends, Form.refAt]
    exact ⟨_, .refl _, fun _ _ same => (BencodeRef.list.inj same).1, .inr (items_laid all inner)⟩
  | dict _ entries keys all =>
    obtain ⟨inner, ends⟩ := between (by rw [Form.print])
    rw [ends, Form.refAt]
    refine ⟨_, (of_list_perm ?_).symm.map Prod.snd, by simp, .inr (entries_laid all inner)⟩
    rw [ref_entries_keys]
    exact keys.1

theorem standing_child (member : w ∈ children v) : Standing b opts w := by
  obtain ⟨order, perm, _, empty | laid⟩ := children_laid standing
  · subst empty
    cases perm.mem_iff.mpr member
  · exact laid.standing w (perm.mem_iff.mpr member)

theorem standing_input_order : InputOrder v := by
  obtain ⟨order, perm, same, empty | laid⟩ := children_laid standing
  · subst empty
    exact ⟨[], perm, same, .nil, nofun⟩
  · refine ⟨order, perm, same, laid.ordered, fun w member => ?_⟩
    have range := laid.range
    have := laid.inside w member
    omega

end

theorem standing_local (fits : b.length ≤ isizeMax) (standing : Standing b opts v) :
    Local b opts v := by
  refine ⟨?_, ?_, standing_input_order standing⟩
  all_goals
    obtain ⟨f, depth, pos, rfl, accepted, stands⟩ := standing
    rw [buffer_ref_at]
  · exact stands
  · obtain ⟨rest, split⟩ := stands
    have short := congrArg List.length split
    rw [length_drop, length_append] at short
    exact ⟨f.refAt 0, decode_form (by omega) (accepted_room accepted 0 (by omega)),
      by rw [kind_ref_at, kind_ref_at], buffer_ref_at f 0⟩

/-- Everything below a decoded value is local to the input, and unless the whole input has to be
    decoded nothing behind it matters. -/
theorem decode_local {r : BencodeRef} (fits : b.length ≤ isizeMax)
    (decoded : BencodeRef.decode b opts = .ok r) :
    (∀ v, Nested r v → Local b opts v) ∧
      (opts.enforceFullDecode = false → ∀ x : Bytes, (b ++ x).length ≤ isizeMax →
        BencodeRef.decode (b ++ x) opts = .ok r) := by
  constructor
  · intro v nested
    apply standing_local fits
    induction nested with
    | root =>
      obtain ⟨f, accepted, ⟨rest, split⟩, rfl, _⟩ := decode_front fits decoded
      exact ⟨f, 0, 0, rfl, accepted, rest, split.symm⟩
    | child _ member ih => exact standing_child ih member
  · intro partly x long
    exact decode_extend partly long ⟨x, rfl⟩ decoded

end

/-- The item of `l1:ae`. -/
theorem list_item_local : ∃ r v, BencodeRef.decode [108, 49, 58, 97, 101] .default = .ok r ∧
    Nested r v ∧ v.buffer = ⟨1, [49, 58, 97]⟩ ∧ Local [108, 49, 58, 97, 101] .default v := by
  refine ⟨_, .bytes [97] ⟨1, [49, 58, 97]⟩, rfl, ?nested, rfl, (decode_local (by decide) rfl).1 _ ?nested⟩
  exact .child .root (.head _)

end BencodeLocal
