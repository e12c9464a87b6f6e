import Bittorrent.Bencode.Form

/-!
The decoder reads the accepted forms: where one stands it returns the reference of that form.
-/
namespace BencodeReading
open Rust Outcome BencodeValue BencodeLexeme BencodeUnfold BencodeForm SortedMap List

variable {bytes : Bytes} {opts : BDecodeOpt} {pos next depth : Nat}

def Reads (bytes : Bytes) (opts : BDecodeOpt) (f : Form) : Prop :=
  ∀ depth pos, Accepted opts depth f → depth ≤ pos → StandsAt bytes pos f.print →
    decodeFrom bytes opts pos depth = .ok (f.refAt pos, pos + f.print.length)

theorem form_slice {f : Form} (build : SubSlice → BencodeRef) (stands : StandsAt bytes pos f.print)
    (reached : next = pos + f.print.length) :
    (slice bytes pos next >>= fun buffer => .ok (build buffer, next) :
      BencodeParseResult (BencodeRef × Nat)) = .ok (build ⟨pos, f.print⟩, pos + f.print.length) := by
  rw [reached, slice_of_stands stands (form_ne_nil f)]
  rfl

theorem int_stop (n : Numeral) (pos : Nat) :
    pos + 1 + n.text.length + 1 = pos + (Form.int n).print.length := by
  simp only [Form.print, length_cons, length_append, length_nil]
  omega

theorem list_stop (items : List Form) (pos : Nat) :
    pos + 1 + (printItems items).length + 1 = pos + (Form.list items).print.length := by
  simp only [Form.print, length_cons, length_append, length_nil, printItems]
  omega

theorem dict_stop (entries : List (ByteString × Form)) (pos : Nat) :
    pos + 1 + (printEntries entries).length + 1 = pos + (Form.dict entries).print.length := by
  simp only [Form.print, length_cons, length_append, length_nil, printEntries]
  omega

theorem entry_stored (done : List (ByteString × Form)) (start : Nat) (key : ByteString) (f : Form) :
    SortedMap.insert key.content (f.refAt (start + (printEntries done).length + key.print.length))
      (ofList (refEntries done start)) =
        ofList (refEntries (done ++ [(key, f)]) start) := by
  rw [ref_entries_append, ← of_list_snoc]
  rfl

section
variable (fits : bytes.length ≤ isizeMax)
include fits

theorem list_passes (items : List Form) (each : ∀ f ∈ items, Reads bytes opts f)
    (accepted : ∀ f ∈ items, Accepted opts (depth + 1) f) :
    ∀ pos acc, depth < pos → StandsAt bytes pos (printItems items) →
      decodeListFrom bytes opts pos depth acc =
        decodeListFrom bytes opts (pos + (printItems items).length) depth
          (acc ++ refItems items pos) := by
  induction items with
  | nil =>
    intro pos acc _ _
    simp [printItems, Form.print.printItems, refItems, Form.refAt.refItems]
  | cons f rest ih =>
    intro pos acc low stands
    obtain ⟨first, later⟩ := stands_at_append.mp
      (show StandsAt bytes pos (f.print ++ printItems rest) from stands)
    obtain ⟨c, tail, shape, other⟩ := form_head f
    have here : bytes[pos]? = some c := (stands_at_cons.mp (shape ▸ first)).1
    have read := each f (by simp) (depth + 1) pos (accepted f (by simp)) low first
    have step := ih (forall_mem_cons.mp each).2
      (forall_mem_cons.mp accepted).2
      (pos + f.print.length) (acc ++ [f.refAt pos]) (by omega) later
    rw [decode_list_round fits low here other, read, ok_bind, step]
    simp only [printItems, Form.print.printItems, refItems, Form.refAt.refItems, length_append,
      append_assoc, singleton_append, Nat.add_assoc]

/-- The loop of `decode_dict` passes over entries whose keys it accepts after the ones before. -/
theorem dict_passes (start : Nat)
    (more : List (ByteString × Form)) (each : ∀ e ∈ more, Reads bytes opts e.2)
    (accepted : ∀ e ∈ more, Accepted opts (depth + 1) e.2) :
    ∀ done pos, pos = start + (printEntries done).length → depth < start →
      KeysAccepted opts (keysOf (done ++ more)) → StandsAt bytes pos (printEntries more) →
      decodeDictFrom bytes opts pos depth (ofList (refEntries done start)) =
        decodeDictFrom bytes opts (pos + (printEntries more).length) depth
          (ofList (refEntries (done ++ more) start)) := by
  induction more with
  | nil =>
    intro done pos _ _ _ _
    simp [printEntries, Form.print.printEntries]
  | cons e rest ih =>
    obtain ⟨key, f⟩ := e
    intro done pos reached low keys stands
    obtain ⟨keyStands, afterKey⟩ := stands_at_append.mp
      (show StandsAt bytes pos (key.print ++ (f.print ++ printEntries rest)) from stands)
    obtain ⟨valueStands, later⟩ := stands_at_append.mp afterKey
    obtain ⟨c, tail, shape, other⟩ := string_head key
    have here : bytes[pos]? = some c := (stands_at_cons.mp (shape ▸ keyStands)).1
    have split : done ++ (key, f) :: rest = (done ++ [(key, f)]) ++ rest := by simp
    have front : KeysAccepted opts (keysOf done ++ [key.content]) := by
      rw [split] at keys
      simp only [keysOf, map_append, map_cons, map_nil] at keys ⊢
      exact ⟨(nodup_append.mp keys.1).1,
        fun check => (pairwise_append.mp (keys.2 check)).1⟩
    have checks := key_checks.mpr (by
      rw [ref_entries_keys done start]
      exact (keys_accepted_snoc.mp front).2)
    have read := each (key, f) (by simp) (depth + 1) (pos + key.print.length)
      (accepted (key, f) (by simp)) (by omega) valueStands
    have stored := entry_stored done start key f
    rw [← reached] at stored
    have step := ih (forall_mem_cons.mp each).2
      (forall_mem_cons.mp accepted).2
      (done ++ [(key, f)]) (pos + key.print.length + f.print.length) (by
        rw [print_entries_append, length_append, reached]
        simp [printEntries, Form.print.printEntries, Nat.add_assoc]) low (split ▸ keys) later
    rw [decode_dict_round fits (by omega) here other, decode_bytes_string fits key keyStands,
      ok_bind, if_neg checks.1]
    simp only [read, unwrap_ok, ok_bind, checks.2, stored, step, split]
    simp only [printEntries, Form.print.printEntries, length_append, Nat.add_assoc]

theorem decode_reads (f : Form) : Reads bytes opts f := by
  induction f using Form.induct with
  | int n =>
    intro depth pos accepted low stands
    have cut := form_slice (.int n.value) stands (int_stop n pos)
    rw [Form.print] at stands
    obtain ⟨here, number⟩ := stands_at_cons.mp stands
    rw [decode_from_eq fits (accepted_shallow accepted) here, if_pos rfl,
      decode_int_numeral fits ben_end_separator n number, ok_bind, Form.refAt]
    exact cut
  | bytes s =>
    intro depth pos accepted low stands
    have cut := form_slice (.bytes s.content) stands rfl
    rw [Form.print] at stands
    obtain ⟨c, rest, shape, _⟩ := string_head s
    have here : bytes[pos]? = some c := (stands_at_cons.mp (shape ▸ stands)).1
    cases accepted with
    | bytes shallow _ digit =>
      obtain ⟨d, first, low, high⟩ := digit
      have same : d = c := by
        obtain ⟨c', rest', text, _⟩ := numeral_head s.len
        simp only [ByteString.print, text, cons_append, List.cons.injEq] at shape
        simp only [text, List.head?_cons, Option.some.injEq] at first
        exact first.symm.trans shape.1
      subst same
      have notInt : d ≠ intStart := fun h => absurd high (by rw [h]; decide)
      have notList : d ≠ listStart := fun h => absurd high (by rw [h]; decide)
      have notDict : d ≠ dictStart := fun h => absurd high (by rw [h]; decide)
      rw [decode_from_eq fits shallow here, if_neg notInt, if_neg notList, if_neg notDict,
        if_pos ⟨low, high⟩, decode_bytes_string fits s stands, ok_bind, Form.refAt]
      rw [Form.print] at cut ⊢
      exact cut
  | list items ih =>
    intro depth pos accepted low stands
    have cut := form_slice (.list (refItems items (pos + 1))) stands (list_stop items pos)
    rw [Form.print] at stands
    obtain ⟨here, body⟩ := stands_at_cons.mp stands
    obtain ⟨inner, final⟩ := stands_at_append.mp body
    cases accepted with
    | list shallow _ all =>
      rw [decode_from_eq fits shallow here, if_neg (by decide), if_pos rfl,
        list_passes fits items ih all (pos + 1) [] (by omega) inner, nil_append,
        decode_list_done fits (stands_at_singleton.mp final), ok_bind, Form.refAt]
      exact cut
  | dict entries ih =>
    intro depth pos accepted low stands
    have cut := form_slice (.dict (ofList (refEntries entries (pos + 1)))) stands
      (dict_stop entries pos)
    rw [Form.print] at stands
    obtain ⟨here, body⟩ := stands_at_cons.mp stands
    obtain ⟨inner, final⟩ := stands_at_append.mp body
    cases accepted with
    | dict shallow _ keys all =>
      have passed : decodeDictFrom bytes opts (pos + 1) depth [] = _ :=
        dict_passes fits (pos + 1) entries ih all [] (pos + 1) rfl (by omega) keys inner
      rw [nil_append] at passed
      rw [decode_from_eq fits shallow here, if_neg (by decide), if_neg (by decide), if_pos rfl,
        passed, decode_dict_done fits (stands_at_singleton.mp final), ok_bind, Form.refAt]
      exact cut

end

end BencodeReading
