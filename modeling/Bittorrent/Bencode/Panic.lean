import Bittorrent.Bencode.Reading

/-!
What the decoder does with any input. Whatever it returns is the reference of an accepted form that
stands there. No slice, no `split_at` and no addition can fail on an input that fits in memory. What
can fail is the `unwrap` in `decode_dict`, and it does for every dictionary value the decoder comes
to and cannot read.
-/
namespace BencodePanic
open Rust Outcome BencodeValue BencodeDecode BencodeLexeme BencodeUnfold BencodeForm BencodeReading
  SortedMap List

/-- A value that the grammar of the decoder accepts stands at this position. -/
def Readable (bytes : Bytes) (opts : BDecodeOpt) (pos depth : Nat) : Prop :=
  ∃ f, Accepted opts depth f ∧ StandsAt bytes pos f.print

/-- The positions at which a value is due, reached through complete earlier siblings. The flag
    says that the value belongs to a dictionary entry. -/
inductive Visits (bytes : Bytes) (opts : BDecodeOpt) : Nat → Nat → Bool → Prop where
  | root : Visits bytes opts 0 0 false
  | item {pos depth : Nat} {flag : Bool} {c : UInt8} (outer : Visits bytes opts pos depth flag)
      (shallow : depth < opts.maxRecursion) (here : bytes[pos]? = some listStart)
      (items : List Form) (all : ∀ f ∈ items, Accepted opts (depth + 1) f)
      (stands : StandsAt bytes (pos + 1) (printItems items))
      (due : bytes[pos + 1 + (printItems items).length]? = some c) (more : c ≠ benEnd) :
      Visits bytes opts (pos + 1 + (printItems items).length) (depth + 1) false
  | value {pos depth : Nat} {flag : Bool} (outer : Visits bytes opts pos depth flag)
      (shallow : depth < opts.maxRecursion) (here : bytes[pos]? = some dictStart)
      (entries : List (ByteString × Form)) (all : ∀ e ∈ entries, Accepted opts (depth + 1) e.2)
      (keys : KeysAccepted opts (keysOf entries)) (key : ByteString)
      (follows : KeyMayFollow opts (keysOf entries) key.content)
      (stands : StandsAt bytes (pos + 1) (printEntries entries ++ key.print)) :
      Visits bytes opts (pos + 1 + (printEntries entries).length + key.print.length) (depth + 1)
        true

variable {bytes : Bytes} {opts : BDecodeOpt} {pos depth : Nat}

/-- Each level of nesting has consumed a byte. -/
theorem visits_low {flag : Bool} (visits : Visits bytes opts pos depth flag) : depth ≤ pos := by
  induction visits with
  | root => exact le_refl _
  | item => omega
  | value => omega

/-- Some dictionary value that the decoder comes to cannot be read. -/
def BadValue (bytes : Bytes) (opts : BDecodeOpt) : Prop :=
  ∃ pos depth, Visits bytes opts pos depth true ∧ ¬ Readable bytes opts pos depth

/-- What comes out at a position: a value is an accepted form that stands there, and a panic at a
    visited position has its cause in a bad value. -/
structure Explained (bytes : Bytes) (opts : BDecodeOpt) (pos depth : Nat)
    (o : BencodeParseResult (BencodeRef × Nat)) : Prop where
  read : ∀ r next, o = .ok (r, next) → ∃ f, Accepted opts depth f ∧ StandsAt bytes pos f.print ∧
    r = f.refAt pos ∧ next = pos + f.print.length
  blamed : ∀ flag, Visits bytes opts pos depth flag → o = .panic → BadValue bytes opts

def Explains (bytes : Bytes) (opts : BDecodeOpt) (pos : Nat) : Prop :=
  ∀ depth, depth ≤ pos → Explained bytes opts pos depth (decodeFrom bytes opts pos depth)

/-- Every branch cuts the slice of the form it has read. -/
theorem explained_cut {β : Type} {m : BencodeParseResult (β × Nat)} (build : β → SubSlice → BencodeRef)
    (blamed : ∀ flag, Visits bytes opts pos depth flag → m = .panic → BadValue bytes opts)
    (read : ∀ a next, m = .ok (a, next) → ∃ f, Accepted opts depth f ∧ StandsAt bytes pos f.print ∧
      next = pos + f.print.length ∧ build a ⟨pos, f.print⟩ = f.refAt pos) :
    Explained bytes opts pos depth (m >>= fun r =>
      slice bytes pos r.2 >>= fun buffer => .ok (build r.1 buffer, r.2)) := by
  cases ended : m with
  | err e | unfinished => exact ⟨by simp, by simp⟩
  | panic => exact ⟨by simp, fun flag outer _ => blamed flag outer ended⟩
  | ok r =>
    obtain ⟨f, accepted, stands, reached, built⟩ := read r.1 r.2 ended
    rw [ok_bind, form_slice (build r.1) stands reached, built]
    refine ⟨?_, by simp⟩
    rintro _ _ ⟨⟩
    exact ⟨f, accepted, stands, rfl, rfl⟩

/-- What comes out of the loop of `decode_list` for the list at `pos`. -/
structure ListExplained (bytes : Bytes) (opts : BDecodeOpt) (pos depth : Nat)
    (o : BencodeParseResult (List BencodeRef × Nat)) : Prop where
  read : ∀ l next, o = .ok (l, next) → ∃ items, (∀ f ∈ items, Accepted opts (depth + 1) f) ∧
    StandsAt bytes (pos + 1) (printItems items ++ [benEnd]) ∧ l = refItems items (pos + 1) ∧
    next = pos + 1 + (printItems items).length + 1
  blamed : ∀ flag, Visits bytes opts pos depth flag → o = .panic → BadValue bytes opts

/-- The loop goes on behind the items it has read. -/
theorem list_explained (fits : bytes.length ≤ isizeMax) (low : depth ≤ pos)
    (shallow : depth < opts.maxRecursion) (isList : bytes[pos]? = some listStart)
    (values : ∀ p, pos < p → Explains bytes opts p) (items : List Form)
    (all : ∀ f ∈ items, Accepted opts (depth + 1) f) (stands : StandsAt bytes (pos + 1) (printItems items)) :
    ListExplained bytes opts pos depth
      (decodeListFrom bytes opts (pos + 1 + (printItems items).length) depth (refItems items (pos + 1))) := by
  cases here : bytes[pos + 1 + (printItems items).length]? with
  | none =>
    rw [decode_list_empty here]
    exact ⟨by simp, by simp⟩
  | some c =>
    by_cases final : c = benEnd
    · subst final
      rw [decode_list_done fits here]
      refine ⟨?_, by simp⟩
      rintro _ _ ⟨⟩
      exact ⟨items, all, stands_at_append.mpr ⟨stands, stands_at_singleton.mpr here⟩, rfl, rfl⟩
    · rw [decode_list_round fits (by omega) here final]
      have item := values (pos + 1 + (printItems items).length) (by omega) (depth + 1) (by omega)
      cases decoded : decodeFrom bytes opts (pos + 1 + (printItems items).length) (depth + 1) with
      | ok result =>
        obtain ⟨r, next⟩ := result
        obtain ⟨f, accepted, after, rfl, rfl⟩ := item.read r next decoded
        have ahead := decode_from_progress fits decoded
        have longer : printItems (items ++ [f]) = printItems items ++ f.print := by
          rw [print_items_append]
          simp [printItems, Form.print.printItems]
        have rest := list_explained fits low shallow isList values (items ++ [f])
          (forall_mem_append.mpr ⟨all, forall_mem_singleton.mpr accepted⟩)
          (by rw [longer]; exact stands_at_append.mpr ⟨stands, after⟩)
        rw [longer, length_append, ← Nat.add_assoc, ref_items_snoc] at rest
        exact rest
      | err e => exact ⟨by simp, by simp⟩
      | panic =>
        refine ⟨by simp, fun flag outer _ => item.blamed false ?_ decoded⟩
        exact .item outer shallow isList items all stands here final
      | unfinished => exact ⟨by simp, by simp⟩
termination_by bytes.length - (printItems items).length
decreasing_by
  rw [longer, length_append]
  omega

/-- What comes out of the loop of `decode_dict` for the dictionary at `pos`. -/
structure DictExplained (bytes : Bytes) (opts : BDecodeOpt) (pos depth : Nat)
    (o : BencodeParseResult (List (Bytes × BencodeRef) × Nat)) : Prop where
  read : ∀ d next, o = .ok (d, next) → ∃ entries, (∀ e ∈ entries, Accepted opts (depth + 1) e.2) ∧
    KeysAccepted opts (keysOf entries) ∧ StandsAt bytes (pos + 1) (printEntries entries ++ [benEnd]) ∧
    d = ofList (refEntries entries (pos + 1)) ∧ next = pos + 1 + (printEntries entries).length + 1
  blamed : ∀ flag, Visits bytes opts pos depth flag → o = .panic → BadValue bytes opts

theorem dict_explained (fits : bytes.length ≤ isizeMax) (low : depth ≤ pos)
    (shallow : depth < opts.maxRecursion) (isDict : bytes[pos]? = some dictStart)
    (values : ∀ p, pos < p → Explains bytes opts p) (entries : List (ByteString × Form))
    (all : ∀ e ∈ entries, Accepted opts (depth + 1) e.2) (keys : KeysAccepted opts (keysOf entries))
    (stands : StandsAt bytes (pos + 1) (printEntries entries)) :
    DictExplained bytes opts pos depth (decodeDictFrom bytes opts (pos + 1 + (printEntries entries).length)
      depth (ofList (refEntries entries (pos + 1)))) := by
  cases here : bytes[pos + 1 + (printEntries entries).length]? with
  | none =>
    rw [decode_dict_empty here]
    exact ⟨by simp, by simp⟩
  | some c =>
    have inside := byte_inside here
    by_cases final : c = benEnd
    · subst final
      rw [decode_dict_done fits here]
      refine ⟨?_, by simp⟩
      rintro _ _ ⟨⟩
      exact ⟨entries, all, keys, stands_at_append.mpr ⟨stands, stands_at_singleton.mpr here⟩, rfl, rfl⟩
    · rw [decode_dict_round fits (by omega) here final]
      cases string : decodeBytes bytes (pos + 1 + (printEntries entries).length) with
      | err e | unfinished => exact ⟨by simp, by simp⟩
      | panic => exact absurd string (decode_bytes_no_panic fits (by omega))
      | ok result =>
        obtain ⟨content, valuePos⟩ := result
        obtain ⟨key, rfl, keyStands, rfl⟩ := decode_bytes_ok fits string
        rw [ok_bind]
        split
        · exact ⟨by simp, by simp⟩
        rename_i inOrder
        have follows := key_may_follow_iff.mp inOrder
        rw [ref_entries_keys] at follows
        have due : ∀ flag, Visits bytes opts pos depth flag → Visits bytes opts
            (pos + 1 + (printEntries entries).length + key.print.length) (depth + 1) true := fun _ outer =>
          .value outer shallow isDict entries all keys key follows (stands_at_append.mpr ⟨stands, keyStands⟩)
        have value := values (pos + 1 + (printEntries entries).length + key.print.length) (by omega)
          (depth + 1) (by omega)
        cases decoded : decodeFrom bytes opts
            (pos + 1 + (printEntries entries).length + key.print.length) (depth + 1) with
        | ok result =>
          obtain ⟨r, next⟩ := result
          obtain ⟨f, accepted, after, rfl, rfl⟩ := value.read r next decoded
          have ahead := decode_from_progress fits decoded
          rw [unwrap_ok, ok_bind]
          split
          · exact ⟨by simp, by simp⟩
          rename_i fresh
          have checks := key_checks.mp ⟨inOrder, fresh⟩
          rw [ref_entries_keys] at checks
          have longer : printEntries (entries ++ [(key, f)]) = printEntries entries ++ (key.print ++ f.print) := by
            rw [print_entries_append]
            simp [printEntries, Form.print.printEntries]
          have rest := dict_explained fits low shallow isDict values (entries ++ [(key, f)])
            (forall_mem_append.mpr ⟨all, forall_mem_singleton.mpr accepted⟩) (by simpa [keysOf] using keys_accepted_snoc.mpr ⟨keys, checks⟩)
            (by rw [longer]; exact stands_at_append.mpr ⟨stands, stands_at_append.mpr ⟨keyStands, after⟩⟩)
          rw [longer, length_append, length_append, ← Nat.add_assoc, ← Nat.add_assoc,
            ← entry_stored] at rest
          exact rest
        | _ =>
          refine ⟨by simp, fun flag outer _ => ⟨_, _, due flag outer, ?_⟩⟩
          rintro ⟨f, accepted, after⟩
          rw [decode_reads fits f _ _ accepted (by omega) after] at decoded
          cases decoded
termination_by bytes.length - (printEntries entries).length
decreasing_by
  rw [longer, length_append, length_append]
  omega

/-- A container has consumed its first byte before its loop starts. -/
theorem decode_explained (fits : bytes.length ≤ isizeMax) (pos : Nat) : Explains bytes opts pos := by
  intro depth low
  by_cases deep : opts.maxRecursion ≤ depth
  · rw [decode_from_deep deep]
    exact ⟨by simp, by simp⟩
  have shallow : depth < opts.maxRecursion := by omega
  cases here : bytes[pos]? with
  | none =>
    rw [decode_from_end shallow here]
    exact ⟨by simp, by simp⟩
  | some c =>
    have inside := byte_inside here
    have values : ∀ p, pos < p → Explains bytes opts p := fun p above => decode_explained fits p
    rw [decode_from_eq fits shallow here]
    split
    · rename_i isInt
      refine explained_cut .int (fun _ _ failed => absurd failed (decode_int_no_panic fits (by omega))) ?_
      intro value next number
      obtain ⟨n, rfl, stands, stop⟩ := decode_int_ok fits number
      refine ⟨_, .int shallow n, ?_, stop.trans (int_stop n pos), by rw [Form.refAt]⟩
      rw [Form.print]
      exact stands_at_cons.mpr ⟨isInt ▸ here, stands⟩
    split
    · rename_i isList
      have loop := list_explained fits low shallow (isList ▸ here) values [] (by simp) (stands_at_nil _ _)
      refine explained_cut .list loop.blamed ?_
      intro l next decoded
      obtain ⟨items, all, stands, rfl, stop⟩ := loop.read _ _ decoded
      refine ⟨_, .list shallow items all, ?_, stop.trans (list_stop items pos), by rw [Form.refAt]⟩
      rw [Form.print]
      exact stands_at_cons.mpr ⟨isList ▸ here, stands⟩
    split
    · rename_i isDict
      have loop := dict_explained fits low shallow (isDict ▸ here) values [] (by simp)
        ⟨nodup_nil, fun _ => .nil⟩ (stands_at_nil _ _)
      refine explained_cut .dict loop.blamed ?_
      intro d next decoded
      obtain ⟨entries, all, keys, stands, rfl, stop⟩ := loop.read _ _ decoded
      refine ⟨_, .dict shallow entries keys all, ?_, stop.trans (dict_stop entries pos), by rw [Form.refAt]⟩
      rw [Form.print]
      exact stands_at_cons.mpr ⟨isDict ▸ here, stands⟩
    split
    · rename_i digit
      refine explained_cut .bytes (fun _ _ failed => absurd failed (decode_bytes_no_panic fits (by omega))) ?_
      intro content next string
      obtain ⟨s, rfl, stands, stop⟩ := decode_bytes_ok fits string
      have print : (Form.bytes s).print = s.print := by rw [Form.print]
      refine ⟨_, .bytes shallow s ?_, print ▸ stands, print ▸ stop, by rw [Form.refAt]⟩
      obtain ⟨c', rest, text, _⟩ := numeral_head s.len
      have first : bytes[pos]? = some c' := by
        rw [ByteString.print, text, cons_append] at stands
        exact (stands_at_cons.mp stands).1
      rw [here] at first
      exact ⟨c, by rw [text, List.head?_cons, ← first], digit⟩
    · exact ⟨by simp, by simp⟩
termination_by bytes.length - pos
decreasing_by omega

theorem decode_reads_back (fits : bytes.length ≤ isizeMax) (low : depth ≤ pos) {r : BencodeRef} {next : Nat}
    (decoded : decodeFrom bytes opts pos depth = .ok (r, next)) :
    ∃ f, Accepted opts depth f ∧ StandsAt bytes pos f.print ∧ r = f.refAt pos ∧
      next = pos + f.print.length :=
  (decode_explained fits pos depth low).read r next decoded

/-- A panic at a visited position reaches the top, and at a dictionary value any failure is a
    panic of the dictionary around it. -/
theorem visits_panic (fits : bytes.length ≤ isizeMax) {flag : Bool}
    (visits : Visits bytes opts pos depth flag) :
    (decodeFrom bytes opts pos depth = .panic → decodeFrom bytes opts 0 0 = .panic) ∧
    (flag = true → (∀ r, decodeFrom bytes opts pos depth ≠ .ok r) →
      decodeFrom bytes opts 0 0 = .panic) := by
  induction visits with
  | root => exact ⟨fun panics => panics, by simp⟩
  | @item pos depth flag c outer shallow here items all stands due more ih =>
    have low := visits_low outer
    refine ⟨fun panics => ih.1 ?_, by simp⟩
    rw [decode_from_eq fits shallow here, if_neg (by decide), if_pos rfl,
      list_passes fits items (fun f _ => decode_reads fits f) all (pos + 1) [] (by omega) stands,
      decode_list_round fits (by omega) due more, panics]
    rfl
  | @value pos depth flag outer shallow here entries all keys key follows stands ih =>
    have low := visits_low outer
    obtain ⟨before, keyStands⟩ := stands_at_append.mp stands
    obtain ⟨c, rest, shape, other⟩ := string_head key
    have due : bytes[pos + 1 + (printEntries entries).length]? = some c :=
      (stands_at_cons.mp (shape ▸ keyStands)).1
    have passed := dict_passes fits (pos + 1) entries (fun e _ => decode_reads fits e.2) all []
      (pos + 1) rfl (by omega) keys before
    have start : ofList (refEntries [] (pos + 1)) = [] := rfl
    rw [start, nil_append] at passed
    have inOrder : ¬ keyOutOfOrder opts (ofList (refEntries entries (pos + 1)))
        key.content := by
      rw [key_may_follow_iff, ref_entries_keys]
      exact follows
    have fails : (∀ r, decodeFrom bytes opts
          (pos + 1 + (printEntries entries).length + key.print.length) (depth + 1) ≠ .ok r) →
        decodeFrom bytes opts 0 0 = .panic := by
      intro unread
      apply ih.1
      have broken : (decodeFrom bytes opts
          (pos + 1 + (printEntries entries).length + key.print.length) (depth + 1)).unwrap =
            (.panic : BencodeParseResult (BencodeRef × Nat)) :=
        unwrap_eq_panic (decode_from_finished fits) unread
      rw [decode_from_eq fits shallow here, if_neg (by decide), if_neg (by decide), if_pos rfl,
        passed, decode_dict_round fits (by omega) due other,
        decode_bytes_string fits key keyStands, ok_bind, if_neg inOrder, broken]
      rfl
    refine ⟨fun panics => fails ?_, fun _ => fails⟩
    intro r read
    rw [read] at panics
    simp at panics

theorem decode_panic_iff (fits : bytes.length ≤ isizeMax) :
    BencodeRef.decode bytes opts = .panic ↔ BadValue bytes opts := by
  have top : BencodeRef.decode bytes opts = .panic ↔ decodeFrom bytes opts 0 0 = .panic := by
    rw [decode_eq fits, bind_eq_panic]
    constructor
    · rintro (inner | ⟨r, _, tail⟩)
      · exact inner
      · split at tail <;> simp at tail
    · exact .inl
  rw [top]
  constructor
  · exact (decode_explained fits 0 0 (le_refl _)).blamed false .root
  · rintro ⟨pos, depth, visits, unreadable⟩
    apply (visits_panic fits visits).2 rfl
    rintro ⟨r, next⟩ read
    obtain ⟨f, accepted, stands, _⟩ := decode_reads_back fits (visits_low visits) read
    exact unreadable ⟨f, accepted, stands⟩

theorem decode_finished (fits : bytes.length ≤ isizeMax) :
    BencodeRef.decode bytes opts ≠ .unfinished := by
  rw [decode_eq fits]
  refine bind_ne_unfinished (decode_from_finished fits) fun r _ => ?_
  split <;> simp

/-- The decoder returns if and only if every dictionary value it comes to can be read. -/
theorem decode_returns_iff (bytes : Bytes) (opts : BDecodeOpt)
    (fits : bytes.length ≤ isizeMax) :
    ((∃ r, BencodeRef.decode bytes opts = .ok r) ∨ ∃ e, BencodeRef.decode bytes opts = .err e) ↔
      ∀ pos depth, Visits bytes opts pos depth true → Readable bytes opts pos depth := by
  have panics : BencodeRef.decode bytes opts = .panic ↔ BadValue bytes opts :=
    decode_panic_iff fits
  have finished : BencodeRef.decode bytes opts ≠ .unfinished := decode_finished fits
  have fine : (∀ pos depth, Visits bytes opts pos depth true → Readable bytes opts pos depth) ↔
      ¬ BadValue bytes opts := by
    unfold BadValue
    push Not
    rfl
  rw [fine, ← panics]
  cases outcome : BencodeRef.decode bytes opts with
  | ok r => simp
  | err e => simp
  | panic => simp
  | unfinished => exact absurd outcome finished

theorem decode_returns_dict :
    (∃ r, BencodeRef.decode [100, 49, 58, 97, 105, 48, 101, 101] .default = .ok r) ∧
      ∀ pos depth, Visits [100, 49, 58, 97, 105, 48, 101, 101] .default pos depth true →
        Readable [100, 49, 58, 97, 105, 48, 101, 101] .default pos depth :=
  ⟨⟨_, by rfl⟩, (decode_returns_iff [100, 49, 58, 97, 105, 48, 101, 101] .default (by decide)).mp
    (.inl ⟨_, by rfl⟩)⟩

/-- `d1:ae`: a dictionary key without a value. -/
theorem decode_missing_value : BencodeRef.decode [100, 49, 58, 97, 101] .default = .panic := by
  rfl

end BencodePanic
