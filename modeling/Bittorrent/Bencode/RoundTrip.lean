import Bittorrent.Bencode.Encode
import Bittorrent.Bencode.Panic

/-!
What the encoder writes is an accepted form of the value it was given, so the decoder reads the
value back. The bound on the encoding is the one Rust puts on every `Vec<u8>`.
-/
namespace BencodeRoundTrip
open Rust Outcome DecimalText BencodeValue BencodeEncode BencodeDecode BencodeLexeme BencodeUnfold
  BencodeForm BencodeReading BencodePanic SortedMap List

def numeralOf (n : Int64) : Numeral where
  text := printInt n.toInt
  value := n
  read := read_print_int64 n
  unpadded := print_int_unpadded
  noNegativeZero := fun _ => print_int_no_negative_zero n.toInt

theorem length_value {n : Nat} (small : n < 2 ^ 63) : (Int64.ofInt n).toInt = n :=
  Int64.toInt_ofInt_of_le (by omega) (by omega)

def stringOf (content : Bytes) (small : content.length < 2 ^ 63) : ByteString where
  len := numeralOf (Int64.ofInt content.length)
  content := content
  counts := length_value small

theorem string_of_print (content : Bytes) (small : content.length < 2 ^ 63) :
    (stringOf content small).print = encodeBytes content := by
  simp only [ByteString.print, stringOf, numeralOf, length_value small, print_int_natCast,
    encodeBytes]

theorem string_of_digit (content : Bytes) (small : content.length < 2 ^ 63) :
    ∃ c, (stringOf content small).len.text.head? = some c ∧ byteLenLow ≤ c ∧ c ≤ byteLenHigh := by
  have text : (stringOf content small).len.text = printNat content.length := by
    simp only [stringOf, numeralOf, length_value small, print_int_natCast]
  cases shape : printNat content.length with
  | nil => exact absurd shape (print_nat_ne_nil _)
  | cons c rest =>
    refine ⟨c, by rw [text, shape, List.head?_cons], ?_⟩
    have digit := all_eq_true.mp (print_nat_digits content.length) c (by simp [shape])
    simp only [isDigit, decide_eq_true_eq] at digit
    simpa [byteLenLow, byteLenHigh, UInt8.le_iff_toNat_le] using digit

section Canonical
variable {opts : BDecodeOpt}

theorem item_forms {depth : Nat} {items : List Bencode}
    (each : ∀ v ∈ items, ∃ f, Accepted opts depth f ∧ f.print = encode v ∧ f.value = v) :
    ∃ forms : List Form, (∀ f ∈ forms, Accepted opts depth f) ∧
      printItems forms = items.flatMap encode ∧ forms.map Form.value = items := by
  induction items with
  | nil => exact ⟨[], by simp, rfl, rfl⟩
  | cons v rest ih =>
    obtain ⟨f, accepted, print, value⟩ := each v (by simp)
    obtain ⟨forms, all, prints, values⟩ := ih (forall_mem_cons.mp each).2
    refine ⟨f :: forms, forall_mem_cons.mpr ⟨accepted, all⟩, ?_, ?_⟩
    · simp [printItems, Form.print.printItems, print, prints]
    · simp [value, values]

variable {entries : List (Bytes × Bencode)}

theorem entry_forms {depth : Nat}
    (small : ∀ e ∈ entries, e.1.length < 2 ^ 63)
    (each : ∀ e ∈ entries, ∃ f, Accepted opts depth f ∧ f.print = encode e.2 ∧ f.value = e.2) :
    ∃ forms : List (ByteString × Form), (∀ e ∈ forms, Accepted opts depth e.2) ∧
      printEntries forms = entries.flatMap (fun e => encodeBytes e.1 ++ encode e.2) ∧
      (forms.map fun e => (e.1.content, e.2.value)) = entries := by
  induction entries with
  | nil => exact ⟨[], by simp, rfl, rfl⟩
  | cons e rest ih =>
    obtain ⟨key, v⟩ := e
    obtain ⟨f, accepted, print, value⟩ := each (key, v) (by simp)
    obtain ⟨forms, all, prints, values⟩ := ih
      (forall_mem_cons.mp small).2
      (forall_mem_cons.mp each).2
    refine ⟨(stringOf key (small (key, v) (by simp)), f) :: forms,
      forall_mem_cons.mpr ⟨accepted, all⟩, ?_, ?_⟩
    · simp [printEntries, Form.print.printEntries, string_of_print, print, prints]
    · have content : (stringOf key (small (key, v) (by simp))).content = key := rfl
      simp [content, value, values]

theorem encode_list (items : List Bencode) :
    encode (.list items) = listStart :: (items.flatMap encode ++ [benEnd]) := by
  rw [encode, encode_items_eq]

theorem encode_dict (sorted : Sorted entries) :
    encode (.dict entries) =
      dictStart :: (entries.flatMap (fun e => encodeBytes e.1 ++ encode e.2) ++ [benEnd]) := by
  rw [encode, encode_values_eq, encodeDict,
    sort_dict_sorted (map_values_sorted.mpr sorted), mapValues,
    flatMap_map]

theorem length_le_flatMap {α : Type} {f : α → Bytes} {l : List α} {a : α} (member : a ∈ l) :
    (f a).length ≤ (l.flatMap f).length := by
  obtain ⟨front, rest, rfl⟩ := append_of_mem member
  simp only [flatMap_append, flatMap_cons, length_append]
  omega

theorem canonical_form (opts : BDecodeOpt) (v : Bencode) : ∀ depth, DictsSorted v → (encode v).length ≤ isizeMax →
    v.level + depth ≤ opts.maxRecursion →
    ∃ f, Accepted opts depth f ∧ f.print = encode v ∧ f.value = v := by
  induction v using Bencode.induct with
  | int n =>
    intro depth _ _ shallow
    rw [Bencode.level] at shallow
    exact ⟨.int (numeralOf n), .int (by omega) _, by rw [Form.print, encode]; rfl,
      by rw [Form.value]; rfl⟩
  | bytes b =>
    intro depth _ fits shallow
    rw [Bencode.level] at shallow
    have small : b.length < 2 ^ 63 := by
      simp only [encode, encodeBytes, length_append, length_cons, isizeMax] at fits
      omega
    exact ⟨.bytes (stringOf b small), .bytes (by omega) _ (string_of_digit b small),
      by rw [Form.print, string_of_print, encode], by rw [Form.value]; rfl⟩
  | list items ih =>
    intro depth ordered fits shallow
    rw [Bencode.level] at shallow
    rw [encode_list] at fits ⊢
    simp only [length_cons, length_append, length_nil] at fits
    cases ordered with
    | list _ all =>
      have levels := level_list_le.mp (le_refl (Bencode.level.levelList items))
      have each : ∀ v ∈ items,
          ∃ f, Accepted opts (depth + 1) f ∧ f.print = encode v ∧ f.value = v := by
        intro v member
        have room := length_le_flatMap (f := encode) member
        have level := levels v member
        exact ih v member (depth + 1) (all v member) (by omega) (by omega)
      obtain ⟨forms, accepted, prints, values⟩ := item_forms each
      refine ⟨.list forms, .list (by omega) forms accepted, ?_, ?_⟩
      · rw [Form.print, ← prints]
      · rw [Form.value, value_items_eq, values]
  | dict entries ih =>
    intro depth ordered fits shallow
    rw [Bencode.level] at shallow
    cases ordered with
    | dict _ sorted all =>
      rw [encode_dict sorted] at fits ⊢
      simp only [length_cons, length_append, length_nil] at fits
      have levels := level_entries_le.mp (le_refl (Bencode.level.levelEntries entries))
      have room : ∀ e ∈ entries, (encodeBytes e.1).length + (encode e.2).length < isizeMax := by
        intro e member
        have part := length_le_flatMap (f := fun e => encodeBytes e.1 ++ encode e.2) member
        simp only [length_append] at part
        omega
      have small : ∀ e ∈ entries, e.1.length < 2 ^ 63 := by
        intro e member
        have part := room e member
        simp only [encodeBytes, length_append, length_cons, isizeMax] at part
        omega
      have each : ∀ e ∈ entries,
          ∃ f, Accepted opts (depth + 1) f ∧ f.print = encode e.2 ∧ f.value = e.2 := by
        intro e member
        have part := room e member
        have level := levels e member
        exact ih e member (depth + 1) (all e member) (by omega) (by omega)
      obtain ⟨forms, accepted, prints, values⟩ := entry_forms small each
      have keys : keysOf forms = entries.map Prod.fst := by
        rw [← values, map_map]
        rfl
      have increasing : (keysOf forms).Pairwise (· < ·) := by
        rw [keys]
        exact pairwise_map.mpr sorted
      refine ⟨.dict forms, .dict (by omega) forms ⟨?_, fun _ => increasing⟩ accepted, ?_, ?_⟩
      · exact increasing.imp fun less => ne_of_lt less
      · rw [Form.print, ← prints]
      · rw [Form.value, value_entries_eq, values, of_list_of_sorted sorted]

end Canonical

variable {opts : BDecodeOpt}

variable {r : BencodeRef} {bytes : Bytes}

/-- Without `enforce_full_decode` whatever stands behind a form is left alone. -/
theorem decode_begins {f : Form} (fits : bytes.length ≤ isizeMax) (accepted : Accepted opts 0 f)
    (begins : f.print <+: bytes) (whole : opts.enforceFullDecode = true → f.print = bytes) :
    BencodeRef.decode bytes opts = .ok (f.refAt 0) := by
  obtain ⟨rest, rfl⟩ := begins
  have read := decode_reads fits f 0 0 accepted (le_refl _) ⟨rest, rfl⟩
  rw [decode_eq fits, read, ok_bind, if_neg]
  rintro ⟨more, full⟩
  exact more (by rw [Nat.zero_add, ← whole full])

theorem decode_form {f : Form} (fits : f.print.length ≤ isizeMax) (accepted : Accepted opts 0 f) :
    BencodeRef.decode f.print opts = .ok (f.refAt 0) :=
  decode_begins fits accepted prefix_rfl fun _ => rfl

theorem encoded_form {v : Bencode} (sorted : DictsSorted v) (fits : (encode v).length ≤ isizeMax)
    (shallow : v.level ≤ opts.maxRecursion) :
    ∃ f, Accepted opts 0 f ∧ f.print = encode v ∧ (f.refAt 0).kind = v ∧
      (f.refAt 0).buffer = ⟨0, encode v⟩ := by
  obtain ⟨f, accepted, print, value⟩ := canonical_form opts v 0 sorted fits (by omega)
  exact ⟨f, accepted, print, by rw [kind_ref_at, value], by rw [buffer_ref_at, print]⟩

theorem decode_encode {v : Bencode} (sorted : DictsSorted v) (fits : (encode v).length ≤ isizeMax)
    (shallow : v.level ≤ opts.maxRecursion) :
    ∃ r, BencodeRef.decode (encode v) opts = .ok r ∧ r.kind = v ∧
      r.buffer = ⟨0, encode v⟩ := by
  obtain ⟨f, accepted, print, same⟩ := encoded_form sorted fits shallow
  rw [← print] at fits same ⊢
  exact ⟨_, decode_form fits accepted, same⟩

theorem decode_encode_front {v : Bencode} (rest : Bytes) (open_ : opts.enforceFullDecode = false)
    (sorted : DictsSorted v) (fits : (encode v ++ rest).length ≤ isizeMax)
    (shallow : v.level ≤ opts.maxRecursion) :
    ∃ r, BencodeRef.decode (encode v ++ rest) opts = .ok r ∧ r.kind = v ∧
      r.buffer = ⟨0, encode v⟩ := by
  have part : (encode v).length ≤ isizeMax := by
    rw [length_append] at fits
    omega
  obtain ⟨f, accepted, print, same⟩ := encoded_form sorted part shallow
  rw [← print] at fits same ⊢
  exact ⟨_, decode_begins fits accepted (prefix_append _ _) (by simp [open_]), same⟩

/-- What was decoded is a form at the front of the bytes, and all of them with `enforce_full_decode`. -/
theorem decode_front (fits : bytes.length ≤ isizeMax)
    (decoded : BencodeRef.decode bytes opts = .ok r) :
    ∃ f, Accepted opts 0 f ∧ f.print <+: bytes ∧ r = f.refAt 0 ∧
      (opts.enforceFullDecode = true → f.print = bytes) := by
  rw [decode_eq fits] at decoded
  obtain ⟨⟨value, stop⟩, read, ended⟩ := bind_eq_ok.mp decoded
  obtain ⟨f, accepted, stands, rfl, rfl⟩ := decode_reads_back fits (le_refl _) read
  split at ended
  · cases ended
  · rename_i complete
    cases ended
    refine ⟨f, accepted, ⟨stands.choose, stands.choose_spec.symm⟩, rfl, fun full => ?_⟩
    have length : f.print.length = bytes.length := by
      by_contra shorter
      exact complete ⟨by omega, full⟩
    exact stands_at_unique stands (stands_at_whole bytes) length

theorem decode_inside (fits : bytes.length ≤ isizeMax)
    (decoded : BencodeRef.decode bytes opts = .ok r) :
    r.buffer.bytes.length ≤ bytes.length := by
  obtain ⟨f, _, begins, rfl, _⟩ := decode_front fits decoded
  rw [buffer_ref_at]
  exact begins.length_le

theorem decode_extend {front : Bytes} (open_ : opts.enforceFullDecode = false)
    (fits : bytes.length ≤ isizeMax) (begins : front <+: bytes)
    (decoded : BencodeRef.decode front opts = .ok r) :
    BencodeRef.decode bytes opts = .ok r := by
  obtain ⟨f, accepted, inside, rfl, _⟩ := decode_front (le_trans begins.length_le fits) decoded
  exact decode_begins fits accepted (inside.trans begins) (by simp [open_])

/-- Whatever the two flags are, a tree of at most `max_recursion` levels comes back whole. -/
theorem decode_encode_mut (v : BencodeMut) (opts : BDecodeOpt)
    (fits : (encodeMut v).length ≤ isizeMax) (shallow : v.value.level ≤ opts.maxRecursion) :
    ∃ r, BencodeRef.decode (encodeMut v) opts = .ok r ∧ r.kind = v.value ∧
      r.buffer = ⟨0, encodeMut v⟩ :=
  decode_encode v.sorted fits shallow

theorem decode_encode_mut_dict :
    let v : BencodeMut := ⟨.dict [([97], .list [.int (-7), .bytes [101, 58]])],
      .dict _ (by decide) (by
        intro e member
        rw [mem_singleton.mp member]
        exact .list _ (forall_mem_cons.mpr ⟨.int _, forall_mem_singleton.mpr (.bytes _)⟩))⟩
    ∃ r, BencodeRef.decode (encodeMut v) ⟨3, true, true⟩ = .ok r ∧ r.kind = v.value ∧
      r.buffer = ⟨0, encodeMut v⟩ :=
  decode_encode_mut _ ⟨3, true, true⟩ (by decide) (by decide)

end BencodeRoundTrip
