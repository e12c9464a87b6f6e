import Bittorrent.Bencode.RoundTrip

/-!
Which accepted inputs are the canonical encoding of their value. The decoder rejects padding,
negative zero and unsorted keys, but `i64::from_str_radix` takes a leading plus sign, so an
integer or the length of a dictionary key can be spelled in more than one way.
-/
namespace BencodeCanonical
open Rust DecimalText BencodeValue BencodeEncode BencodeDecode BencodeLexeme BencodeForm
  BencodeRoundTrip SortedMap List

def plusFreeNumeral (n : Numeral) : Bool := decide (n.text.head? ≠ some plus)

def plusFree : Form → Bool
  | .int n => plusFreeNumeral n
  | .bytes s => plusFreeNumeral s.len
  | .list items => itemsFree items
  | .dict entries => entriesFree entries
where
  itemsFree : List Form → Bool
    | [] => true
    | f :: rest => plusFree f && itemsFree rest
  entriesFree : List (ByteString × Form) → Bool
    | [] => true
    | (key, f) :: rest => plusFreeNumeral key.len && (plusFree f && entriesFree rest)

/-- `written` repeats `spelled` byte for byte, or it is shorter because of a plus sign. -/
def Respelled (free : Bool) (written spelled : Bytes) : Prop :=
  if free then written = spelled else written.length < spelled.length

theorem respelled_append {free free' : Bool} {w w' s s' : Bytes}
    (first : Respelled free w s) (second : Respelled free' w' s') :
    Respelled (free && free') (w ++ w') (s ++ s') := by
  unfold Respelled at *
  cases free with
  | true =>
    cases free' with
    | true => simp_all
    | false => simp_all
  | false =>
    cases free' with
    | true => simp_all
    | false =>
      simp only [Bool.false_eq_true, ↓reduceIte, Bool.and_self, length_append] at *
      omega

theorem respelled_same (s : Bytes) : Respelled true s s := by simp [Respelled]

theorem respelled_wrap {free : Bool} {w s : Bytes} (c d : UInt8) (inner : Respelled free w s) :
    Respelled free (c :: (w ++ [d])) (c :: (s ++ [d])) := by
  have front := respelled_append (respelled_same [c]) (respelled_append inner (respelled_same [d]))
  simpa using front

theorem numeral_respelled (n : Numeral) :
    Respelled (plusFreeNumeral n) (printInt n.value.toInt) n.text := by
  unfold Respelled plusFreeNumeral
  by_cases sign : n.text.head? = some plus
  · obtain ⟨rest, shape⟩ : ∃ rest, n.text = plus :: rest := by
      cases text : n.text with
      | nil => simp [text] at sign
      | cons c rest =>
        rw [text, List.head?_cons, Option.some.injEq] at sign
        exact ⟨rest, by rw [sign]⟩
    have read := numeral_value n
    rw [shape] at read ⊢
    simpa using print_int_length_lt read
  · simpa [sign] using print_read_int (numeral_value n) n.unpadded n.noNegativeZero sign

theorem string_respelled (s : ByteString) :
    Respelled (plusFreeNumeral s.len) (encodeBytes s.content) s.print := by
  have number := numeral_respelled s.len
  rw [s.counts, print_int_natCast] at number
  have whole := respelled_append number (respelled_same (byteLenEnd :: s.content))
  simpa [encodeBytes, ByteString.print] using whole

theorem form_respelled {opts : BDecodeOpt} (check : opts.checkKeySort = true) (f : Form) :
    ∀ depth, Accepted opts depth f → Respelled (plusFree f) (encode f.value) f.print := by
  induction f using Form.induct with
  | int n =>
    intro depth _
    have inner := respelled_wrap intStart benEnd (numeral_respelled n)
    simpa [plusFree, Form.value, Form.print, encode, encodeInt] using inner
  | bytes s =>
    intro depth _
    simpa [plusFree, Form.value, Form.print, encode] using string_respelled s
  | list items ih =>
    intro depth accepted
    cases accepted with
    | list _ _ all =>
      have inner : Respelled (plusFree.itemsFree items) ((items.map Form.value).flatMap encode)
          (printItems items) := by
        clear * - ih all
        induction items with
        | nil => exact respelled_same []
        | cons f rest later =>
          have head := ih f (by simp) (depth + 1) (all f (by simp))
          have tail := later (forall_mem_cons.mp ih).2
            (forall_mem_cons.mp all).2
          simpa [plusFree.itemsFree, printItems, Form.print.printItems] using
            respelled_append head tail
      rw [Form.value, value_items_eq, encode_list, Form.print, plusFree]
      exact respelled_wrap listStart benEnd inner
  | dict entries ih =>
    intro depth accepted
    cases accepted with
    | dict _ _ keys all =>
      have inner : Respelled (plusFree.entriesFree entries)
          ((entries.map fun e => (e.1.content, e.2.value)).flatMap
            fun e => encodeBytes e.1 ++ encode e.2) (printEntries entries) := by
        clear * - ih all
        induction entries with
        | nil => exact respelled_same []
        | cons e rest later =>
          obtain ⟨key, f⟩ := e
          have head := ih (key, f) (by simp) (depth + 1) (all (key, f) (by simp))
          have tail := later (forall_mem_cons.mp ih).2
            (forall_mem_cons.mp all).2
          simpa [plusFree.entriesFree, printEntries, Form.print.printEntries] using
            respelled_append (string_respelled key) (respelled_append head tail)
      have sorted : Sorted (entries.map fun e => (e.1.content, e.2.value)) := by
        exact pairwise_map.mpr (pairwise_map.mp (keys.2 check))
      rw [Form.value, value_entries_eq, of_list_of_sorted sorted, encode_dict sorted,
        Form.print, plusFree]
      exact respelled_wrap dictStart benEnd inner

/-- The input is an accepted form in which some number is spelled with a plus sign. -/
def PlusSigned (opts : BDecodeOpt) (b : Bytes) : Prop :=
  ∃ f, Accepted opts 0 f ∧ f.print = b ∧ plusFree f = false

section FullDecode
variable {opts : BDecodeOpt} {b : Bytes} {r : BencodeRef}

/-- With `enforce_full_decode` the input is one accepted form, and it is the only one. -/
theorem decode_full (full : opts.enforceFullDecode = true) (fits : b.length ≤ isizeMax)
    (decoded : BencodeRef.decode b opts = .ok r) :
    ∃ f, Accepted opts 0 f ∧ f.print = b ∧ r = f.refAt 0 := by
  obtain ⟨f, accepted, _, rfl, whole⟩ := decode_front fits decoded
  exact ⟨f, accepted, whole full, rfl⟩

theorem accepted_level (f : Form) : ∀ depth, Accepted opts depth f →
    f.value.level + depth ≤ opts.maxRecursion := by
  induction f using Form.induct with
  | int n | bytes s =>
    intro depth accepted
    have shallow := accepted_shallow accepted
    rw [Form.value, Bencode.level]
    omega
  | list items ih =>
    intro depth accepted
    have shallow := accepted_shallow accepted
    cases accepted with
    | list _ _ all =>
      have inner : Bencode.level.levelList (Form.value.valueItems items) ≤
          opts.maxRecursion - depth - 1 := by
        rw [level_list_le, value_items_eq]
        intro v member
        obtain ⟨f, inside, rfl⟩ := mem_map.mp member
        have deep := ih f inside (depth + 1) (all f inside)
        omega
      rw [Form.value, Bencode.level]
      omega
  | dict entries ih =>
    intro depth accepted
    have shallow := accepted_shallow accepted
    cases accepted with
    | dict _ _ _ all =>
      have inner : Bencode.level.levelEntries (ofList (Form.value.valueEntries entries)) ≤
          opts.maxRecursion - depth - 1 := by
        rw [level_entries_le]
        intro e member
        have original := mem_of_list member
        rw [value_entries_eq] at original
        obtain ⟨entry, inside, rfl⟩ := mem_map.mp original
        have deep := ih entry inside (depth + 1) (all entry inside)
        dsimp only
        omega
      rw [Form.value, Bencode.level]
      omega

/-- What is written can only be read within the recursion limit. -/
theorem decode_encode_shallow {v : Bencode} (full : opts.enforceFullDecode = true)
    (sorted : DictsSorted v) (fits : (encode v).length ≤ isizeMax)
    (decoded : BencodeRef.decode (encode v) opts = .ok r) : v.level ≤ opts.maxRecursion := by
  obtain ⟨f, accepted, print, rfl⟩ := decode_full full fits decoded
  -- with enough recursion the same form is read, and so is the value that was written
  let deep : BDecodeOpt := { opts with maxRecursion := max opts.maxRecursion v.level }
  have again := decode_form (print ▸ fits)
    (show Accepted deep 0 f from accepted_room accepted 0 (by omega))
  obtain ⟨r, whole, kind, _⟩ := decode_encode sorted fits
    (show v.level ≤ deep.maxRecursion from le_max_right _ _)
  rw [print, whole] at again
  cases again
  rw [kind_ref_at] at kind
  rw [← kind]
  exact accepted_level f 0 accepted

theorem encode_decoded (check : opts.checkKeySort = true) (full : opts.enforceFullDecode = true)
    (fits : b.length ≤ isizeMax) (decoded : BencodeRef.decode b opts = .ok r) :
    encode r.kind = b ↔ ¬ PlusSigned opts b := by
  obtain ⟨f, accepted, print, rfl⟩ := decode_full full fits decoded
  have respelled := form_respelled check f 0 accepted
  rw [print] at respelled
  rw [kind_ref_at]
  constructor
  · rintro same ⟨g, acceptedG, printG, signed⟩
    -- both forms are what the decoder reads, so they denote the same value
    have readG := decode_form (printG ▸ fits) acceptedG
    rw [printG, decoded] at readG
    have value : f.value = g.value := by
      rw [← kind_ref_at f 0, ← kind_ref_at g 0, Outcome.ok.inj readG]
    have shorter := form_respelled check g 0 acceptedG
    rw [signed, printG, ← value, same] at shorter
    simp [Respelled] at shorter
  · intro free
    have plain : plusFree f = true := by
      by_contra signed
      exact free ⟨f, accepted, print, by simpa using signed⟩
    rw [plain] at respelled
    simpa [Respelled] using respelled

/-- An input is accepted in canonical form exactly if it spells no number with a plus sign, and
    two such inputs with one value are equal. -/
theorem decode_canonical_iff (opts : BDecodeOpt) (check : opts.checkKeySort = true)
    (full : opts.enforceFullDecode = true) (b : Bytes) (fits : b.length ≤ isizeMax) :
    ((∀ r, BencodeRef.decode b opts = .ok r → encode r.kind = b) ↔ ¬ PlusSigned opts b) ∧
    (∀ b' r r', b'.length ≤ isizeMax → ¬ PlusSigned opts b → ¬ PlusSigned opts b' →
      BencodeRef.decode b opts = .ok r → BencodeRef.decode b' opts = .ok r' →
      r.kind = r'.kind → b = b') := by
  constructor
  · constructor
    · rintro canonical ⟨f, accepted, print, signed⟩
      have read := decode_form (print ▸ fits) accepted
      rw [print] at read
      exact (encode_decoded check full fits read).mp (canonical _ read)
        ⟨f, accepted, print, signed⟩
    · intro free r decoded
      exact (encode_decoded check full fits decoded).mpr free
  · intro b' r r' fits' free free' decoded decoded' same
    rw [← (encode_decoded check full fits decoded).mpr free, same]
    exact (encode_decoded check full fits' decoded').mpr free'

end FullDecode

theorem decode_canonical_i5e : ¬ PlusSigned ⟨50, true, true⟩ [105, 53, 101] := by
  apply (decode_canonical_iff ⟨50, true, true⟩ rfl rfl [105, 53, 101] (by decide)).1.mp
  intro r decoded
  have read : BencodeRef.decode [105, 53, 101] ⟨50, true, true⟩ =
      .ok (.int 5 ⟨0, [105, 53, 101]⟩) := by rfl
  obtain rfl := Outcome.ok.inj (read.symm.trans decoded)
  decide

/-- `i+5e` is accepted and re-encoded as `i5e`, and `d+1:ai0ee` as `d1:ai0ee`. -/
theorem decode_plus_accepted :
    (∃ r r', BencodeRef.decode [105, 43, 53, 101] ⟨50, true, true⟩ = .ok r ∧
      BencodeRef.decode [105, 53, 101] ⟨50, true, true⟩ = .ok r' ∧ r.kind = r'.kind ∧
      encode r.kind = [105, 53, 101]) ∧
    (∃ r, BencodeRef.decode [100, 43, 49, 58, 97, 105, 48, 101, 101] ⟨50, true, true⟩ = .ok r ∧
      encode r.kind = [100, 49, 58, 97, 105, 48, 101, 101]) := by
  refine ⟨⟨.int 5 ⟨0, [105, 43, 53, 101]⟩, .int 5 ⟨0, [105, 53, 101]⟩, by rfl, by rfl, by simp,
    by decide⟩, ⟨.dict [([97], .int 0 ⟨5, [105, 48, 101]⟩)]
      ⟨0, [100, 43, 49, 58, 97, 105, 48, 101, 101]⟩, by rfl, by decide⟩⟩

end BencodeCanonical
