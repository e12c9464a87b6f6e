import Bittorrent.Bencode.Decode

/-!
The two kinds of token of the decoder, with the checks it makes on them: numerals, and byte
strings behind a length numeral. `decode_int` and `decode_bytes` succeed at a position exactly
where such a token stands, and they do not panic inside the input.
-/
namespace BencodeLexeme
open Rust Outcome DecimalText BencodeValue BencodeDecode List

structure Numeral where
  text : Bytes
  value : Int64
  read : readInt64 text = some value
  unpadded : 1 < text.length → text[0]? ≠ some 48
  noNegativeZero : 1 < text.length → ¬ (text[0]? = some minus ∧ text[1]? = some 48)

structure ByteString where
  len : Numeral
  content : Bytes
  counts : len.value.toInt = content.length

def ByteString.print (s : ByteString) : Bytes := s.len.text ++ byteLenEnd :: s.content

theorem numeral_value (n : Numeral) : readInt n.text = some n.value.toInt :=
  read_int64_value n.read

theorem numeral_ne_nil (n : Numeral) : n.text ≠ [] := by
  intro empty
  have read := numeral_value n
  rw [empty] at read
  simp [readInt] at read

theorem numeral_ascii (n : Numeral) : ∀ c ∈ n.text, c ≤ 0x7F := by
  intro c member
  rcases read_int_alphabet (numeral_value n) c member with digit | rfl | rfl
  · simp only [isDigit, decide_eq_true_eq] at digit
    rw [UInt8.le_iff_toNat_le]
    exact le_trans digit.2 (by decide)
  · decide
  · decide

def Separator (delim : UInt8) : Prop := isDigit delim = false ∧ delim ≠ plus ∧ delim ≠ minus

theorem ben_end_separator : Separator benEnd := by unfold Separator; decide

theorem byte_len_end_separator : Separator byteLenEnd := by unfold Separator; decide

variable {delim : UInt8}

theorem separator_not_mem (separates : Separator delim) (n : Numeral) : delim ∉ n.text := by
  intro member
  rcases read_int_alphabet (numeral_value n) delim member with digit | sign | sign
  · rw [separates.1] at digit
    exact absurd digit (by decide)
  · exact separates.2.1 sign
  · exact separates.2.2 sign

theorem find_delimiter {text rest : Bytes} (absent : delim ∉ text) :
    (text ++ delim :: rest).findIdx? (· = delim) = some text.length := by
  induction text with
  | nil => simp [List.findIdx?_cons]
  | cons c text ih =>
    have other : c ≠ delim := fun same => absent (by simp [same])
    have later : delim ∉ text := fun member => absent (.tail _ member)
    simp only [cons_append, List.findIdx?_cons, decide_eq_true_eq, other, ↓reduceIte, ih later,
      Option.map_some, length_cons]

theorem take_before_delimiter {s : Bytes} {k : Nat} (found : s.findIdx? (· = delim) = some k) :
    s = s.take k ++ delim :: s.drop (k + 1) ∧ k < s.length := by
  obtain ⟨inside, hit, _⟩ := List.findIdx?_eq_some_iff_getElem.mp found
  have here : s[k] = delim := by simpa using hit
  refine ⟨?_, inside⟩
  rw [← here, getElem_cons_drop, take_append_drop]

section Positions
variable {bytes : Bytes} {pos next : Nat} {delim : UInt8} {opts : BDecodeOpt}

section
variable (fits : bytes.length ≤ isizeMax)
include fits

theorem decode_int_numeral (separates : Separator delim)
    (n : Numeral) (stands : StandsAt bytes pos (n.text ++ [delim])) :
    decodeInt bytes pos delim = .ok (n.value, pos + n.text.length + 1) := by
  have inside : pos + (n.text.length + 1) ≤ bytes.length := by
    simpa using stands_at_inside stands (by simp)
  obtain ⟨rest, split⟩ := stands
  have found : (bytes.drop pos).findIdx? (· = delim) = some n.text.length := by
    rw [split, append_assoc]
    exact find_delimiter (separator_not_mem separates n)
  have text : (bytes.drop pos).take n.text.length = n.text := by simp [split]
  have utf8 : validUtf8 n.text = true := ascii_valid (numeral_ascii n)
  have padded : ¬ (1 < n.text.length ∧ n.text[0]? = some 48) := fun h => n.unpadded h.1 h.2
  have negative : ¬ (1 < n.text.length ∧ n.text[0]? = some minus ∧ n.text[1]? = some 48) :=
    fun h => n.noNegativeZero h.1 h.2
  unfold decodeInt
  rw [slice_from_ok (by omega), ok_bind, found]
  simp only [text, if_neg negative, if_neg padded, utf8, Bool.true_eq_false, ↓reduceIte]
  rw [usize_add_inside fits (by omega), ok_bind, usize_add_inside fits (by omega),
    ok_bind, n.read]

theorem decode_int_ok {value : Int64} (decoded : decodeInt bytes pos delim = .ok (value, next)) :
    ∃ n : Numeral, n.value = value ∧ StandsAt bytes pos (n.text ++ [delim]) ∧
      next = pos + n.text.length + 1 := by
  obtain ⟨start, cut, body⟩ := bind_eq_ok.mp decoded
  have inside : pos ≤ bytes.length := by
    unfold sliceFrom at cut
    split at cut
    · assumption
    · simp at cut
  rw [slice_from_ok inside] at cut
  obtain rfl : bytes.drop pos = start := by simpa using cut
  split at body
  · simp at body
  · rename_i k found
    obtain ⟨split, short⟩ := take_before_delimiter found
    have length : ((bytes.drop pos).take k).length = k := by
      rw [length_take]
      omega
    rw [length_drop] at short
    dsimp only at body
    generalize (bytes.drop pos).take k = text at body split length
    split at body
    · simp at body
    · rename_i negative
      split at body
      · simp at body
      · rename_i padded
        split at body
        · simp at body
        · rw [usize_add_inside fits (by omega), ok_bind, usize_add_inside fits (by omega),
            ok_bind] at body
          split at body
          · rename_i m read
            simp only [Outcome.ok.injEq, Prod.mk.injEq] at body
            refine ⟨⟨text, m, read, fun long h => padded ⟨long, h⟩,
              fun long h => negative ⟨long, h⟩⟩, body.1,
              ⟨(bytes.drop pos).drop (k + 1), ?_⟩, ?_⟩
            · rw [append_assoc]
              exact split
            · simp only [length]
              exact body.2.symm
          · simp at body

theorem decode_int_no_panic (inside : pos ≤ bytes.length) : decodeInt bytes pos delim ≠ .panic := by
  unfold decodeInt
  rw [slice_from_ok inside, ok_bind]
  split
  · simp
  · rename_i k found
    have short := (take_before_delimiter found).2
    rw [length_drop] at short
    have first : (usizeAdd pos k : BencodeParseResult Nat) = .ok (pos + k) :=
      usize_add_inside fits (by omega)
    have second : (usizeAdd (pos + k) 1 : BencodeParseResult Nat) = .ok (pos + k + 1) :=
      usize_add_inside fits (by omega)
    simp only [first, second, ok_bind]
    repeat' split
    all_goals simp

end

theorem decode_int_finished : decodeInt bytes pos delim ≠ .unfinished := by
  refine bind_ne_unfinished (slice_from_finished _ _) ?_
  intro start _
  split
  · simp
  · dsimp only
    split
    · simp
    · split
      · simp
      · split
        · simp
        · refine bind_ne_unfinished (usize_add_finished _ _) ?_
          intro stop _
          refine bind_ne_unfinished (usize_add_finished _ _) ?_
          intro after _
          split <;> simp

section
variable (fits : bytes.length ≤ isizeMax)
include fits

theorem decode_bytes_behind {n : Numeral} (stands : StandsAt bytes pos (n.text ++ [byteLenEnd])) :
    decodeBytes bytes pos =
      if n.value.toInt < 0 then .err (.invalidLengthNegative pos)
      else if (bytes.drop (pos + n.text.length + 1)).length < n.value.toInt.toNat then
        .err (.invalidLengthOverflow pos)
      else .ok ((bytes.drop (pos + n.text.length + 1)).take n.value.toInt.toNat,
        pos + n.text.length + 1 + n.value.toInt.toNat) := by
  have inside : pos + (n.text.length + 1) ≤ bytes.length := by
    simpa using stands_at_inside stands (by simp)
  unfold decodeBytes
  rw [decode_int_numeral fits byte_len_end_separator n stands, ok_bind]
  dsimp only
  split
  · rfl
  rw [slice_from_ok (by omega), ok_bind]
  split
  · rfl
  rename_i room
  rw [length_drop] at room
  rw [usize_add_inside fits (by omega), ok_bind, slice_ok (by omega) (by omega), ok_bind,
    Nat.add_sub_cancel_left]

theorem decode_bytes_string (s : ByteString) (stands : StandsAt bytes pos s.print) :
    decodeBytes bytes pos = .ok (s.content, pos + s.print.length) := by
  have shape : s.print = (s.len.text ++ [byteLenEnd]) ++ s.content := by simp [ByteString.print]
  rw [shape] at stands
  obtain ⟨numeral, rest, after⟩ := stands_at_append.mp stands
  rw [length_append, length_singleton, ← Nat.add_assoc] at after
  have count : s.len.value.toInt.toNat = s.content.length := by
    rw [s.counts]
    exact Int.toNat_natCast _
  have nonneg : ¬ s.len.value.toInt < 0 := by
    rw [s.counts]
    omega
  rw [decode_bytes_behind fits numeral, if_neg nonneg, after, count, if_neg (by simp), take_left,
    shape, length_append, length_append, length_singleton]
  simp only [Nat.add_assoc]

theorem decode_bytes_ok {content : Bytes} (decoded : decodeBytes bytes pos = .ok (content, next)) :
    ∃ s : ByteString, s.content = content ∧ StandsAt bytes pos s.print ∧
      next = pos + s.print.length := by
  obtain ⟨⟨count, start⟩, numeral, _⟩ := bind_eq_ok.mp decoded
  obtain ⟨n, _, stands, _⟩ := decode_int_ok fits numeral
  rw [decode_bytes_behind fits stands] at decoded
  split at decoded
  · simp at decoded
  split at decoded
  · simp at decoded
  rename_i nonneg room
  simp only [Outcome.ok.injEq, Prod.mk.injEq] at decoded
  obtain ⟨same, stop⟩ := decoded
  have length : content.length = n.value.toInt.toNat := by
    rw [← same, length_take]
    omega
  refine ⟨⟨n, content, by omega⟩, rfl, ?_, ?_⟩
  · have cut : StandsAt bytes (pos + (n.text ++ [byteLenEnd]).length) content := by
      refine ⟨(bytes.drop (pos + n.text.length + 1)).drop n.value.toInt.toNat, ?_⟩
      rw [← same, take_append_drop, length_append, length_singleton,
        ← Nat.add_assoc]
    simpa [ByteString.print] using stands_at_append.mpr ⟨stands, cut⟩
  · simp only [ByteString.print, length_append, length_cons]
    omega

theorem decode_bytes_no_panic (inside : pos ≤ bytes.length) : decodeBytes bytes pos ≠ .panic := by
  intro panics
  rcases bind_eq_panic.mp panics with numeral | ⟨⟨count, start⟩, numeral, _⟩
  · exact decode_int_no_panic fits inside numeral
  · obtain ⟨n, _, stands, _⟩ := decode_int_ok fits numeral
    rw [decode_bytes_behind fits stands] at panics
    split at panics
    · simp at panics
    split at panics
    · simp at panics
    · simp at panics

end

theorem decode_bytes_finished : decodeBytes bytes pos ≠ .unfinished := by
  refine bind_ne_unfinished decode_int_finished ?_
  intro numeral _
  dsimp only
  split
  · simp
  · refine bind_ne_unfinished (slice_from_finished _ _) ?_
    intro rest _
    split
    · simp
    · refine bind_ne_unfinished (usize_add_finished _ _) ?_
      intro stop _
      exact bind_ne_unfinished (slice_finished _ _ _) (by simp)

end Positions

end BencodeLexeme
