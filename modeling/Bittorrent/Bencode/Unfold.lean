import Bittorrent.Bencode.Lexeme

/-!
The decoder without its fuel. More fuel never changes a finished result, twice the remaining
input is always enough, and so the three functions satisfy the equations of the source.
-/
namespace BencodeUnfold
open Rust Outcome BencodeValue BencodeDecode BencodeLexeme

theorem decode_approx (fuel : Nat) :
    (∀ bytes pos opts depth, Approx (decode fuel bytes pos opts depth)
      (decode (fuel + 1) bytes pos opts depth)) ∧
    (∀ bytes pos opts depth items, Approx (decodeList fuel bytes pos opts depth items)
      (decodeList (fuel + 1) bytes pos opts depth items)) ∧
    (∀ bytes pos opts depth dict, Approx (decodeDict fuel bytes pos opts depth dict)
      (decodeDict (fuel + 1) bytes pos opts depth dict)) := by
  induction fuel with
  | zero =>
    exact ⟨fun _ _ _ _ => unfinished_approx _, fun _ _ _ _ _ => unfinished_approx _,
      fun _ _ _ _ _ => unfinished_approx _⟩
  | succ fuel ih =>
    obtain ⟨value, list, dict⟩ := ih
    refine ⟨?_, ?_, ?_⟩
    · intro bytes pos opts depth
      rw [decode, decode]
      refine ite_approx (approx_refl _) ?_
      refine bind_approx (approx_refl _) fun c => ?_
      refine ite_approx (approx_refl _) ?_
      refine ite_approx ?_ (ite_approx ?_ (approx_refl _))
      · refine bind_approx (approx_refl _) fun start => ?_
        exact bind_approx (list _ _ _ _ _) fun r => approx_refl _
      · refine bind_approx (approx_refl _) fun start => ?_
        exact bind_approx (dict _ _ _ _ _) fun r => approx_refl _
    · intro bytes pos opts depth items
      rw [decodeList, decodeList]
      refine bind_approx (approx_refl _) fun c => ?_
      refine ite_approx (approx_refl _) ?_
      refine bind_approx (approx_refl _) fun deeper => ?_
      exact bind_approx (value _ _ _ _) fun r => list _ _ _ _ _
    · intro bytes pos opts depth entries
      rw [decodeDict, decodeDict]
      refine bind_approx (approx_refl _) fun c => ?_
      refine ite_approx (approx_refl _) ?_
      refine bind_approx (approx_refl _) fun key => ?_
      refine ite_approx (approx_refl _) ?_
      refine bind_approx (approx_refl _) fun deeper => ?_
      refine bind_approx (unwrap_approx (value _ _ _ _)) fun r => ?_
      cases SortedMap.lookup key.1 entries with
      | some old => exact approx_refl _
      | none => exact dict _ _ _ _ _

section Progress
variable {bytes : Bytes} {pos next depth : Nat} {opts : BDecodeOpt}

theorem peek_byte_ok {c : UInt8} : peekByte bytes pos = .ok c ↔ bytes[pos]? = some c := by
  unfold peekByte
  cases bytes[pos]? <;> simp

theorem peek_byte_finished : peekByte bytes pos ≠ .unfinished := by
  unfold peekByte
  cases bytes[pos]? <;> simp

theorem byte_inside {c : UInt8} (here : bytes[pos]? = some c) : pos < bytes.length :=
  (List.getElem?_eq_some_iff.mp here).1

theorem decode_bytes_progress (fits : bytes.length ≤ isizeMax) {content : Bytes}
    (decoded : decodeBytes bytes pos = .ok (content, next)) :
    pos < next ∧ next ≤ bytes.length := by
  obtain ⟨s, _, stands, rfl⟩ := decode_bytes_ok fits decoded
  have nonempty : s.print ≠ [] := by simp [ByteString.print]
  have positive : 0 < s.print.length := List.length_pos_iff.mpr nonempty
  exact ⟨by omega, stands_at_inside stands nonempty⟩

theorem decode_int_progress (fits : bytes.length ≤ isizeMax) {delim : UInt8} {n : Int64}
    (decoded : decodeInt bytes pos delim = .ok (n, next)) : pos < next ∧ next ≤ bytes.length := by
  obtain ⟨m, _, stands, rfl⟩ := decode_int_ok fits decoded
  have inside := stands_at_inside stands (by simp)
  simp only [List.length_append, List.length_singleton] at inside
  omega

/-- There is an outcome, and a value ends behind where it began and inside the input. -/
def Advances {α : Type} (bytes : Bytes) (pos : Nat) (o : BencodeParseResult (α × Nat)) : Prop :=
  o ≠ .unfinished ∧ ∀ a next, o = .ok (a, next) → pos < next ∧ next ≤ bytes.length

variable {α : Type}

theorem advances_err (e : BencodeParseError) :
    Advances bytes pos (.err e : BencodeParseResult (α × Nat)) := ⟨nofun, nofun⟩

theorem advances_ok {a : α} (ahead : pos < next) (inside : next ≤ bytes.length) :
    Advances bytes pos (.ok (a, next)) := by
  refine ⟨nofun, ?_⟩
  rintro _ _ ⟨⟩
  exact ⟨ahead, inside⟩

theorem advances_bind {β : Type} {m : BencodeParseResult β} {f : β → BencodeParseResult (α × Nat)}
    (first : m ≠ .unfinished) (rest : ∀ b, m = .ok b → Advances bytes pos (f b)) :
    Advances bytes pos (m >>= f) := by
  refine ⟨bind_ne_unfinished first fun b ended => (rest b ended).1, ?_⟩
  intro a next result
  obtain ⟨b, ended, tail⟩ := bind_eq_ok.mp result
  exact (rest b ended).2 a next tail

theorem advances_sum {a b : Nat} {f : Nat → BencodeParseResult (α × Nat)}
    (rest : Advances bytes pos (f (a + b))) : Advances bytes pos (usizeAdd a b >>= f) :=
  advances_bind (usize_add_finished _ _) fun _ sum => usize_add_value sum ▸ rest

theorem advances_cut {β : Type} {start : Nat} {m : BencodeParseResult (β × Nat)}
    {build : β → SubSlice → BencodeRef} (inner : Advances bytes start m) (behind : pos ≤ start) :
    Advances bytes pos (m >>= fun r =>
      slice bytes pos r.2 >>= fun buffer => .ok (build r.1 buffer, r.2)) := by
  refine advances_bind inner.1 fun r ended => ?_
  have ahead := inner.2 r.1 r.2 ended
  exact advances_bind (slice_finished _ _ _) fun _ _ => advances_ok (by omega) ahead.2

theorem advances_later {o : BencodeParseResult (α × Nat)} {later : Nat}
    (advances : Advances bytes later o) (behind : pos ≤ later) : Advances bytes pos o := by
  refine ⟨advances.1, fun a next result => ?_⟩
  have ahead := advances.2 a next result
  omega

/-- Two units of fuel per remaining byte are enough. -/
theorem decode_advances (fits : bytes.length ≤ isizeMax) (fuel : Nat) :
    (∀ pos depth, 2 * (bytes.length - pos) + 1 ≤ fuel →
      Advances bytes pos (decode fuel bytes pos opts depth)) ∧
    (∀ pos depth items, 2 * (bytes.length - pos) + 2 ≤ fuel →
      Advances bytes pos (decodeList fuel bytes pos opts depth items)) ∧
    (∀ pos depth dict, 2 * (bytes.length - pos) + 2 ≤ fuel →
      Advances bytes pos (decodeDict fuel bytes pos opts depth dict)) := by
  induction fuel with
  | zero => exact ⟨by omega, by omega, by omega⟩
  | succ fuel ih =>
    obtain ⟨value, list, dict⟩ := ih
    refine ⟨?_, ?_, ?_⟩
    · intro pos depth enough
      rw [decode]
      split
      · exact advances_err _
      refine advances_bind peek_byte_finished fun c here => ?_
      have inside := byte_inside (peek_byte_ok.mp here)
      split
      · exact advances_sum (advances_cut ⟨decode_int_finished, fun _ _ => decode_int_progress fits⟩ (by omega))
      split
      · exact advances_sum (advances_cut (list _ depth [] (by omega)) (by omega))
      split
      · exact advances_sum (advances_cut (dict _ depth [] (by omega)) (by omega))
      split
      · exact advances_cut ⟨decode_bytes_finished, fun _ _ => decode_bytes_progress fits⟩ (le_refl _)
      · exact advances_err _
    · intro pos depth items enough
      rw [decodeList]
      refine advances_bind peek_byte_finished fun c here => ?_
      have inside := byte_inside (peek_byte_ok.mp here)
      split
      · exact advances_sum (advances_ok (by omega) (by omega))
      · refine advances_sum ?_
        have item := value pos (depth + 1) (by omega)
        refine advances_bind item.1 fun r ended => ?_
        have first := item.2 r.1 r.2 ended
        exact advances_later (list r.2 depth _ (by omega)) (by omega)
    · intro pos depth entries enough
      rw [decodeDict]
      refine advances_bind peek_byte_finished fun c here => ?_
      have inside := byte_inside (peek_byte_ok.mp here)
      split
      · exact advances_sum (advances_ok (by omega) (by omega))
      · refine advances_bind decode_bytes_finished fun key string => ?_
        have first := decode_bytes_progress fits string
        dsimp only
        split
        · exact advances_err _
        · refine advances_sum ?_
          have item := value key.2 (depth + 1) (by omega)
          refine advances_bind (unwrap_ne_unfinished item.1) fun r ended => ?_
          have second := item.2 r.1 r.2 (unwrap_eq_ok.mp ended)
          split
          · exact advances_err _
          · exact advances_later (dict r.2 depth _ (by omega)) (by omega)

end Progress

/-- The three decoding functions with the fuel they need from `pos` on. -/
def decodeFrom (bytes : Bytes) (opts : BDecodeOpt) (pos depth : Nat) :
    BencodeParseResult (BencodeRef × Nat) :=
  decode (2 * (bytes.length - pos) + 1) bytes pos opts depth

def decodeListFrom (bytes : Bytes) (opts : BDecodeOpt) (pos depth : Nat)
    (items : List BencodeRef) : BencodeParseResult (List BencodeRef × Nat) :=
  decodeList (2 * (bytes.length - pos) + 2) bytes pos opts depth items

def decodeDictFrom (bytes : Bytes) (opts : BDecodeOpt) (pos depth : Nat)
    (dict : List (Bytes × BencodeRef)) : BencodeParseResult (List (Bytes × BencodeRef) × Nat) :=
  decodeDict (2 * (bytes.length - pos) + 2) bytes pos opts depth dict

section Equations
variable {bytes : Bytes} {opts : BDecodeOpt} {pos depth : Nat}
variable {fuel : Nat}

theorem decode_stable (fits : bytes.length ≤ isizeMax)
    (enough : 2 * (bytes.length - pos) + 1 ≤ fuel) :
    decode fuel bytes pos opts depth = decodeFrom bytes opts pos depth :=
  approx_stable (fun n => decode n bytes pos opts depth)
    (fun n => (decode_approx n).1 _ _ _ _) ((decode_advances fits _).1 _ _ (le_refl _)).1 enough

variable {items : List BencodeRef}

theorem decode_list_stable (fits : bytes.length ≤ isizeMax)
    (enough : 2 * (bytes.length - pos) + 2 ≤ fuel) :
    decodeList fuel bytes pos opts depth items = decodeListFrom bytes opts pos depth items :=
  approx_stable (fun n => decodeList n bytes pos opts depth items)
    (fun n => (decode_approx n).2.1 _ _ _ _ _) ((decode_advances fits _).2.1 _ _ _ (le_refl _)).1
    enough

variable {dict : List (Bytes × BencodeRef)}

section
variable (fits : bytes.length ≤ isizeMax)
include fits

theorem decode_dict_stable (enough : 2 * (bytes.length - pos) + 2 ≤ fuel) :
    decodeDict fuel bytes pos opts depth dict = decodeDictFrom bytes opts pos depth dict :=
  approx_stable (fun n => decodeDict n bytes pos opts depth dict)
    (fun n => (decode_approx n).2.2 _ _ _ _ _) ((decode_advances fits _).2.2 _ _ _ (le_refl _)).1
    enough

theorem decode_from_finished : decodeFrom bytes opts pos depth ≠ .unfinished :=
  ((decode_advances fits _).1 _ _ (le_refl _)).1

theorem decode_from_progress {r : BencodeRef} {next : Nat}
    (decoded : decodeFrom bytes opts pos depth = .ok (r, next)) :
    pos < next ∧ next ≤ bytes.length :=
  ((decode_advances fits _).1 _ _ (le_refl _)).2 _ _ decoded

end

theorem decode_from_deep (deep : opts.maxRecursion ≤ depth) :
    decodeFrom bytes opts pos depth = .err (.invalidRecursionExceeded pos depth) := by
  rw [decodeFrom, decode, if_pos deep]

theorem decode_from_end (shallow : depth < opts.maxRecursion) (outside : bytes[pos]? = none) :
    decodeFrom bytes opts pos depth = .err (.bytesEmpty pos) := by
  rw [decodeFrom, decode, if_neg (by omega), peekByte, outside]
  rfl

variable {c : UInt8}

theorem decode_from_eq (fits : bytes.length ≤ isizeMax) (shallow : depth < opts.maxRecursion)
    (here : bytes[pos]? = some c) :
    decodeFrom bytes opts pos depth =
      if c = intStart then do
        let r ← decodeInt bytes (pos + 1) benEnd
        let buffer ← slice bytes pos r.2
        .ok (.int r.1 buffer, r.2)
      else if c = listStart then do
        let r ← decodeListFrom bytes opts (pos + 1) depth []
        let buffer ← slice bytes pos r.2
        .ok (.list r.1 buffer, r.2)
      else if c = dictStart then do
        let r ← decodeDictFrom bytes opts (pos + 1) depth []
        let buffer ← slice bytes pos r.2
        .ok (.dict r.1 buffer, r.2)
      else if byteLenLow ≤ c ∧ c ≤ byteLenHigh then do
        let r ← decodeBytes bytes pos
        let buffer ← slice bytes pos r.2
        .ok (.bytes r.1 buffer, r.2)
      else .err (.invalidByte pos) := by
  have inside := byte_inside here
  have sum : (usizeAdd pos 1 : BencodeParseResult Nat) = .ok (pos + 1) :=
    usize_add_inside fits (by omega)
  rw [decodeFrom, decode, if_neg (by omega), peek_byte_ok.mpr here, ok_bind]
  simp only [sum, ok_bind, decode_list_stable fits
    (show 2 * (bytes.length - (pos + 1)) + 2 ≤ 2 * (bytes.length - pos) by omega),
    decode_dict_stable fits
    (show 2 * (bytes.length - (pos + 1)) + 2 ≤ 2 * (bytes.length - pos) by omega)]

theorem decode_list_empty (outside : bytes[pos]? = none) :
    decodeListFrom bytes opts pos depth items = .err (.bytesEmpty pos) := by
  rw [decodeListFrom, decodeList, peekByte, outside]
  rfl

theorem decode_list_done (fits : bytes.length ≤ isizeMax) (here : bytes[pos]? = some benEnd) :
    decodeListFrom bytes opts pos depth items = .ok (items, pos + 1) := by
  have inside := byte_inside here
  rw [decodeListFrom, decodeList, peek_byte_ok.mpr here, ok_bind, if_pos rfl,
    usize_add_inside fits (by omega), ok_bind]

/-- One round of the loop of `decode_list`. Each level of nesting has consumed a byte, so the
    depth cannot overflow. -/
theorem decode_list_round (fits : bytes.length ≤ isizeMax) (low : depth < pos)
    (here : bytes[pos]? = some c) (more : c ≠ benEnd) :
    decodeListFrom bytes opts pos depth items = (do
      let r ← decodeFrom bytes opts pos (depth + 1)
      decodeListFrom bytes opts r.2 depth (items ++ [r.1])) := by
  have inside := byte_inside here
  rw [decodeListFrom, decodeList, peek_byte_ok.mpr here, ok_bind, if_neg more,
    usize_add_inside fits (by omega), ok_bind, decode_stable fits (by omega)]
  refine bind_congr rfl fun r decoded => ?_
  have ahead := decode_from_progress fits decoded
  exact decode_list_stable fits (by omega)

theorem decode_dict_empty (outside : bytes[pos]? = none) :
    decodeDictFrom bytes opts pos depth dict = .err (.bytesEmpty pos) := by
  rw [decodeDictFrom, decodeDict, peekByte, outside]
  rfl

section
variable (fits : bytes.length ≤ isizeMax)
include fits

theorem decode_dict_done (here : bytes[pos]? = some benEnd) :
    decodeDictFrom bytes opts pos depth dict = .ok (dict, pos + 1) := by
  have inside := byte_inside here
  rw [decodeDictFrom, decodeDict, peek_byte_ok.mpr here, ok_bind, if_pos rfl,
    usize_add_inside fits (by omega), ok_bind]

theorem decode_dict_round (low : depth < pos) (here : bytes[pos]? = some c) (more : c ≠ benEnd) :
    decodeDictFrom bytes opts pos depth dict = (do
      let k ← decodeBytes bytes pos
      if keyOutOfOrder opts dict k.1 then .err (.invalidKeyOrdering pos k.1)
      else do
        let r ← (decodeFrom bytes opts k.2 (depth + 1)).unwrap
        match SortedMap.lookup k.1 dict with
        | some _ => .err (.invalidKeyDuplicates k.2 k.1)
        | none => decodeDictFrom bytes opts r.2 depth (SortedMap.insert k.1 r.1 dict)) := by
  have inside := byte_inside here
  rw [decodeDictFrom, decodeDict, peek_byte_ok.mpr here, ok_bind, if_neg more]
  refine bind_congr rfl fun k string => ?_
  have first := decode_bytes_progress fits string
  dsimp only
  split
  · rfl
  · rw [usize_add_inside fits (by omega), ok_bind, decode_stable fits (by omega)]
    refine bind_congr rfl fun r decoded => ?_
    have second := decode_from_progress fits (unwrap_eq_ok.mp decoded)
    cases SortedMap.lookup k.1 dict with
    | some old => rfl
    | none => exact decode_dict_stable fits (by omega)

theorem decode_eq : BencodeRef.decode bytes opts = (do
      let r ← decodeFrom bytes opts 0 0
      if r.2 ≠ bytes.length ∧ opts.enforceFullDecode = true then .err (.bytesEmpty r.2)
      else .ok r.1) := by
  rw [BencodeRef.decode, decode_stable fits (by omega)]

end

end Equations

end BencodeUnfold
