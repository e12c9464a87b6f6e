import Mathlib.Data.List.Induction
import Bittorrent.Lib.Bytes

/-!
Streaming parsers in the manner of nom. A parser answers with a value and the rest of the input, or
that the input is wrong, or that there is too little of it. Alternatives are tried only after the
wrong kind of trouble, and an optional parser passes on that it needs more input.
-/
namespace NomParse
open Rust Outcome
variable {α β : Type}

section BigEndian
open List

/-- The value of bytes, most significant first. -/
def beNat (bytes : Bytes) : Nat := bytes.foldl (fun acc b => acc * 256 + b.toNat) 0

/-- The lowest bytes of a number, most significant first. -/
def beBytes : Nat → Nat → Bytes
  | 0, _ => []
  | width + 1, n => beBytes width (n / 256) ++ [UInt8.ofNat (n % 256)]

@[simp] theorem be_bytes_length (width n : Nat) : (beBytes width n).length = width := by
  induction width generalizing n with
  | zero => rfl
  | succ width ih => rw [beBytes, length_append, ih, length_singleton]

theorem be_nat_bytes (width n : Nat) : beNat (beBytes width n) = n % 256 ^ width := by
  induction width generalizing n with
  | zero => simp [beBytes, beNat, Nat.mod_one]
  | succ width ih =>
    have front : (beBytes width (n / 256)).foldl (fun acc b => acc * 256 + b.toNat) 0 =
        n / 256 % 256 ^ width := ih (n / 256)
    have digit : (UInt8.ofNat (n % 256)).toNat = n % 256 :=
      UInt8.toNat_ofNat_of_lt (Nat.mod_lt n (by decide))
    rw [beNat, beBytes, foldl_append, front, foldl_cons, foldl_nil, digit, Nat.pow_succ,
      Nat.mul_comm (256 ^ width), Nat.mod_mul]
    omega

theorem be_nat_snoc (front : Bytes) (last : UInt8) :
    beNat (front ++ [last]) = beNat front * 256 + last.toNat := by
  rw [beNat, foldl_append, foldl_cons, foldl_nil]
  rfl

theorem be_bytes_nat (bytes : Bytes) : beBytes bytes.length (beNat bytes) = bytes := by
  induction bytes using List.reverseRecOn with
  | nil => rfl
  | append_singleton front last ih =>
    have digit := last.toNat_lt
    have high : (beNat front * 256 + last.toNat) / 256 = beNat front := by omega
    have low : (beNat front * 256 + last.toNat) % 256 = last.toNat := by omega
    rw [be_nat_snoc, length_append, length_singleton, beBytes, high, low, ih, UInt8.ofNat_toNat]

theorem be_nat_lt (bytes : Bytes) : beNat bytes < 256 ^ bytes.length := by
  induction bytes using List.reverseRecOn with
  | nil => simp [beNat]
  | append_singleton front last ih =>
    have digit := last.toNat_lt
    rw [be_nat_snoc, length_append, length_singleton, Nat.pow_succ]
    omega

end BigEndian

inductive Trouble where
  | error
  | incomplete
  deriving DecidableEq, Repr

/-- What is left of an `IResult` once the rest of the input is thrown away. -/
abbrev Parsed := Outcome Trouble

abbrev Parser (α : Type) := Bytes → Parsed (α × Bytes)

section Parsers

def take (size : Nat) : Parser Bytes := fun input =>
  if size ≤ input.length then .ok (input.take size, input.drop size) else .err .incomplete

def beU8 : Parser UInt8 := fun input => do
  let (raw, rest) ← take 1 input
  return (UInt8.ofNat (beNat raw), rest)

def beU16 : Parser UInt16 := fun input => do
  let (raw, rest) ← take 2 input
  return (UInt16.ofNat (beNat raw), rest)

def beU32 : Parser UInt32 := fun input => do
  let (raw, rest) ← take 4 input
  return (UInt32.ofNat (beNat raw), rest)

def beU64 : Parser UInt64 := fun input => do
  let (raw, rest) ← take 8 input
  return (UInt64.ofNat (beNat raw), rest)

def beI32 : Parser Int32 := fun input => do
  let (value, rest) ← beU32 input
  return (value.toInt32, rest)

def beI64 : Parser Int64 := fun input => do
  let (value, rest) ← beU64 input
  return (value.toInt64, rest)

/-- `tag!`: too short an input is wrong only if it differs already. -/
def tag (expected : Bytes) : Parser Bytes := fun input =>
  if input.take expected.length = expected.take input.length then
    if expected.length ≤ input.length then .ok (expected, input.drop expected.length)
    else .err .incomplete
  else .err .error

def eof : Parser Bytes := fun input => if input = [] then .ok ([], []) else .err .error

def countFixed (parser : Parser α) : (count : Nat) → Parser (Vector α count)
  | 0, input => .ok (#v[], input)
  | count + 1, input => do
    let (front, rest) ← countFixed parser count input
    let (last, rest) ← parser rest
    return (front.push last, rest)

def opt (parser : Parser α) : Parser (Option α) := fun input =>
  match parser input with
  | .ok (a, rest) => .ok (some a, rest)
  | .err .error => .ok (none, input)
  | .err .incomplete => .err .incomplete
  | .panic => .panic
  | .unfinished => .unfinished

def alt (first second : Parsed α) : Parsed α :=
  match first with
  | .err .error => second
  | other => other

theorem take_settled (size : Nat) (input : Bytes) : (take size input).Settled :=
  settled_ite (fun _ => settled_ok _) fun _ => settled_err _

theorem be_u16_settled (input : Bytes) : (beU16 input).Settled :=
  settled_map (take_settled 2 input)

theorem be_u32_settled (input : Bytes) : (beU32 input).Settled :=
  settled_map (take_settled 4 input)

theorem be_u64_settled (input : Bytes) : (beU64 input).Settled :=
  settled_map (take_settled 8 input)

theorem be_i32_settled (input : Bytes) : (beI32 input).Settled :=
  settled_map (be_u32_settled input)

end Parsers

section Writers

def writeU16 (x : UInt16) : Bytes := beBytes 2 x.toNat

def writeU32 (x : UInt32) : Bytes := beBytes 4 x.toNat

def writeU64 (x : UInt64) : Bytes := beBytes 8 x.toNat

def writeI32 (x : Int32) : Bytes := writeU32 x.toUInt32

def writeI64 (x : Int64) : Bytes := writeU64 x.toUInt64

@[simp] theorem write_u64_length (x : UInt64) : (writeU64 x).length = 8 := be_bytes_length 8 _

@[simp] theorem write_u16_length (x : UInt16) : (writeU16 x).length = 2 := be_bytes_length 2 _

@[simp] theorem write_u32_length (x : UInt32) : (writeU32 x).length = 4 := be_bytes_length 4 _

theorem write_u32_small {x : UInt32} (small : x.toNat < 2 ^ 24) : ∃ rest, writeU32 x = 0 :: rest := by
  have high : x.toNat / 256 / 256 / 256 % 256 = 0 := by omega
  simp [writeU32, beBytes, high]

theorem take_append {size : Nat} {raw : Bytes} (rest : Bytes) (whole : raw.length = size) :
    take size (raw ++ rest) = .ok (raw, rest) := by
  have enough : size ≤ (raw ++ rest).length := by
    rw [List.length_append]
    omega
  rw [take, if_pos enough, List.take_left' whole, List.drop_left' whole]

variable {input : Bytes}

theorem take_short {size : Nat} (short : input.length < size) :
    take size input = .err .incomplete := if_neg (by omega)

@[simp] theorem be_u8_cons (c : UInt8) (rest : Bytes) : beU8 (c :: rest) = .ok (c, rest) := by
  have value : UInt8.ofNat (beNat [c]) = c := by
    simp [beNat]
  unfold beU8
  rw [show c :: rest = [c] ++ rest from rfl, take_append rest (show [c].length = 1 from rfl),
    ok_bind]
  simp only [value, pure_eq]

@[simp] theorem be_u8_nil : beU8 [] = .err .incomplete := rfl

@[simp] theorem be_u16_write (x : UInt16) (rest : Bytes) :
    beU16 (writeU16 x ++ rest) = .ok (x, rest) := by
  unfold beU16
  rw [take_append rest (write_u16_length x), ok_bind]
  simp only [writeU16, be_nat_bytes, pure_eq]
  rw [Nat.mod_eq_of_lt (show x.toNat < 256 ^ 2 from x.toNat_lt), UInt16.ofNat_toNat]

@[simp] theorem be_u32_write (x : UInt32) (rest : Bytes) :
    beU32 (writeU32 x ++ rest) = .ok (x, rest) := by
  unfold beU32
  rw [take_append rest (write_u32_length x), ok_bind]
  simp only [writeU32, be_nat_bytes, pure_eq]
  rw [Nat.mod_eq_of_lt (show x.toNat < 256 ^ 4 from x.toNat_lt), UInt32.ofNat_toNat]

@[simp] theorem be_u64_write (x : UInt64) (rest : Bytes) :
    beU64 (writeU64 x ++ rest) = .ok (x, rest) := by
  unfold beU64
  rw [take_append rest (write_u64_length x), ok_bind]
  simp only [writeU64, be_nat_bytes, pure_eq]
  rw [Nat.mod_eq_of_lt (show x.toNat < 256 ^ 8 from x.toNat_lt), UInt64.ofNat_toNat]

@[simp] theorem be_i32_write (x : Int32) (rest : Bytes) : beI32 (writeI32 x ++ rest) = .ok (x, rest) := by
  rw [beI32, writeI32, be_u32_write, ok_bind]
  rfl

@[simp] theorem be_i64_write (x : Int64) (rest : Bytes) : beI64 (writeI64 x ++ rest) = .ok (x, rest) := by
  rw [beI64, writeI64, be_u64_write, ok_bind]
  rfl

theorem tag_append (expected rest : Bytes) : tag expected (expected ++ rest) = .ok (expected, rest) := by
  have whole : expected.take (expected ++ rest).length = expected :=
    List.take_of_length_le (by rw [List.length_append]; omega)
  have inside : expected.length ≤ (expected ++ rest).length := by
    rw [List.length_append]
    omega
  rw [tag, List.take_left, whole, if_pos rfl, if_pos inside, List.drop_left]

theorem tag_other {expected front : Bytes} (rest : Bytes) (size : front.length = expected.length)
    (other : front ≠ expected) : tag expected (front ++ rest) = .err .error := by
  have cut : (front ++ rest).take expected.length = front := List.take_left' size
  have whole : expected.take (front ++ rest).length = expected :=
    List.take_of_length_le (by rw [List.length_append]; omega)
  rw [tag, cut, whole, if_neg other]

theorem count_fixed_be_u8 {count : Nat} (bytes : Vector UInt8 count) (rest : Bytes) :
    countFixed beU8 count (bytes.toList ++ rest) = .ok (bytes, rest) := by
  induction count generalizing rest with
  | zero =>
    rw [show bytes = #v[] from Vector.eq_empty]
    rfl
  | succ count ih =>
    have split : bytes.pop.push bytes.back = bytes := Vector.push_pop_back bytes
    have parts : bytes.toList = bytes.pop.toList ++ [bytes.back] := by
      rw [← Vector.toList_push, split]
    rw [parts, List.append_assoc, countFixed, ih bytes.pop ([bytes.back] ++ rest), ok_bind]
    simp [split]

theorem be_u16_short (short : input.length < 2) : beU16 input = .err .incomplete := by
  rw [beU16, take_short short, err_bind]

theorem be_u32_short (short : input.length < 4) : beU32 input = .err .incomplete := by
  rw [beU32, take_short short, err_bind]

theorem be_bytes_split {width : Nat} (enough : width ≤ input.length) :
    ∃ n rest, n < 256 ^ width ∧ input = beBytes width n ++ rest := by
  have size : (input.take width).length = width := by
    rw [List.length_take]
    omega
  refine ⟨beNat (input.take width), input.drop width, ?_, ?_⟩
  · have bound := be_nat_lt (input.take width)
    rwa [size] at bound
  · have back := be_bytes_nat (input.take width)
    rw [size] at back
    rw [back, List.take_append_drop]

theorem be_u16_split (enough : 2 ≤ input.length) : ∃ x rest, input = writeU16 x ++ rest := by
  obtain ⟨n, rest, small, split⟩ := be_bytes_split enough
  refine ⟨UInt16.ofNat n, rest, ?_⟩
  rw [writeU16, UInt16.toNat_ofNat_of_lt' small, split]

theorem be_u32_split (enough : 4 ≤ input.length) : ∃ x rest, input = writeU32 x ++ rest := by
  obtain ⟨n, rest, small, split⟩ := be_bytes_split enough
  refine ⟨UInt32.ofNat n, rest, ?_⟩
  rw [writeU32, UInt32.toNat_ofNat_of_lt' small, split]

/-- A number that is followed by at least `size` bytes. -/
theorem be_u32_then_short {size : Nat} {next : UInt32 × Bytes → Parsed α}
    (rest : ∀ x tail, tail.length < size → next (x, tail) = .err .incomplete)
    (short : input.length < 4 + size) : (beU32 input >>= next) = .err .incomplete := by
  by_cases enough : 4 ≤ input.length
  · obtain ⟨x, tail, rfl⟩ := be_u32_split enough
    rw [List.length_append, write_u32_length] at short
    rw [be_u32_write, ok_bind]
    exact rest x tail (by omega)
  · rw [be_u32_short (by omega), err_bind]

@[simp] theorem opt_ok {parser : Parser α} {rest : Bytes} {a : α}
    (same : parser input = .ok (a, rest)) : opt parser input = .ok (some a, rest) := by
  simp [opt, same]

variable (second : Parsed α)

theorem alt_decided {first : Parsed α} (decided : first ≠ .err .error) : alt first second = first := by
  unfold alt
  split
  · exact absurd rfl decided
  · rfl

@[simp] theorem alt_error : alt (.err .error) second = second := rfl
@[simp] theorem alt_incomplete : alt (.err .incomplete) second = .err .incomplete :=
  rfl
@[simp] theorem alt_ok (a : α) (second : Parsed α) : alt (.ok a) second = .ok a := rfl
@[simp] theorem alt_panic : alt .panic second = .panic := rfl

end Writers

end NomParse
