import Mathlib.Data.List.GetD
import Bittorrent.Lib.BitPrefix
import Bittorrent.Lib.Bytes

/-!
Twenty-byte hashes, their exclusive or, and the bit iterator. The iterator shifts a byte and
compares the result with 1 without masking it, so only the first set bit of a byte is reported.
-/
namespace UtilSha
open Rust BitPrefix

def shaHashLen : Nat := 20

structure ShaHash where
  hash : Vector UInt8 shaHashLen
  deriving DecidableEq, Repr

def fromHash (hash : Bytes) : Option ShaHash :=
  if size : hash.length = shaHashLen then some ⟨⟨hash.toArray, by simpa using size⟩⟩ else none

def ShaHash.asRef (h : ShaHash) : Bytes := h.hash.toList

def bitXor (a b : ShaHash) : ShaHash := ⟨Vector.zipWith (fun dst src => src ^^^ dst) a.hash b.hash⟩

/-- The order of the byte arrays. -/
instance : Ord ShaHash := ⟨fun a b => compare a.asRef b.asRef⟩

inductive BitRep where
  | set | unset
  deriving DecidableEq, Repr

/-- What `Bits::next` returns at a bit position. -/
def bitRep (bytes : Bytes) (bitPos : Nat) : BitRep :=
  if bytes.getD (bitPos / 8) 0 >>> UInt8.ofNat (7 - bitPos % 8) = 1 then .set else .unset

def ShaHash.bits (h : ShaHash) : List BitRep :=
  (List.range (h.asRef.length * 8)).map (bitRep h.asRef)

def byteBits (x : UInt8) : List Bool := (List.range 8).map fun i => x.toNat.testBit (7 - i)

def ShaHash.toBits (h : ShaHash) : List Bool := h.asRef.flatMap byteBits

theorem byte_bits_length (x : UInt8) : (byteBits x).length = 8 := by simp [byteBits]

theorem byte_bits_xor (x y : UInt8) :
    byteBits (x ^^^ y) = List.zipWith xor (byteBits x) (byteBits y) := by
  simp [byteBits, List.range_succ, Nat.testBit_xor]

theorem byte_bits_injective {x y : UInt8} (same : byteBits x = byteBits y) : x = y := by
  rw [← UInt8.toNat_inj]
  apply Nat.eq_of_testBit_eq
  intro i
  by_cases inside : i < 8
  · have item := congrArg (fun bits => bits[7 - i]?) same
    have place : 7 - (7 - i) = i := by omega
    simpa [byteBits, show 7 - i < 8 by omega, place] using item
  · have small : ∀ z : UInt8, z.toNat < 2 ^ i := by
      intro z
      calc z.toNat < 2 ^ 8 := z.toNat_lt
        _ ≤ 2 ^ i := Nat.pow_le_pow_right (by omega) (by omega)
    rw [Nat.testBit_lt_two_pow (small x), Nat.testBit_lt_two_pow (small y)]

theorem flat_bits_length (bytes : Bytes) : (bytes.flatMap byteBits).length = bytes.length * 8 := by
  induction bytes with
  | nil => rfl
  | cons x rest ih =>
    rw [List.flatMap_cons, List.length_append, byte_bits_length, ih, List.length_cons]
    omega

theorem flat_bits_injective {a b : Bytes} (size : a.length = b.length)
    (same : a.flatMap byteBits = b.flatMap byteBits) : a = b := by
  induction a generalizing b with
  | nil => exact (List.length_eq_zero_iff.mp size.symm).symm
  | cons x a ih =>
    cases b with
    | nil => simp at size
    | cons y b =>
      rw [List.flatMap_cons, List.flatMap_cons] at same
      obtain ⟨first, rest⟩ :=
        List.append_inj same ((byte_bits_length x).trans (byte_bits_length y).symm)
      rw [byte_bits_injective first, ih (Nat.succ.inj size) rest]

theorem flat_bits_xor {a b : Bytes} (size : a.length = b.length) :
    (List.zipWith (fun dst src => src ^^^ dst) a b).flatMap byteBits =
      List.zipWith xor (a.flatMap byteBits) (b.flatMap byteBits) := by
  induction a generalizing b with
  | nil => rfl
  | cons x a ih =>
    cases b with
    | nil => simp at size
    | cons y b =>
      simp only [List.zipWith_cons_cons, List.flatMap_cons]
      rw [List.zipWith_append ((byte_bits_length x).trans (byte_bits_length y).symm),
        ih (Nat.succ.inj size), UInt8.xor_comm, byte_bits_xor]

def byteReps (x : UInt8) : List BitRep :=
  (List.range 8).map fun i => if x >>> UInt8.ofNat (7 - i) = 1 then .set else .unset

theorem bits_by_byte (bytes : Bytes) :
    (List.range (bytes.length * 8)).map (bitRep bytes) = bytes.flatMap byteReps := by
  induction bytes with
  | nil => rfl
  | cons x rest ih =>
    have size : (x :: rest).length * 8 = 8 + rest.length * 8 := by
      rw [List.length_cons]
      omega
    rw [List.flatMap_cons, ← ih, size, List.range_add, List.map_append, List.map_map]
    have first : (List.range 8).map (bitRep (x :: rest)) = byteReps x := rfl
    rw [first]
    congr 1
    apply List.map_congr_left
    intro i _
    simp [bitRep, show (8 + i) / 8 = i / 8 + 1 by omega]

/-- Up to the first set bit the unmasked shift is right, and behind it nobody looks. -/
theorem byte_reps_leading (x : UInt8) :
    ((byteReps x).takeWhile (· = .unset)).length = ((byteBits x).takeWhile (! ·)).length := by
  have checked : ∀ n : Fin 256, ((byteReps (UInt8.ofFin n)).takeWhile (· = .unset)).length =
      ((byteBits (UInt8.ofFin n)).takeWhile (! ·)).length := by decide +kernel
  exact checked x.toFin

theorem bytes_leading (bytes : Bytes) :
    ((bytes.flatMap byteReps).takeWhile (· = .unset)).length =
      ((bytes.flatMap byteBits).takeWhile (! ·)).length := by
  induction bytes with
  | nil => rfl
  | cons x rest ih =>
    have first := byte_reps_leading x
    have size : (byteReps x).length = (byteBits x).length := by simp [byteReps, byteBits]
    rw [List.flatMap_cons, List.flatMap_cons, List.takeWhile_append, List.takeWhile_append]
    by_cases through : ((byteBits x).takeWhile (! ·)).length = (byteBits x).length
    · rw [if_pos through, if_pos (by rw [first, size, through])]
      simp only [List.length_append, size, ih]
    · rw [if_neg through, if_neg (by rw [first, size]; exact through)]
      exact first

theorem as_ref_length (h : ShaHash) : h.asRef.length = shaHashLen := by simp [ShaHash.asRef]

theorem from_hash_as_ref (h : ShaHash) : fromHash h.asRef = some h := by
  unfold fromHash
  rw [dif_pos (as_ref_length h)]
  obtain ⟨⟨⟨bytes⟩, size⟩⟩ := h
  rfl

theorem as_ref_injective : Function.Injective ShaHash.asRef := by
  intro a b same
  have read := from_hash_as_ref a
  rw [same, from_hash_as_ref] at read
  exact (Option.some.inj read).symm

theorem to_bits_length (h : ShaHash) : h.toBits.length = 160 := by
  unfold ShaHash.toBits
  rw [flat_bits_length, as_ref_length]
  rfl

theorem to_bits_injective {a b : ShaHash} (same : a.toBits = b.toBits) : a = b := by
  have bytes := flat_bits_injective ((as_ref_length a).trans (as_ref_length b).symm) same
  cases a
  cases b
  exact congrArg ShaHash.mk (Vector.toList_inj.mp bytes)

theorem to_bits_xor (a b : ShaHash) : (bitXor a b).toBits = List.zipWith xor a.toBits b.toBits := by
  have bytes : (bitXor a b).asRef =
      List.zipWith (fun dst src => src ^^^ dst) a.asRef b.asRef := by
    simp [ShaHash.asRef, bitXor]
  unfold ShaHash.toBits
  rw [bytes, flat_bits_xor ((as_ref_length a).trans (as_ref_length b).symm)]

/-- Counting the leading unset items of an exclusive or counts the bits two hashes share. -/
theorem leading_bits_xor (a b : ShaHash) :
    ((bitXor a b).bits.takeWhile (· = .unset)).length = agree a.toBits b.toBits := by
  unfold ShaHash.bits
  rw [bits_by_byte, bytes_leading, agree_xor, ← to_bits_xor]
  rfl

/-- At most one bit of a byte is set. -/
def SingleBit (x : UInt8) : Prop :=
  ∀ i j : Fin 8, x.toNat.testBit i = true → x.toNat.testBit j = true → i = j

instance (x : UInt8) : Decidable (SingleBit x) := inferInstanceAs (Decidable (∀ _, _))

theorem byte_reps_iff (x : UInt8) :
    (∀ k : Fin 8, x >>> UInt8.ofNat (7 - k) = 1 ↔ x.toNat.testBit (7 - k) = true) ↔ SingleBit x := by
  have checked : ∀ n : Fin 256, (∀ k : Fin 8, UInt8.ofFin n >>> UInt8.ofNat (7 - k) = 1 ↔
      (UInt8.ofFin n).toNat.testBit (7 - k) = true) ↔ SingleBit (UInt8.ofFin n) := by decide +kernel
  exact checked x.toFin

theorem bits_item (h : ShaHash) {i : Nat} (inside : i < 160) : h.bits[i]? = some .set ↔
    h.asRef.getD (i / 8) 0 >>> UInt8.ofNat (7 - i % 8) = 1 := by
  have size : i < h.asRef.length * 8 := by
    rw [as_ref_length]
    exact inside
  simp [ShaHash.bits, bitRep, size]

/-- The items are the bits of the hash exactly if no byte has two bits set. -/
theorem bits_faithful_iff (h : ShaHash) :
    (h.bits.length = 160 ∧ ∀ i < 160, h.bits[i]? = some .set ↔
      (h.asRef.getD (i / 8) 0).toNat.testBit (7 - i % 8) = true) ↔ ∀ x ∈ h.asRef, SingleBit x := by
  constructor
  · rintro ⟨_, items⟩ x member
    obtain ⟨j, inside, rfl⟩ := List.getElem_of_mem member
    have bound := inside
    rw [as_ref_length, shaHashLen] at bound
    apply (byte_reps_iff _).mp
    intro k
    have place : (j * 8 + k) / 8 = j ∧ (j * 8 + k) % 8 = k := by omega
    have item := items (j * 8 + k) (by omega)
    rw [bits_item h (by omega), place.1, place.2, List.getD_eq_getElem _ _ inside] at item
    exact item
  · intro single
    refine ⟨by simp [ShaHash.bits, as_ref_length, shaHashLen], fun i inside => ?_⟩
    have bound : i / 8 < h.asRef.length := by
      rw [as_ref_length, shaHashLen]
      omega
    rw [bits_item h inside, List.getD_eq_getElem _ _ bound]
    exact (byte_reps_iff _).mpr (single _ (List.getElem_mem bound)) ⟨i % 8, by omega⟩

/-- The second bit of the byte 11000000 is reported as unset. -/
theorem second_bit_unset : ¬ ((⟨Vector.replicate shaHashLen 192⟩ : ShaHash).bits[1]? = some .set ↔
    (192 : UInt8).toNat.testBit (7 - 1 % 8) = true) := by
  decide +kernel

end UtilSha
