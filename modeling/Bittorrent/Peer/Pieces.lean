import Bittorrent.Peer.Message

/-!
The pieces that a bit field announces. The iterator looks at one bit after another, calls itself on one
that is not set, and hands out a have message for one that is.
-/
namespace PeerPieces
open Rust PeerMessage
open List hiding iter

structure BitFieldIter where
  bytes : Bytes
  curBit : Nat

def iter (msg : BitFieldMessage) : BitFieldIter := ⟨msg.bytes, 0⟩

namespace BitFieldIter

def advanced (it : BitFieldIter) : BitFieldIter := { it with curBit := it.curBit + 1 }

def left (it : BitFieldIter) : Nat := 8 * it.bytes.length - it.curBit

theorem advanced_left {it : BitFieldIter} {byte : UInt8}
    (found : it.bytes[it.curBit / 8]? = some byte) : it.advanced.left < it.left := by
  have inside := (List.getElem?_eq_some_iff.mp found).1
  simp only [left, advanced]
  omega

/-- The message and the iterator as it is left behind. -/
def next (it : BitFieldIter) : Option HaveMessage × BitFieldIter :=
  match _ : it.bytes[it.curBit / 8]? with
  | none => (none, it)
  | some byte =>
    if (byte <<< UInt8.ofNat (it.curBit % 8)) >>> 7 = 1 then (some ⟨.ofNat it.curBit⟩, it.advanced)
    else it.advanced.next
termination_by it.left
decreasing_by exact advanced_left ‹_›

theorem next_left {it later : BitFieldIter} {msg : HaveMessage} (some_ : it.next = (some msg, later)) :
    later.left < it.left := by
  fun_induction next it with
  | case1 => cases some_
  | case2 it byte found set =>
    cases some_
    exact advanced_left found
  | case3 it byte found unset ih => exact (ih some_).trans (advanced_left found)

/-- What a loop over the iterator sees. -/
def collect (it : BitFieldIter) : List HaveMessage :=
  match _ : it.next with
  | (none, _) => []
  | (some msg, later) => msg :: later.collect
termination_by it.left
decreasing_by exact next_left ‹_›

end BitFieldIter

/-- The bit of a piece, the most significant of a byte first. -/
def announced (bytes : Bytes) (i : Nat) : Bool := (bytes.getD (i / 8) 0).toNat.testBit (7 - i % 8)

theorem shifted_iff (byte : UInt8) {k : Nat} (inside : k < 8) :
    (byte <<< UInt8.ofNat k) >>> 7 = 1 ↔ byte.toNat.testBit (7 - k) = true := by
  have checked : ∀ (n : Fin 256) (k : Fin 8), (UInt8.ofFin n <<< UInt8.ofNat k) >>> 7 = 1 ↔
      (UInt8.ofFin n).toNat.testBit (7 - k) = true := by decide +kernel
  exact checked byte.toFin ⟨k, inside⟩

theorem collect_eq (it : BitFieldIter) : it.collect =
    match it.next with
    | (none, _) => []
    | (some msg, later) => msg :: later.collect := by
  rw [BitFieldIter.collect]
  split <;> simp [*]

theorem next_eq (it : BitFieldIter) : it.next =
    if it.curBit < 8 * it.bytes.length then
      if announced it.bytes it.curBit then (some ⟨.ofNat it.curBit⟩, it.advanced) else it.advanced.next
    else (none, it) := by
  rw [BitFieldIter.next]
  split
  next outside =>
    rw [List.getElem?_eq_none_iff] at outside
    rw [if_neg (by omega)]
  next byte found =>
    have inside : it.curBit < 8 * it.bytes.length := by
      have := (List.getElem?_eq_some_iff.mp found).1
      omega
    rw [if_pos inside, announced, getD_eq_getElem?_getD, found]
    simp only [shifted_iff byte (Nat.mod_lt it.curBit (by decide)), Option.getD_some]

theorem collect_rest (it : BitFieldIter) : it.collect =
    ((List.range' it.curBit it.left).filter (announced it.bytes)).map fun i => ⟨.ofNat i⟩ := by
  induction size : it.left generalizing it with
  | zero =>
    have outside : ¬ it.curBit < 8 * it.bytes.length := by
      rw [BitFieldIter.left] at size
      omega
    rw [collect_eq, next_eq, if_neg outside]
    rfl
  | succ n ih =>
    have inside : it.curBit < 8 * it.bytes.length := by
      rw [BitFieldIter.left] at size
      omega
    have later := ih it.advanced (by simp only [BitFieldIter.left, BitFieldIter.advanced] at size ⊢; omega)
    rw [collect_eq, next_eq, if_pos inside, List.range'_succ, filter_cons]
    by_cases set : announced it.bytes it.curBit = true
    · rw [if_pos set, if_pos set, map_cons]
      exact congrArg _ later
    · rw [if_neg set, if_neg set, ← collect_eq]
      exact later

/-- A bit field hands out its set bits, each once and in increasing order. -/
theorem bit_field_pieces (msg : BitFieldMessage) (short : msg.bytes.length < 2 ^ 29) :
    ((iter msg).collect.map fun item => item.pieceIndex.toNat) =
      (List.range (8 * msg.bytes.length)).filter (announced msg.bytes) := by
  rw [collect_rest, map_map, range_eq_range']
  refine (map_congr_left ?_).trans (map_id _)
  intro i member
  obtain ⟨_, inside⟩ := mem_range'_1.mp (mem_of_mem_filter member)
  have small : i < 2 ^ 32 := by
    simp only [iter, BitFieldIter.left] at inside
    omega
  exact UInt32.toNat_ofNat_of_lt' small

theorem three_bits_announced : ((iter ⟨[0x80, 0, 0x11]⟩).collect.map fun item => item.pieceIndex.toNat) =
    [0, 19, 23] :=
  (bit_field_pieces ⟨[0x80, 0, 0x11]⟩ (by decide)).trans (by decide)

end PeerPieces
