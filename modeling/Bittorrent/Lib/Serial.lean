import Mathlib.Data.Nat.Notation

/-!
Sixteen-bit serial numbers. `at16 base k` is the number `k` steps after `base`; two of them are
told apart as long as they are fewer than `2 ^ 16` steps apart.
-/
namespace Serial

def at16 (base : UInt16) (k : Nat) : UInt16 := base + UInt16.ofNat k

theorem at16_toNat (base : UInt16) (k : Nat) :
    (at16 base k).toNat = (base.toNat + k) % 65536 := by
  unfold at16
  rw [UInt16.toNat_add, UInt16.toNat_ofNat']
  omega

theorem at16_zero (base : UInt16) : at16 base 0 = base := by
  rw [← UInt16.toNat_inj, at16_toNat]
  have small := base.toNat_lt
  omega

theorem at16_add_one (base : UInt16) (k : Nat) : at16 base k + 1 = at16 base (k + 1) := by
  rw [← UInt16.toNat_inj, UInt16.toNat_add, at16_toNat, at16_toNat]
  have one : (1 : UInt16).toNat = 1 := rfl
  rw [one]
  omega

variable {base : UInt16}

variable {i j : Nat}

theorem at16_inj : at16 base i = at16 base j ↔ i % 65536 = j % 65536 := by
  rw [← UInt16.toNat_inj, at16_toNat, at16_toNat]
  omega

/-- Numbers less than a full turn apart are equal only if their positions are. -/
theorem at16_near (below : i < j + 65536) (above : j < i + 65536) :
    at16 base i = at16 base j ↔ i = j := by
  rw [at16_inj]
  omega

theorem at16_follows : at16 base i - at16 base j = 1 ↔ i % 65536 = (j + 1) % 65536 := by
  rw [← UInt16.toNat_inj, UInt16.toNat_sub, at16_toNat, at16_toNat]
  have one : (1 : UInt16).toNat = 1 := rfl
  rw [one]
  omega

theorem at16_next (next : (at16 base i).toNat + 1 = (at16 base j).toNat) :
    j % 65536 = (i + 1) % 65536 := by
  rw [at16_toNat, at16_toNat] at next
  omega

end Serial
