/-
**Aligned addresses.**

Rounding a machine word down to a multiple of a power of two, written as the conjunction with the
complement of a low mask.  This module relates the bitwise form to the arithmetic one and to the
numbering of the aligned groups, for words of any width.

* `Alignment.alignDown` — clear the low bits;
* `Alignment.toNat_alignDown` — the arithmetic form of rounding down;
* `Alignment.alignDown_eq_iff` — two words round to the same group exactly when their group numbers
  agree;
* `Alignment.alignDown_alignDown_of_le` — rounding to a finer and then to a coarser group.
-/

import Mathlib.Data.Nat.Basic
import Mathlib.Tactic.Ring

set_option relaxedAutoImplicit false
set_option autoImplicit false

namespace Alignment

variable {w : ℕ}

/-- Clear in `a` the bits of `size - 1`. -/
def alignDown (size : ℕ) (a : BitVec w) : BitVec w := a &&& ~~~(BitVec.ofNat w (size - 1))

@[simp] theorem alignDown_alignDown (size : ℕ) (a : BitVec w) :
    alignDown size (alignDown size a) = alignDown size a := by
  rw [alignDown, alignDown, BitVec.and_assoc, BitVec.and_self]

/-- A word is the sum of its low and its high part. -/
theorem toNat_and_add_toNat_and_not (a m : BitVec w) :
    (a &&& m).toNat + (a &&& ~~~m).toNat = a.toNat := by
  have hdisj : (a &&& m) &&& (a &&& ~~~m) = 0#w := by
    ext i hi
    simp only [BitVec.getElem_and, BitVec.getElem_not, BitVec.getElem_zero]
    cases a[i] <;> cases m[i] <;> rfl
  have hor : (a &&& m) ||| (a &&& ~~~m) = a := by
    ext i hi
    simp only [BitVec.getElem_and, BitVec.getElem_or, BitVec.getElem_not]
    cases a[i] <;> cases m[i] <;> rfl
  have hadd : (a &&& m) + (a &&& ~~~m) = a := by
    rw [BitVec.add_eq_or_of_and_eq_zero _ _ hdisj, hor]
  have hle : (a &&& m).toNat + (a &&& ~~~m).toNat < 2 ^ w := by
    rw [← BitVec.toNat_add_of_and_eq_zero hdisj]
    exact BitVec.isLt _
  rw [← Nat.mod_eq_of_lt hle, ← BitVec.toNat_add, hadd]

/-- Rounding down to a group of `2 ^ k`. -/
theorem toNat_alignDown {k : ℕ} (hk : k ≤ w) (a : BitVec w) :
    (alignDown (2 ^ k) a).toNat = a.toNat / 2 ^ k * 2 ^ k := by
  have hsplit := toNat_and_add_toNat_and_not a (BitVec.ofNat w (2 ^ k - 1))
  have hmask : (BitVec.ofNat w (2 ^ k - 1)).toNat = 2 ^ k - 1 := by
    rw [BitVec.toNat_ofNat]
    have hpow : 2 ^ k ≤ 2 ^ w := Nat.pow_le_pow_right (by omega) hk
    have hpos : 0 < 2 ^ k := Nat.two_pow_pos k
    exact Nat.mod_eq_of_lt (by omega)
  have hlow : (a &&& BitVec.ofNat w (2 ^ k - 1)).toNat = a.toNat % 2 ^ k := by
    rw [BitVec.toNat_and, hmask, Nat.and_two_pow_sub_one_eq_mod]
  have hdiv := Nat.div_add_mod a.toNat (2 ^ k)
  have hcomm := Nat.mul_comm (a.toNat / 2 ^ k) (2 ^ k)
  rw [alignDown]
  omega

/-- Two words are in the same group exactly when their group numbers agree. -/
theorem alignDown_eq_iff {k : ℕ} (hk : k ≤ w) (a b : BitVec w) :
    alignDown (2 ^ k) a = alignDown (2 ^ k) b ↔ a.toNat / 2 ^ k = b.toNat / 2 ^ k := by
  have hpos : 0 < 2 ^ k := Nat.two_pow_pos k
  rw [← BitVec.toNat_inj, toNat_alignDown hk, toNat_alignDown hk]
  constructor
  · exact Nat.eq_of_mul_eq_mul_right hpos
  · intro h
    rw [h]

/-- The group number of a rounded word. -/
theorem toNat_alignDown_div {k : ℕ} (hk : k ≤ w) (a : BitVec w) :
    (alignDown (2 ^ k) a).toNat / 2 ^ k = a.toNat / 2 ^ k := by
  rw [toNat_alignDown hk, Nat.mul_div_cancel _ (Nat.two_pow_pos k)]

/-- Rounding to a finer group first does not change the coarser group. -/
theorem alignDown_alignDown_of_le {j k : ℕ} (hjk : j ≤ k) (hk : k ≤ w) (a : BitVec w) :
    alignDown (2 ^ k) (alignDown (2 ^ j) a) = alignDown (2 ^ k) a := by
  rw [alignDown_eq_iff hk]
  obtain ⟨d, rfl⟩ := Nat.exists_eq_add_of_le hjk
  rw [pow_add, ← Nat.div_div_eq_div_mul, ← Nat.div_div_eq_div_mul,
    toNat_alignDown_div (by omega)]

end Alignment
