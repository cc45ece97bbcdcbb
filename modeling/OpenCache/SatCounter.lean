/-
`GenericSatCounter<T>`: an n bit saturating counter.

A counter holds its value in an unsigned type `T` and stays between 0 and `maxVal`.  The operators
that take an amount get it as a `long long`, and narrow it to `T` before they compare it with the
distance to the bound; `<<=` shifts in `T` before it compares.  What the narrowing and the shift
lose is lost for the comparison too.

* `OpenCache.GenericSatCounter`, `OpenCache.GenericSatCounter.new` — a counter, and the constructor;
* `OpenCache.GenericSatCounter.Op`, `OpenCache.GenericSatCounter.apply` — the operators, as the code
  computes them;
* `OpenCache.GenericSatCounter.Op.exact`, `OpenCache.GenericSatCounter.clamp` — what they should
  compute;
* `OpenCache.GenericSatCounter.InRange.apply` — every operator keeps the counter between 0 and
  `maxVal`;
* `OpenCache.GenericSatCounter.apply_eq_clamp_iff` — **when an operator clamps the exact result**;
* `OpenCache.GenericSatCounter.apply_ne_clamp` — amounts and a shift that are lost.
-/

import Mathlib.Data.BitVec
import Mathlib.Algebra.Order.Group.Int
import Mathlib.Tactic.Ring

set_option relaxedAutoImplicit false
set_option autoImplicit false

namespace OpenCache

/-! ### The counter -/

/-- The `long long` amounts whose negation is a `long long`. -/
structure Amount where
  value : ℤ
  lower : -2 ^ 63 < value
  upper : value < 2 ^ 63

namespace Amount

/-- `-value`. -/
def neg (v : Amount) : Amount := ⟨-v.value, neg_lt_neg v.upper, by have := v.lower; omega⟩

/-- The negation of a negative amount is not negative. -/
theorem neg_nonneg {v : Amount} (h : ¬0 ≤ v.value) : 0 ≤ v.neg.value := by
  change 0 ≤ -v.value
  omega

/-- `(T)value`. -/
def narrow (v : Amount) (w : ℕ) : BitVec w := BitVec.ofInt w v.value

/-- Narrowing keeps the low bits. -/
theorem toNat_narrow {v : Amount} (h : 0 ≤ v.value) (w : ℕ) :
    (v.narrow w).toNat = v.value.natAbs % 2 ^ w := by
  obtain ⟨n, hn⟩ := Int.eq_ofNat_of_zero_le h
  rw [narrow, hn, BitVec.ofInt_natCast, BitVec.toNat_ofNat, Int.natAbs_natCast]

end Amount

/-- A counter in an unsigned type of `w` bits. -/
structure GenericSatCounter (w : ℕ) where
  initialVal : BitVec w
  maxVal : BitVec w
  counter : BitVec w

namespace GenericSatCounter

variable {w : ℕ}

/-- `(1ULL << bits) - 1`, as a `T`. -/
def maxValOf (w bits : ℕ) : BitVec w := (((1 : BitVec 64) <<< bits) - 1).setWidth w

/-- `GenericSatCounter(bits, initial_val)`. -/
def new (bits : ℕ) (initialVal : BitVec w) : GenericSatCounter w :=
  ⟨initialVal, maxValOf w bits, initialVal⟩

/-- `operator++`, before its operand or after it: the two differ in what they return. -/
def increment (c : GenericSatCounter w) : GenericSatCounter w :=
  if c.counter < c.maxVal then { c with counter := c.counter + 1 } else c

/-- `operator--`, before its operand or after it. -/
def decrement (c : GenericSatCounter w) : GenericSatCounter w :=
  if 0 < c.counter then { c with counter := c.counter - 1 } else c

/-- `operator>>=`. -/
def shiftRightAssign (c : GenericSatCounter w) (shift : ℕ) : GenericSatCounter w :=
  { c with counter := c.counter >>> shift }

/-- `operator<<=`. -/
def shiftLeftAssign (c : GenericSatCounter w) (shift : ℕ) : GenericSatCounter w :=
  let c := { c with counter := c.counter <<< shift }
  if c.maxVal < c.counter then { c with counter := c.maxVal } else c

/-- The branch of `operator+=` for an amount that is not negative, with `(T)value`. -/
def addNarrowed (c : GenericSatCounter w) (value : BitVec w) : GenericSatCounter w :=
  if value ≤ c.maxVal - c.counter then { c with counter := c.counter + value }
  else { c with counter := c.maxVal }

/-- The branch of `operator-=` for an amount that is not negative, with `(T)value`. -/
def subNarrowed (c : GenericSatCounter w) (value : BitVec w) : GenericSatCounter w :=
  if value < c.counter then { c with counter := c.counter - value }
  else { c with counter := 0 }

/-- `operator+=`.  For a negative amount it is `*this -= -value`, whose amount is not negative. -/
def addAssign (c : GenericSatCounter w) (value : Amount) : GenericSatCounter w :=
  if 0 ≤ value.value then c.addNarrowed (value.narrow w) else c.subNarrowed (value.neg.narrow w)

/-- `operator-=`.  For a negative amount it is `*this += -value`, whose amount is not negative. -/
def subAssign (c : GenericSatCounter w) (value : Amount) : GenericSatCounter w :=
  if 0 ≤ value.value then c.subNarrowed (value.narrow w) else c.addNarrowed (value.neg.narrow w)

/-! ### The operators -/

/-- The operators of a counter in a type of `w` bits.  A shift by `w` bits or more is undefined. -/
inductive Op (w : ℕ)
  | increment
  | decrement
  | addAssign (value : Amount)
  | subAssign (value : Amount)
  | shiftLeftAssign (shift : Fin w)
  | shiftRightAssign (shift : Fin w)

/-- A counter after an operator. -/
def apply (c : GenericSatCounter w) : Op w → GenericSatCounter w
  | .increment => c.increment
  | .decrement => c.decrement
  | .addAssign value => c.addAssign value
  | .subAssign value => c.subAssign value
  | .shiftLeftAssign shift => c.shiftLeftAssign shift
  | .shiftRightAssign shift => c.shiftRightAssign shift

/-- What an operator computes, in integers. -/
def Op.exact : Op w → ℤ → ℤ
  | .increment, x => x + 1
  | .decrement, x => x - 1
  | .addAssign value, x => x + value.value
  | .subAssign value, x => x - value.value
  | .shiftLeftAssign shift, x => x * 2 ^ (shift : ℕ)
  | .shiftRightAssign shift, x => x / 2 ^ (shift : ℕ)

/-- The value between 0 and `hi` that is nearest to `x`. -/
def clamp (hi : ℕ) (x : ℤ) : ℤ := max 0 (min x hi)

/-- A counter of `bits` bits, between 0 and its greatest value. -/
structure InRange (bits : ℕ) (c : GenericSatCounter w) : Prop where
  maxVal : c.maxVal = maxValOf w bits
  counter : c.counter ≤ c.maxVal

instance (bits : ℕ) (c : GenericSatCounter w) : Decidable (c.InRange bits) :=
  decidable_of_iff (c.maxVal = maxValOf w bits ∧ c.counter ≤ c.maxVal)
    ⟨fun h => ⟨h.1, h.2⟩, fun h => ⟨h.1, h.2⟩⟩

/-- The greatest value of a counter whose bits fit into its type. -/
theorem toNat_maxValOf {bits : ℕ} (hw : w ≤ 64) (hbits : bits < w) :
    (maxValOf w bits).toNat = 2 ^ bits - 1 := by
  have hpow : 2 ^ bits < 2 ^ w := Nat.pow_lt_pow_right (by decide) hbits
  have hpow' : 2 ^ w ≤ 2 ^ 64 := Nat.pow_le_pow_right (by decide) hw
  have hone : 0 < 2 ^ bits := Nat.two_pow_pos bits
  have hshift : ((1 : BitVec 64) <<< bits).toNat = 2 ^ bits := by
    rw [BitVec.toNat_shiftLeft, Nat.shiftLeft_eq]
    exact (Nat.mod_eq_of_lt (by simpa using lt_of_lt_of_le hpow hpow')).trans (Nat.one_mul _)
  rw [maxValOf, BitVec.toNat_setWidth, BitVec.toNat_sub_of_le, hshift]
  · exact Nat.mod_eq_of_lt (by simp; omega)
  · rw [BitVec.le_def, hshift]
    exact hone

section Values

variable {c : GenericSatCounter w} (hc : c.counter ≤ c.maxVal)

include hc

theorem toNat_counter_increment :
    c.increment.counter.toNat = min (c.counter.toNat + 1) c.maxVal.toNat := by
  have hle : c.counter.toNat ≤ c.maxVal.toNat := hc
  have hmax := c.maxVal.isLt
  unfold increment
  split
  · next hlt =>
      have hlt : c.counter.toNat < c.maxVal.toNat := hlt
      have hw : 1 < 2 ^ w := by omega
      have hone : (1 : BitVec w).toNat = 1 := Nat.mod_eq_of_lt hw
      rw [BitVec.toNat_add, hone, Nat.mod_eq_of_lt (by omega)]
      omega
  · next hlt =>
      have hlt : ¬c.counter.toNat < c.maxVal.toNat := hlt
      omega

omit hc in
theorem toNat_counter_decrement : c.decrement.counter.toNat = c.counter.toNat - 1 := by
  have hcounter := c.counter.isLt
  unfold decrement
  split
  · next hlt =>
      have hlt : 0 < c.counter.toNat := by simpa [BitVec.lt_def] using hlt
      have hw : 1 < 2 ^ w := by omega
      have hone : (1 : BitVec w).toNat = 1 := Nat.mod_eq_of_lt hw
      rw [BitVec.toNat_sub_of_le (by rw [BitVec.le_def, hone]; exact hlt), hone]
  · next hlt =>
      have hlt : ¬0 < c.counter.toNat := by simpa [BitVec.lt_def] using hlt
      omega

omit hc in
theorem toNat_counter_shiftRightAssign (shift : ℕ) :
    (c.shiftRightAssign shift).counter.toNat = c.counter.toNat / 2 ^ shift := by
  rw [shiftRightAssign, BitVec.toNat_ushiftRight, Nat.shiftRight_eq_div_pow]

omit hc in
/-- The shift drops the high bits, and what is left is compared with the greatest value. -/
theorem toNat_counter_shiftLeftAssign (shift : ℕ) : (c.shiftLeftAssign shift).counter.toNat =
    min (c.counter.toNat * 2 ^ shift % 2 ^ w) c.maxVal.toNat := by
  have hshift : (c.counter <<< shift).toNat = c.counter.toNat * 2 ^ shift % 2 ^ w := by
    rw [BitVec.toNat_shiftLeft, Nat.shiftLeft_eq]
  unfold shiftLeftAssign
  dsimp only
  split
  · next hlt =>
      have hlt : c.maxVal.toNat < (c.counter <<< shift).toNat := hlt
      rw [hshift] at hlt
      exact (min_eq_right hlt.le).symm
  · next hlt =>
      have hlt : ¬c.maxVal.toNat < (c.counter <<< shift).toNat := hlt
      rw [hshift] at hlt
      exact hshift.trans (min_eq_left (not_lt.1 hlt)).symm

/-- In `T`, the addition is exact up to the greatest value. -/
theorem toNat_counter_addNarrowed (value : BitVec w) : (c.addNarrowed value).counter.toNat =
    min (c.counter.toNat + value.toNat) c.maxVal.toNat := by
  have hle : c.counter.toNat ≤ c.maxVal.toNat := hc
  have hmax := c.maxVal.isLt
  have hroom : (c.maxVal - c.counter).toNat = c.maxVal.toNat - c.counter.toNat :=
    BitVec.toNat_sub_of_le hc
  unfold addNarrowed
  split
  · next hfits =>
      have hfits : value.toNat ≤ (c.maxVal - c.counter).toNat := hfits
      rw [BitVec.toNat_add, Nat.mod_eq_of_lt (by omega)]
      omega
  · next hfits =>
      have hfits : ¬value.toNat ≤ (c.maxVal - c.counter).toNat := hfits
      dsimp only
      omega

omit hc in
/-- In `T`, the subtraction is exact down to 0. -/
theorem toNat_counter_subNarrowed (value : BitVec w) :
    (c.subNarrowed value).counter.toNat = c.counter.toNat - value.toNat := by
  unfold subNarrowed
  split
  · next hlt => exact BitVec.toNat_sub_of_le (BitVec.le_of_lt hlt)
  · next hlt =>
      have hlt : ¬value.toNat < c.counter.toNat := hlt
      have hzero : (0 : BitVec w).toNat = 0 := Nat.zero_mod _
      dsimp only
      omega

end Values

/-! ### The range of a counter -/

@[simp] theorem maxVal_addNarrowed (c : GenericSatCounter w) (value : BitVec w) :
    (c.addNarrowed value).maxVal = c.maxVal := by
  unfold addNarrowed
  split <;> rfl

@[simp] theorem maxVal_subNarrowed (c : GenericSatCounter w) (value : BitVec w) :
    (c.subNarrowed value).maxVal = c.maxVal := by
  unfold subNarrowed
  split <;> rfl

@[simp] theorem maxVal_apply (c : GenericSatCounter w) (op : Op w) :
    (c.apply op).maxVal = c.maxVal := by
  unfold apply
  cases op with
  | increment =>
      dsimp only [increment]
      split <;> rfl
  | decrement =>
      dsimp only [decrement]
      split <;> rfl
  | addAssign value =>
      dsimp only [addAssign]
      split <;> simp
  | subAssign value =>
      dsimp only [subAssign]
      split <;> simp
  | shiftLeftAssign shift =>
      dsimp only [shiftLeftAssign]
      split <;> rfl
  | shiftRightAssign shift => rfl

theorem counter_apply_le {c : GenericSatCounter w} (hc : c.counter ≤ c.maxVal) (op : Op w) :
    (c.apply op).counter.toNat ≤ c.maxVal.toNat := by
  have hcounter : c.counter.toNat ≤ c.maxVal.toNat := hc
  have hadd : ∀ value, (c.addNarrowed value).counter.toNat ≤ c.maxVal.toNat := fun value =>
    (toNat_counter_addNarrowed hc value).trans_le (min_le_right _ _)
  have hsub : ∀ value, (c.subNarrowed value).counter.toNat ≤ c.maxVal.toNat := fun value =>
    (toNat_counter_subNarrowed value).trans_le ((Nat.sub_le _ _).trans hcounter)
  unfold apply
  cases op with
  | increment => exact (toNat_counter_increment hc).trans_le (min_le_right _ _)
  | decrement => exact toNat_counter_decrement.trans_le ((Nat.sub_le _ _).trans hcounter)
  | addAssign value =>
      dsimp only [addAssign]
      split
      · exact hadd _
      · exact hsub _
  | subAssign value =>
      dsimp only [subAssign]
      split
      · exact hsub _
      · exact hadd _
  | shiftLeftAssign shift =>
      exact (toNat_counter_shiftLeftAssign shift).trans_le (min_le_right _ _)
  | shiftRightAssign shift =>
      exact (toNat_counter_shiftRightAssign shift).trans_le ((Nat.div_le_self _ _).trans hcounter)

/-- **Every operator keeps the counter between 0 and its greatest value.** -/
theorem InRange.apply {bits : ℕ} {c : GenericSatCounter w} (h : c.InRange bits) (op : Op w) :
    (c.apply op).InRange bits where
  maxVal := (maxVal_apply c op).trans h.maxVal
  counter := by
    rw [maxVal_apply]
    exact counter_apply_le h.counter op

/-! ### When the operators clamp the exact result -/

/-- An amount to add survives the narrowing, or what is left of it reaches the greatest value. -/
def RaisesBy (c : GenericSatCounter w) (amount : ℕ) : Prop :=
  amount < 2 ^ w ∨ c.maxVal.toNat - c.counter.toNat ≤ amount % 2 ^ w

/-- An amount to subtract survives the narrowing, or what is left of it reaches 0. -/
def LowersBy (c : GenericSatCounter w) (amount : ℕ) : Prop :=
  amount < 2 ^ w ∨ c.counter.toNat ≤ amount % 2 ^ w

/-- An operator loses nothing that counts. -/
def Lossless (c : GenericSatCounter w) : Op w → Prop
  | .addAssign value =>
      if 0 ≤ value.value then c.RaisesBy value.value.natAbs else c.LowersBy value.value.natAbs
  | .subAssign value =>
      if 0 ≤ value.value then c.LowersBy value.value.natAbs else c.RaisesBy value.value.natAbs
  | .shiftLeftAssign shift => c.counter.toNat * 2 ^ (shift : ℕ) < 2 ^ w ∨
      c.maxVal.toNat ≤ c.counter.toNat * 2 ^ (shift : ℕ) % 2 ^ w
  | _ => True

section Clamp

variable {c : GenericSatCounter w} (hc : c.counter ≤ c.maxVal)

include hc

/-- `+=` for an amount that is not negative. -/
theorem addNarrowed_eq_clamp_iff {value : Amount} (h : 0 ≤ value.value) :
    ((c.addNarrowed (value.narrow w)).counter.toNat : ℤ) =
      clamp c.maxVal.toNat (c.counter.toNat + value.value) ↔ c.RaisesBy value.value.natAbs := by
  have hle : c.counter.toNat ≤ c.maxVal.toNat := hc
  have hmax := c.maxVal.isLt
  rw [toNat_counter_addNarrowed hc, Amount.toNat_narrow h, RaisesBy, clamp]
  rcases Nat.lt_or_ge value.value.natAbs (2 ^ w) with hfits | hlost
  · rw [Nat.mod_eq_of_lt hfits]
    omega
  · -- the exact sum is above the greatest value
    omega

/-- `-=` for an amount that is not negative. -/
theorem subNarrowed_eq_clamp_iff {value : Amount} (h : 0 ≤ value.value) :
    ((c.subNarrowed (value.narrow w)).counter.toNat : ℤ) =
      clamp c.maxVal.toNat (c.counter.toNat - value.value) ↔ c.LowersBy value.value.natAbs := by
  have hle : c.counter.toNat ≤ c.maxVal.toNat := hc
  have hmax := c.maxVal.isLt
  rw [toNat_counter_subNarrowed, Amount.toNat_narrow h, LowersBy, clamp]
  rcases Nat.lt_or_ge value.value.natAbs (2 ^ w) with hfits | hlost
  · rw [Nat.mod_eq_of_lt hfits]
    omega
  · -- the exact difference is negative
    omega

omit hc in
/-- `<<=`. -/
theorem shiftLeftAssign_eq_clamp_iff (shift : ℕ) :
    ((c.shiftLeftAssign shift).counter.toNat : ℤ) =
      clamp c.maxVal.toNat (c.counter.toNat * 2 ^ shift) ↔
        c.counter.toNat * 2 ^ shift < 2 ^ w ∨
          c.maxVal.toNat ≤ c.counter.toNat * 2 ^ shift % 2 ^ w := by
  have hmax := c.maxVal.isLt
  have hcast : (c.counter.toNat : ℤ) * 2 ^ shift = ((c.counter.toNat * 2 ^ shift : ℕ) : ℤ) := by
    push_cast
    rfl
  rw [toNat_counter_shiftLeftAssign, clamp, hcast]
  rcases Nat.lt_or_ge (c.counter.toNat * 2 ^ shift) (2 ^ w) with hfits | hlost
  · rw [Nat.mod_eq_of_lt hfits]
    omega
  · -- the exact product is above the greatest value
    omega

/-- `>>=` is exact. -/
theorem shiftRightAssign_eq_clamp (shift : ℕ) : ((c.shiftRightAssign shift).counter.toNat : ℤ) =
    clamp c.maxVal.toNat (c.counter.toNat / 2 ^ shift) := by
  have hle : c.counter.toNat / 2 ^ shift ≤ c.maxVal.toNat := (Nat.div_le_self _ _).trans hc
  have hcast : (c.counter.toNat : ℤ) / 2 ^ shift = ((c.counter.toNat / 2 ^ shift : ℕ) : ℤ) := by
    push_cast
    rfl
  rw [toNat_counter_shiftRightAssign, clamp, hcast, min_eq_left (Int.ofNat_le.2 hle)]
  exact (max_eq_right (Int.natCast_nonneg _)).symm

/-- An operator clamps the exact result if and only if it loses nothing that counts. -/
theorem apply_eq_clamp_maxVal_iff (op : Op w) : ((c.apply op).counter.toNat : ℤ) =
    clamp c.maxVal.toNat (op.exact c.counter.toNat) ↔ c.Lossless op := by
  have hle : c.counter.toNat ≤ c.maxVal.toNat := hc
  cases op with
  | increment =>
      refine iff_of_true ?_ trivial
      dsimp only [apply, Op.exact]
      rw [toNat_counter_increment hc, clamp]
      omega
  | decrement =>
      refine iff_of_true ?_ trivial
      dsimp only [apply, Op.exact]
      rw [toNat_counter_decrement, clamp]
      omega
  | addAssign value =>
      dsimp only [apply, Op.exact, addAssign, Lossless]
      split
      · next hvalue => exact addNarrowed_eq_clamp_iff hc hvalue
      · next hvalue =>
          have hneg := subNarrowed_eq_clamp_iff hc (Amount.neg_nonneg hvalue)
          rwa [Amount.neg, sub_neg_eq_add, Int.natAbs_neg] at hneg
  | subAssign value =>
      dsimp only [apply, Op.exact, subAssign, Lossless]
      split
      · next hvalue => exact subNarrowed_eq_clamp_iff hc hvalue
      · next hvalue =>
          have hneg := addNarrowed_eq_clamp_iff hc (Amount.neg_nonneg hvalue)
          rwa [Amount.neg, ← sub_eq_add_neg, Int.natAbs_neg] at hneg
  | shiftLeftAssign shift => exact shiftLeftAssign_eq_clamp_iff shift
  | shiftRightAssign shift => exact iff_of_true (shiftRightAssign_eq_clamp hc shift) trivial

end Clamp

/-- **When an operator clamps the exact result.**  For every unsigned type of at most 64 bits, every
number of bits below its width and every value of the counter: `++`, `--` and `>>=` always do.  `+=`
and `-=` do if and only if the amount fits into the type, or what is left of it still reaches the
bound.  `<<=` does if and only if the product fits into the type, or what is left of it still
reaches the greatest value. -/
theorem apply_eq_clamp_iff {bits : ℕ} {c : GenericSatCounter w} (hw : w ≤ 64) (hbits : bits < w)
    (hc : c.InRange bits) (op : Op w) :
    ((c.apply op).counter.toNat : ℤ) = clamp (2 ^ bits - 1) (op.exact c.counter.toNat) ↔
      c.Lossless op := by
  rw [← toNat_maxValOf hw hbits, ← hc.maxVal]
  exact apply_eq_clamp_maxVal_iff hc.counter op

/-- 7 added to a counter of three bits that is at 5. -/
theorem apply_eq_clamp_iff_uint8 : (new 3 (5 : BitVec 8)).InRange 3 ∧
    ((((new 3 (5 : BitVec 8)).apply (.addAssign ⟨7, by decide, by decide⟩)).counter.toNat : ℤ) =
      clamp (2 ^ 3 - 1) ((Op.addAssign (w := 8) ⟨7, by decide, by decide⟩).exact
        (new 3 (5 : BitVec 8)).counter.toNat) ↔
      (new 3 (5 : BitVec 8)).Lossless (.addAssign ⟨7, by decide, by decide⟩)) :=
  ⟨by decide, apply_eq_clamp_iff (by decide) (by decide) (by decide) _⟩

/-- 256 is 0 as a `uint8_t`, and 64 times 4 is. -/
theorem apply_ne_clamp :
    ((new 3 (0 : BitVec 8)).InRange 3 ∧
      (((new 3 (0 : BitVec 8)).apply (.addAssign ⟨256, by decide, by decide⟩)).counter.toNat : ℤ) ≠
        clamp (2 ^ 3 - 1) ((Op.addAssign (w := 8) ⟨256, by decide, by decide⟩).exact 0)) ∧
    ((new 7 (64 : BitVec 8)).InRange 7 ∧
      (((new 7 (64 : BitVec 8)).apply (.shiftLeftAssign 2)).counter.toNat : ℤ) ≠
        clamp (2 ^ 7 - 1) ((Op.shiftLeftAssign (w := 8) 2).exact 64)) := by
  decide

end GenericSatCounter

end OpenCache
