/-
**Counting the members of a range that have a property.**

A counter that a program keeps by hand is right when it agrees with the number of indices below a
bound whose value has some property.  This module gives that number, and says how it changes when
one value changes.

* `Census.census` — the number of indices below a bound whose value has the property;
* `Census.census_update` — one value changes;
* `Census.census_eq_zero` — no value has the property.
-/

import Mathlib.Data.Finset.Card
import Mathlib.Data.Finset.Range
import Mathlib.Logic.Function.Basic

set_option relaxedAutoImplicit false
set_option autoImplicit false

namespace Census

variable {α : Type*} (p : α → Bool) (n : ℕ)

/-- The number of indices below `n` whose value has the property `p`. -/
def census (f : ℕ → α) : ℕ := ((Finset.range n).filter fun i => p (f i) = true).card

variable {p n}

theorem census_congr {f g : ℕ → α} (h : ∀ i < n, p (g i) = p (f i)) :
    census p n g = census p n f := by
  unfold census
  congr 1
  refine Finset.filter_congr fun i hi => ?_
  rw [h i (Finset.mem_range.1 hi)]

theorem census_eq_zero {f : ℕ → α} (h : ∀ i < n, p (f i) = false) : census p n f = 0 := by
  unfold census
  rw [Finset.card_eq_zero, Finset.filter_eq_empty_iff]
  intro i hi
  simp [h i (Finset.mem_range.1 hi)]

theorem census_le (f : ℕ → α) : census p n f ≤ n := by
  have hcard := Finset.card_filter_le (Finset.range n) fun i => p (f i) = true
  rwa [Finset.card_range] at hcard

/-- A value that had the property is replaced by one that has not, or the other way round. -/
theorem census_update {f : ℕ → α} {i : ℕ} (hi : i < n) (a : α) :
    census p n (Function.update f i a) + (p (f i)).toNat = census p n f + (p a).toNat := by
  have hsplit : ∀ g : ℕ → α, census p n g =
      (((Finset.range n).erase i).filter fun j => p (g j) = true).card + (p (g i)).toNat := by
    intro g
    unfold census
    rw [← Finset.insert_erase (Finset.mem_range.2 hi), Finset.filter_insert, Finset.erase_insert
      (Finset.notMem_erase i _)]
    cases hp : p (g i) with
    | true =>
        rw [if_pos rfl, Finset.card_insert_of_notMem (by simp)]
        rfl
    | false => simp
  have hothers : ((Finset.range n).erase i).filter (fun j => p (Function.update f i a j) = true) =
      ((Finset.range n).erase i).filter fun j => p (f j) = true := by
    refine Finset.filter_congr fun j hj => ?_
    rw [Function.update_of_ne (Finset.mem_erase.1 hj).1]
  rw [hsplit (Function.update f i a), hsplit f, hothers, Function.update_self]
  omega

end Census
