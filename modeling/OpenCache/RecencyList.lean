/-
Lists ordered by recency.

Every element of a list carries a stamp, and the list is in the order of the stamps; elements with
one stamp stand in their own order.  To touch an element gives it the newest stamp and moves it to
the end of the list.  The first element of the list with some property is therefore the one with the
oldest stamp among those that have it.

* `Recency.Before` — the order of the stamps, with ties broken by the elements;
* `Recency.touch` — move an element to the end;
* `Recency.pairwise_touch` — **a touch with the newest stamp keeps the list in order**;
* `Recency.find?_of_oldest` — **the oldest element is the first**.
-/

import Mathlib.Data.List.Basic
import Mathlib.Data.List.Nodup
import Mathlib.Order.Lattice

set_option relaxedAutoImplicit false
set_option autoImplicit false

namespace Recency

variable {ι κ : Type*} [LinearOrder ι] [LinearOrder κ]

/-- An older stamp, or the same one and an earlier element. -/
def Before (stamp : ι → κ) (i j : ι) : Prop := stamp i < stamp j ∨ stamp i = stamp j ∧ i < j

theorem Before.asymm {stamp : ι → κ} {i j : ι} (h : Before stamp i j) : ¬Before stamp j i := by
  rcases h with h | ⟨heq, h⟩
  · rintro (h' | ⟨heq, -⟩)
    · exact lt_asymm h h'
    · exact h.ne heq.symm
  · rintro (h' | ⟨-, h'⟩)
    · exact h'.ne heq.symm
    · exact lt_asymm h h'

omit [LinearOrder κ] [LinearOrder ι] in
/-- Move an element to the end of a list that has it. -/
def touch [DecidableEq ι] (a : ι) (l : List ι) : List ι :=
  if a ∈ l then l.erase a ++ [a] else l

theorem touch_perm (a : ι) (l : List ι) : (touch a l).Perm l := by
  unfold touch
  split
  · next h => exact (List.perm_append_singleton a _).trans (List.perm_cons_erase h).symm
  · exact List.Perm.refl l

/-- **A touch with the newest stamp keeps the list in order.** -/
theorem pairwise_touch {stamp stamp' : ι → κ} {a : ι} {l : List ι} (hnodup : l.Nodup)
    (h : l.Pairwise (Before stamp)) (hothers : ∀ x ∈ l, x ≠ a → stamp' x = stamp x)
    (hnewest : ∀ x ∈ l, x ≠ a → stamp x < stamp' a) :
    (touch a l).Pairwise (Before stamp') := by
  unfold touch
  split
  · rw [List.pairwise_append]
    refine ⟨?_, List.pairwise_singleton _ _, ?_⟩
    · refine (h.sublist List.erase_sublist).imp_of_mem ?_
      intro x y hx hy hxy
      obtain ⟨hxa, hx⟩ := hnodup.mem_erase_iff.1 hx
      obtain ⟨hya, hy⟩ := hnodup.mem_erase_iff.1 hy
      rw [Before, hothers x hx hxa, hothers y hy hya]
      exact hxy
    · intro x hx y hy
      obtain ⟨hxa, hx⟩ := hnodup.mem_erase_iff.1 hx
      rw [List.mem_singleton.1 hy, Before, hothers x hx hxa]
      exact Or.inl (hnewest x hx hxa)
  · next hnot =>
      refine h.imp_of_mem ?_
      intro x y hx hy hxy
      rw [Before, hothers x hx fun heq => hnot (heq ▸ hx),
        hothers y hy fun heq => hnot (heq ▸ hy)]
      exact hxy

/-- **The oldest element is the first.** -/
theorem find?_of_oldest {stamp : ι → κ} {l : List ι} (h : l.Pairwise (Before stamp))
    {p : ι → Bool} {j : ι} (hj : j ∈ l) (hp : p j = true)
    (holdest : ∀ k ∈ l, p k = true → k ≠ j → Before stamp j k) : l.find? p = some j := by
  induction l with
  | nil => cases hj
  | cons x l ih =>
      obtain ⟨hx, h⟩ := List.pairwise_cons.1 h
      by_cases hxj : x = j
      · rw [hxj, List.find?_cons_of_pos hp]
      · have hjl : j ∈ l := (List.mem_cons.1 hj).resolve_left (Ne.symm hxj)
        have hpx : ¬p x = true := fun hpx =>
          (hx j hjl).asymm (holdest x List.mem_cons_self hpx hxj)
        rw [List.find?_cons_of_neg hpx]
        exact ih h hjl fun k hk => holdest k (List.mem_cons_of_mem _ hk)

end Recency
