/-
The stack of the least recently used policy.

A cache that replaces the least recently used element holds the elements that were used last, the
last one first.  Caches of all capacities are therefore held by one stack: what a smaller one holds
is what is on top.

* `LruStack.access` — an access to a cache of some capacity;
* `LruStack.hits` — which of the accesses to an empty cache hit;
* `LruStack.take_access` — **the top of a stack is the stack of a smaller cache**;
* `LruStack.idxOf_cons_erase`, `LruStack.idxOf_erase_concat` — the place of an element after another
  one is moved to an end.
-/

import Mathlib.Data.List.Basic
import Mathlib.Data.List.Nodup
import Mathlib.Order.Lattice

set_option relaxedAutoImplicit false
set_option autoImplicit false

namespace LruStack

variable {κ : Type*} [DecidableEq κ] {a b x : κ} {l : List κ} {c cap : ℕ}

/-- An access to a cache of so many elements: the element becomes the first, and the last one leaves
if there are too many. -/
def access (cap : ℕ) (a : κ) (l : List κ) : List κ := (a :: l.erase a).take cap

/-- Which accesses to a cache hit, from what it holds on. -/
def hitsFrom (cap : ℕ) (l : List κ) : List κ → List Bool
  | [] => []
  | a :: as => decide (a ∈ l) :: hitsFrom cap (access cap a l) as

/-- Which accesses to an empty cache hit. -/
def hits (cap : ℕ) (as : List κ) : List Bool := hitsFrom cap [] as

theorem take_erase_take (a : κ) (l : List κ) (c : ℕ) :
    ((l.take (c + 1)).erase a).take c = (l.erase a).take c := by
  induction l generalizing c with
  | nil => rfl
  | cons b l ih =>
      rw [List.take_succ_cons]
      by_cases h : b = a
      · rw [h, List.erase_cons_head, List.erase_cons_head, List.take_take, min_self]
      · have hne : ¬(b == a) = true := fun heq => h (beq_iff_eq.1 heq)
        rw [List.erase_cons_tail hne, List.erase_cons_tail hne]
        cases c with
        | zero => rfl
        | succ c => rw [List.take_succ_cons, List.take_succ_cons, ih]

/-- **The top of a stack is the stack of a smaller cache.** -/
theorem take_access (h : c ≤ cap) (a : κ) (l : List κ) :
    (access cap a l).take c = access c a (l.take c) := by
  unfold access
  rw [List.take_take, min_eq_left h]
  cases c with
  | zero => rfl
  | succ c => rw [List.take_succ_cons, List.take_succ_cons, take_erase_take]

theorem nodup_access (h : l.Nodup) (cap : ℕ) (a : κ) : (access cap a l).Nodup := by
  refine (List.nodup_cons.2 ⟨h.not_mem_erase, h.erase a⟩).sublist ?_
  exact List.take_sublist _ _

/-- An access to an element that a cache holds. -/
theorem access_of_mem (hl : l.length ≤ cap) (ha : a ∈ l) : access cap a l = a :: l.erase a := by
  refine List.take_of_length_le ?_
  rw [List.length_cons, List.length_erase_of_mem ha]
  have := List.length_pos_of_mem ha
  omega

/-- An access to an element that a cache does not hold. -/
theorem access_of_not_mem (ha : a ∉ l) (hcap : 0 < cap) :
    access cap a l = a :: l.take (cap - 1) := by
  obtain ⟨c, rfl⟩ : ∃ c, cap = c + 1 := ⟨cap - 1, by omega⟩
  rw [access, List.erase_of_not_mem ha, List.take_succ_cons, Nat.add_sub_cancel]

/-! ### Places -/

/-- After an element was moved to the front, those that were before it are one place
further back. -/
theorem idxOf_cons_erase (hl : l.Nodup) (hb : b ∈ l) (hx : x ∈ l) :
    (b :: l.erase b).idxOf x =
      if x = b then 0 else if l.idxOf x < l.idxOf b then l.idxOf x + 1 else l.idxOf x := by
  obtain ⟨pre, post, rfl⟩ := List.append_of_mem hb
  obtain ⟨hpre, hpost, hdisjoint⟩ := List.nodup_append'.1 hl
  have hbpre : b ∉ pre := fun h => hdisjoint h List.mem_cons_self
  have hbpost : b ∉ post := (List.nodup_cons.1 hpost).1
  rw [List.erase_append_right _ hbpre, List.erase_cons_head, List.idxOf_append_of_notMem hbpre,
    List.idxOf_cons_self, Nat.add_zero]
  by_cases hxb : x = b
  · rw [if_pos hxb, hxb, List.idxOf_cons_self]
  · rw [if_neg hxb, List.idxOf_cons_ne _ (Ne.symm hxb)]
    by_cases hxpre : x ∈ pre
    · rw [List.idxOf_append_of_mem hxpre, List.idxOf_append_of_mem hxpre,
        if_pos (List.idxOf_lt_length_of_mem hxpre)]
    · rw [List.idxOf_append_of_notMem hxpre, List.idxOf_append_of_notMem hxpre,
        List.idxOf_cons_ne _ (Ne.symm hxb), if_neg (by omega)]
      omega

/-- After an element was moved to the back, those that were after it are one place further on. -/
theorem idxOf_erase_concat (hl : l.Nodup) (hb : b ∈ l) (hx : x ∈ l) :
    (l.erase b ++ [b]).idxOf x =
      if x = b then l.length - 1 else if l.idxOf b <
      l.idxOf x then l.idxOf x - 1 else l.idxOf x := by
  obtain ⟨pre, post, rfl⟩ := List.append_of_mem hb
  obtain ⟨hpre, hpost, hdisjoint⟩ := List.nodup_append'.1 hl
  have hbpre : b ∉ pre := fun h => hdisjoint h List.mem_cons_self
  have hbpost : b ∉ post := (List.nodup_cons.1 hpost).1
  rw [List.erase_append_right _ hbpre, List.erase_cons_head, List.idxOf_append_of_notMem hbpre,
    List.idxOf_cons_self, Nat.add_zero]
  by_cases hxb : x = b
  · subst hxb
    have hnot : x ∉ pre ++ post := fun h => (List.mem_append.1 h).elim hbpre hbpost
    rw [if_pos rfl, List.idxOf_append_of_notMem hnot, List.idxOf_cons_self, List.length_append,
      List.length_append, List.length_cons]
    omega
  · rw [if_neg hxb]
    by_cases hxpre : x ∈ pre
    · rw [List.append_assoc, List.idxOf_append_of_mem hxpre, List.idxOf_append_of_mem hxpre,
        if_neg (List.idxOf_lt_length_of_mem hxpre).le.not_gt]
    · have hxpost : x ∈ post := by
        rcases List.mem_append.1 hx with h | h
        · exact absurd h hxpre
        · exact (List.mem_cons.1 h).resolve_left hxb
      rw [List.append_assoc, List.idxOf_append_of_notMem hxpre, List.idxOf_append_of_notMem hxpre,
        List.idxOf_append_of_mem hxpost, List.idxOf_cons_ne _ (Ne.symm hxb), if_pos (by omega)]
      omega

/-- The element at a place, without another element. -/
theorem getElem?_erase (b : κ) (l : List κ) (i : ℕ) :
    (l.erase b)[i]? = if i < l.idxOf b then l[i]? else l[i + 1]? := by
  rw [List.erase_eq_eraseIdx_of_idxOf rfl, List.getElem?_eraseIdx]

theorem getElem?_cons_erase (hc : 2 ≤ c) (b : κ) (l : List κ) :
    (b :: l.erase b)[c - 1]? = if c - 2 < l.idxOf b then l[c - 2]? else l[c - 1]? := by
  obtain ⟨c, rfl⟩ : ∃ k, c = k + 2 := ⟨c - 2, by omega⟩
  have hc1 : c + 2 - 1 = c + 1 := by omega
  rw [hc1, Nat.add_sub_cancel, List.getElem?_cons_succ, getElem?_erase]

theorem getElem?_erase_concat (hb : b ∈ l) (hc : 1 ≤ c) (hlt : c < l.length) :
    (l.erase b ++ [b])[c - 1]? = if c - 1 < l.idxOf b then l[c - 1]? else l[c]? := by
  have hlength := List.length_erase_of_mem hb
  rw [List.getElem?_append_left (by omega), getElem?_erase, Nat.sub_add_cancel hc]

end LruStack
