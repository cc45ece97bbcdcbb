/-
A line of items that wait for their deadlines.

An item enters the line with a number of ticks to wait.  A tick goes through the line from the
front, takes one tick off every item, and takes out the items that have none left.  What such a
line holds, and what has left it in which order, can be read off the list of the items with
their deadlines.

* `DelayLine.tick` — one tick of the line;
* `DelayLine.waiting`, `DelayLine.departed` — what the line holds and what has left it, read off the
  deadlines;
* `DelayLine.tick_waiting` — **a tick takes out the items whose deadline it is**;
* `DelayLine.departed_sorted` — **items leave by deadline, and those of one deadline in the order in
  which they have entered**.
-/

import Mathlib.Data.List.Basic
import Mathlib.Tactic.Common

set_option relaxedAutoImplicit false
set_option autoImplicit false

namespace DelayLine

variable {α : Type*} {l : List (α × ℕ)} {now d : ℕ} {a : α}

/-- One tick: the items that stay, with the ticks they have left, and the items that leave. -/
def tick : List (α × ℕ) → List (α × ℕ) × List α
  | [] => ([], [])
  | (a, k) :: q =>
      if k - 1 = 0 then ((tick q).1, a :: (tick q).2) else ((a, k - 1) :: (tick q).1, (tick q).2)

/-- The items whose deadline has not come, with the ticks they have left. -/
def waiting (now : ℕ) (l : List (α × ℕ)) : List (α × ℕ) :=
  (l.filter fun r => now < r.2).map fun r => (r.1, r.2 - now)

/-- The items that leave at a tick. -/
def leaving (t : ℕ) (l : List (α × ℕ)) : List (α × ℕ) := l.filter fun r => r.2 = t

/-- The items that have left, in the order in which they have. -/
def departed (now : ℕ) (l : List (α × ℕ)) : List (α × ℕ) :=
  (List.range now).flatMap fun t => leaving (t + 1) l

theorem mem_leaving {t : ℕ} {r : α × ℕ} : r ∈ leaving t l ↔ r ∈ l ∧ r.2 = t := by
  simp [leaving]

/-- What waits has a tick left. -/
theorem waiting_pos {e : α × ℕ} (h : e ∈ waiting now l) : 0 < e.2 := by
  obtain ⟨r, hr, rfl⟩ := List.mem_map.1 h
  have hlate := of_decide_eq_true (List.mem_filter.1 hr).2
  exact Nat.sub_pos_of_lt hlate

/-- **A tick takes out the items whose deadline it is.** -/
theorem tick_waiting (now : ℕ) (l : List (α × ℕ)) :
    tick (waiting now l) = (waiting (now + 1) l, (leaving (now + 1) l).map Prod.fst) := by
  induction l with
  | nil => rfl
  | cons r l ih =>
      unfold waiting leaving at ih ⊢
      by_cases hlate : now < r.2
      · rw [List.filter_cons_of_pos (by simpa using hlate), List.map_cons, tick, ih]
        by_cases hdue : r.2 = now + 1
        · have hstays : ¬now + 1 < r.2 := by omega
          rw [if_pos (by omega), List.filter_cons_of_neg (by simpa using hstays),
            List.filter_cons_of_pos (by simpa using hdue), List.map_cons]
        · have hstays : now + 1 < r.2 := by omega
          rw [if_neg (by omega), List.filter_cons_of_pos (by simpa using hstays),
            List.filter_cons_of_neg (by simpa using hdue), List.map_cons, Nat.sub_sub]
      · have hgone : ¬now + 1 < r.2 := by omega
        have hpast : ¬r.2 = now + 1 := by omega
        rw [List.filter_cons_of_neg (by simpa using hlate),
          List.filter_cons_of_neg (by simpa using hgone),
          List.filter_cons_of_neg (by simpa using hpast), ih]

/-- An item enters the line at its end. -/
theorem waiting_enter (h : now < d) :
    waiting now (l ++ [(a, d)]) = waiting now l ++ [(a, d - now)] := by
  simp [waiting, h]

/-- What leaves at a tick follows what has left before. -/
theorem departed_succ : departed (now + 1) l = departed now l ++ leaving (now + 1) l := by
  simp [departed, List.range_succ]

/-- An item that enters has not left. -/
theorem departed_enter (h : now < d) : departed now (l ++ [(a, d)]) = departed now l := by
  induction now with
  | zero => rfl
  | succ now ih =>
      have hlate : d ≠ now + 1 := Nat.ne_of_gt h
      rw [departed_succ, departed_succ, ih (Nat.lt_of_succ_lt h)]
      simp [leaving, hlate]

/-- What has left has met its deadline. -/
theorem of_mem_departed {r : α × ℕ} (h : r ∈ departed now l) : r ∈ l ∧ r.2 ≤ now := by
  obtain ⟨t, ht, hr⟩ := List.mem_flatMap.1 h
  obtain ⟨hmem, hdue⟩ := mem_leaving.1 hr
  exact ⟨hmem, Nat.le_trans (Nat.le_of_eq hdue) (List.mem_range.1 ht)⟩

/-- **Items leave by deadline, and those of one deadline in the order in which they have
entered.** -/
theorem departed_sorted {R : α → α → Prop} (h : l.Pairwise fun r r' => R r.1 r'.1) (now : ℕ) :
    (departed now l).Pairwise fun r r' => r.2 < r'.2 ∨ r.2 = r'.2 ∧ R r.1 r'.1 := by
  induction now with
  | zero => exact List.Pairwise.nil
  | succ now ih =>
      rw [departed_succ, List.pairwise_append]
      refine ⟨ih, ?_, fun r hr r' hr' => Or.inl ?_⟩
      · refine List.Pairwise.imp_of_mem ?_ (h.sublist List.filter_sublist)
        intro r r' hr hr' hR
        exact Or.inr ⟨(mem_leaving.1 hr).2.trans (mem_leaving.1 hr').2.symm, hR⟩
      · rw [(mem_leaving.1 hr').2]
        exact Nat.lt_succ_of_le (of_mem_departed hr).2

end DelayLine
