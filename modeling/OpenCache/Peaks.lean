/-
**The greatest level in a list of states.**

A watermark is meant to be the greatest value that a level has had in the states of a run.  What is
recorded is often the greatest value in some of the states only: those in which somebody looked, or
those since the record was last cleared.

* `Peaks.peak` — the greatest level;
* `Peaks.since` — the states since something last happened;
* `Peaks.peak_eq_iff_of_subset` — **some of the states have the peak of all of them** if and only if
  no state is above all of these.
-/

import Mathlib.Data.List.Basic
import Mathlib.Order.MinMax

set_option relaxedAutoImplicit false
set_option autoImplicit false

namespace Peaks

variable {α β : Type*} {f : α → ℕ} {g : β → ℕ} {l : List α} {l' : List β} {n : ℕ}

/-- The greatest value of `f` on a list. -/
def peak (f : α → ℕ) (l : List α) : ℕ := (l.map f).foldr max 0

@[simp] theorem peak_nil (f : α → ℕ) : peak f [] = 0 := rfl

@[simp] theorem peak_cons (f : α → ℕ) (a : α) (l : List α) :
    peak f (a :: l) = max (f a) (peak f l) := rfl

theorem peak_le_iff : peak f l ≤ n ↔ ∀ a ∈ l, f a ≤ n := by
  induction l with
  | nil => simp
  | cons a l ih => simp [ih]

theorem le_peak {a : α} (h : a ∈ l) : f a ≤ peak f l := peak_le_iff.1 le_rfl a h

/-- The peak is reached. -/
theorem le_peak_iff (hl : l ≠ []) : n ≤ peak f l ↔ ∃ a ∈ l, n ≤ f a := by
  induction l with
  | nil => exact absurd rfl hl
  | cons a l ih =>
      rw [peak_cons, le_max_iff, List.exists_mem_cons_iff]
      cases l with
      | nil =>
          simp only [peak_nil, Nat.le_zero, List.not_mem_nil, false_and, exists_false, or_false]
          constructor
          · rintro (h | rfl)
            · exact h
            · exact Nat.zero_le _
          · exact Or.inl
      | cons b l => rw [ih (List.cons_ne_nil b l)]

theorem peak_eq_zero_iff : peak f l = 0 ↔ ∀ a ∈ l, f a = 0 := by
  rw [← Nat.le_zero, peak_le_iff]
  simp

theorem peak_mono {l₁ l₂ : List α} (h : ∀ a ∈ l₁, a ∈ l₂) : peak f l₁ ≤ peak f l₂ :=
  peak_le_iff.2 fun a ha => le_peak (h a ha)

/-- The order of the list does not matter. -/
theorem peak_perm {l₁ l₂ : List α} (h : l₁.Perm l₂) : peak f l₁ = peak f l₂ :=
  le_antisymm (peak_mono fun _ => h.mem_iff.1) (peak_mono fun _ => h.mem_iff.2)

/-- **Some of the states have the peak of all of them** if and only if no state is above them. -/
theorem peak_eq_iff_of_subset {l₁ l₂ : List α} (h : ∀ a ∈ l₁, a ∈ l₂) (hne : l₁ ≠ []) :
    peak f l₁ = peak f l₂ ↔ ∀ a ∈ l₂, ∃ b ∈ l₁, f a ≤ f b := by
  constructor
  · intro heq a ha
    exact (le_peak_iff hne).1 ((le_peak ha).trans heq.ge)
  · intro hall
    exact le_antisymm (peak_mono h) (peak_le_iff.2 fun a ha => (le_peak_iff hne).2 (hall a ha))

/-! ### The states since something last happened -/

variable {p : α → Bool}

/-- In a list with the newest state first, the states since the last that satisfies `p`, with that
one. -/
def since (p : α → Bool) : List α → List α
  | [] => []
  | a :: l => if p a then [a] else a :: since p l

theorem mem_of_mem_since {a : α} (h : a ∈ since p l) : a ∈ l := by
  induction l with
  | nil => exact h
  | cons b l ih =>
      rw [since] at h
      split at h
      · rw [List.mem_singleton.1 h]
        exact List.mem_cons_self ..
      · rcases List.mem_cons.1 h with rfl | h
        · exact List.mem_cons_self ..
        · exact List.mem_cons_of_mem _ (ih h)

theorem since_ne_nil (h : l ≠ []) : since p l ≠ [] := by
  cases l with
  | nil => exact h
  | cons a l =>
      rw [since]
      split <;> exact List.cons_ne_nil _ _

end Peaks
