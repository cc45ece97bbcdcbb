/-
A queue of requests in front of a memory.

The requests are applied to the memory in the order in which they came.  So the queue determines
what the memory will hold when all of them have gone, and what each of them will find when its turn
comes; a request that comes later changes the first and not the second.

* `MemoryQueue.drain` — the memory after the requests of a queue;
* `MemoryQueue.drain_cases` — where the queue has left it, or which request has set it last;
* `MemoryQueue.turn` — the memory that a request finds when its turn comes;
* `MemoryQueue.turn_append_of_mem` — **later requests do not change what a request finds**;
* `MemoryQueue.turn_append_of_notMem` — a request that comes last finds the memory after all others.
-/

import Mathlib.Data.List.Basic
import Mathlib.Logic.Basic

set_option relaxedAutoImplicit false
set_option autoImplicit false

namespace MemoryQueue

variable {α μ : Type*} {effect effect' : α → μ → μ} {q r : List α} {t : α} {mem : μ}

/-! ### The memory after a queue -/

/-- The memory after the requests of a queue. -/
def drain (effect : α → μ → μ) (q : List α) (mem : μ) : μ :=
  q.foldl (fun mem t => effect t mem) mem

@[simp] theorem drain_nil : drain effect [] mem = mem := rfl

@[simp] theorem drain_cons : drain effect (t :: q) mem = drain effect q (effect t mem) := rfl

@[simp] theorem drain_append : drain effect (q ++ r) mem = drain effect r (drain effect q mem) :=
  List.foldl_append

/-- Only the effects of the requests in the queue matter. -/
theorem drain_congr (h : ∀ t ∈ q, effect' t = effect t) :
    drain effect' q mem = drain effect q mem := by
  induction q generalizing mem with
  | nil => rfl
  | cons t q ih =>
      rw [drain_cons, drain_cons, h t List.mem_cons_self]
      exact ih fun t' ht' => h t' (List.mem_cons_of_mem t ht')

/-- What the queue leaves in one place, where every request sets the place or leaves it: what the
last request that sets it brings, or what was there. -/
theorem drain_cases {β : Type*} {get : μ → β} {sets : α → Prop} {brings : α → β}
    (hsets : ∀ t mem, sets t → get (effect t mem) = brings t)
    (hkeeps : ∀ t mem, ¬sets t → get (effect t mem) = get mem) :
    (∀ t ∈ q, ¬sets t) ∧ get (drain effect q mem) = get mem ∨
      ∃ before t after, q = before ++ t :: after ∧ sets t ∧ (∀ t' ∈ after, ¬sets t') ∧
        get (drain effect q mem) = brings t := by
  induction q generalizing mem with
  | nil => exact Or.inl ⟨fun t ht => absurd ht List.not_mem_nil, rfl⟩
  | cons t q ih =>
      rw [drain_cons]
      rcases @ih (effect t mem) with ⟨hnone, hget⟩ | ⟨before, t', after, rfl, hset, hlast, hget⟩
      · by_cases hset : sets t
        · exact Or.inr ⟨[], t, q, rfl, hset, hnone, hget.trans (hsets t mem hset)⟩
        · refine Or.inl ⟨?_, hget.trans (hkeeps t mem hset)⟩
          rintro t' (_ | ⟨_, ht'⟩)
          · exact hset
          · exact hnone t' ht'
      · exact Or.inr ⟨t :: before, t', after, rfl, hset, hlast, hget⟩

/-! ### The turn of a request -/

variable [DecidableEq α]

/-- The memory that a request finds when its turn comes. -/
def turn (effect : α → μ → μ) (q : List α) (mem : μ) (t : α) : μ :=
  drain effect (q.takeWhile fun t' => t' ≠ t) mem

@[simp] theorem turn_cons_self : turn effect (t :: q) mem t = mem := by
  simp [turn]

theorem turn_cons_of_ne {t' : α} (h : t' ≠ t) :
    turn effect (t' :: q) mem t = turn effect q (effect t' mem) t := by
  simp [turn, h]

/-- **Later requests do not change what a request finds.** -/
theorem turn_append_of_mem (h : t ∈ q) : turn effect (q ++ r) mem t = turn effect q mem t := by
  induction q generalizing mem with
  | nil => cases h
  | cons t' q ih =>
      rw [List.cons_append]
      by_cases ht : t' = t
      · subst ht
        simp
      · rw [turn_cons_of_ne ht, turn_cons_of_ne ht]
        exact ih ((List.mem_cons.1 h).resolve_left (Ne.symm ht))

/-- A request that comes last finds the memory after all others. -/
theorem turn_append_of_notMem (h : t ∉ q) :
    turn effect (q ++ t :: r) mem t = drain effect q mem := by
  induction q generalizing mem with
  | nil => simp
  | cons t' q ih =>
      have hne : t' ≠ t := fun heq => h (heq ▸ List.mem_cons_self)
      rw [List.cons_append, turn_cons_of_ne hne, drain_cons]
      exact ih fun hmem => h (List.mem_cons_of_mem t' hmem)

theorem turn_congr (h : ∀ t ∈ q, effect' t = effect t) :
    turn effect' q mem t = turn effect q mem t :=
  drain_congr fun t' ht' => h t' (List.takeWhile_subset _ ht')

end MemoryQueue
