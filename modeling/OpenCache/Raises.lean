/-
Which errors and which results a computation can end with.

`Raises.Only P x` says that if the computation `x` fails, it fails with an error in `P`, and
`Raises.Ensures P x` that if it succeeds, its result is in `P`.  The rules follow the structure of a
computation, so that the errors and the results of a program come from those of its parts; a part
that is guarded by the state it runs in gets its own argument through the rule for sequences, which
hands on the result of the part before.

* `Raises.Only`, `Raises.Ensures` — the errors, and the results, of a computation lie in a set;
* `Raises.Yields` — a computation succeeds, with a result in a set;
* `Raises.Only.bind`, `Raises.Ensures.bind`, `Raises.Yields.bind` — the rules for a sequence.
-/

import Mathlib.Logic.Basic

set_option relaxedAutoImplicit false
set_option autoImplicit false

namespace Raises

universe u v

variable {ε : Type u} {α β : Type v} {P Q : ε → Prop}

/-- If a computation fails, it fails with an error in `P`. -/
def Only (P : ε → Prop) (x : Except ε α) : Prop := ∀ e, x = .error e → P e

theorem Only.ok (a : α) : Only P (.ok a) := by
  rintro e ⟨⟩

theorem Only.error {e : ε} (h : P e) : Only P (.error e : Except ε α) := by
  rintro e' ⟨⟩
  exact h

/-- A sequence fails where its first part fails, or where its second part does on the result. -/
theorem Only.bind {x : Except ε α} {f : α → Except ε β} (hx : Only P x)
    (hf : ∀ a, x = .ok a → Only P (f a)) : Only P (x >>= f) := by
  intro e h
  cases hxe : x with
  | error e' =>
      rw [hxe] at h
      cases h
      exact hx e hxe
  | ok a =>
      rw [hxe] at h
      exact hf a hxe e h

theorem Only.ite {c : Prop} [Decidable c] {x y : Except ε α} (hx : c → Only P x)
    (hy : ¬c → Only P y) : Only P (if c then x else y) := by
  split
  · next hc => exact hx hc
  · next hc => exact hy hc

/-- A computation that can fail with no error succeeds. -/
theorem Only.returns {x : Except ε α} (h : Only (fun _ => False) x) : ∃ a, x = .ok a := by
  cases x with
  | error e => exact (h e rfl).elim
  | ok a => exact ⟨a, rfl⟩

/-! ### Results -/

variable {R R' : β → Prop}

/-- If a computation succeeds, its result is in `R`. -/
def Ensures (R : β → Prop) (x : Except ε β) : Prop := ∀ b, x = .ok b → R b

theorem Ensures.ok {b : β} (h : R b) : Ensures R (.ok b : Except ε β) := by
  rintro b' ⟨⟩
  exact h

theorem Ensures.error (e : ε) : Ensures R (.error e) := by
  rintro b ⟨⟩

/-- The results of a sequence are those of its second part, on a result of the first. -/
theorem Ensures.bind {x : Except ε α} {f : α → Except ε β}
    (hf : ∀ a, x = .ok a → Ensures R (f a)) : Ensures R (x >>= f) := by
  intro b h
  cases hxa : x with
  | error e =>
      rw [hxa] at h
      cases h
  | ok a =>
      rw [hxa] at h
      exact hf a hxa b h

theorem Ensures.ite {c : Prop} [Decidable c] {x y : Except ε β} (hx : c → Ensures R x)
    (hy : ¬c → Ensures R y) : Ensures R (if c then x else y) := by
  split
  · next hc => exact hx hc
  · next hc => exact hy hc

/-! ### Success -/

/-- The computation succeeds, and its result is in `R`. -/
def Yields (R : β → Prop) (x : Except ε β) : Prop := ∃ b, x = .ok b ∧ R b

theorem Yields.ok {b : β} (h : R b) : Yields R (.ok b : Except ε β) := ⟨b, rfl, h⟩

/-- A sequence succeeds when its first part does, and its second part on every result of the
first. -/
theorem Yields.bind {Q : α → Prop} {x : Except ε α} {f : α → Except ε β} (hx : Yields Q x)
    (hf : ∀ a, Q a → Yields R (f a)) : Yields R (x >>= f) := by
  obtain ⟨a, rfl, ha⟩ := hx
  exact hf a ha

/-- A choice that is made. -/
theorem Yields.ite_neg {c : Prop} [Decidable c] {x y : Except ε β} (hc : ¬c) (hy : Yields R y) :
    Yields R (if c then x else y) := by
  rw [if_neg hc]
  exact hy

end Raises
