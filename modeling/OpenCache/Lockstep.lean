/-
Two computations that can fail, in step.

Two computations agree when both fail with the same error, or both succeed with related results.
The rules follow the structure of the computations; two machines whose steps agree stay related, and
are seen to do the same, when they are given the same commands.

* `Lockstep.Agree` — agreement, up to a relation of results;
* `Lockstep.Agree.bind`, `Lockstep.Agree.ite` — the rules of sequence and of choice;
* `Lockstep.both` — two machines that are given the same commands;
* `Lockstep.related_of_run` — **machines whose steps agree stay in step**.
-/

import OpenCache.Runs

set_option relaxedAutoImplicit false
set_option autoImplicit false

namespace Lockstep

universe u

variable {ε α β γ δ : Type u}

/-- Both computations fail with the same error, or both succeed with related results. -/
inductive Agree (R : α → β → Prop) : Except ε α → Except ε β → Prop
  | ok {a : α} {b : β} (h : R a b) : Agree R (.ok a) (.ok b)
  | error (e : ε) : Agree R (.error e) (.error e)

namespace Agree

variable {R R' : α → β → Prop} {S : γ → δ → Prop} {x : Except ε α} {y : Except ε β}

/-- A computation agrees with itself. -/
theorem refl (x : Except ε α) : Agree (fun a b => b = a) x x := by
  cases x with
  | ok a => exact .ok rfl
  | error e => exact .error e

theorem of_eq {x y : Except ε α} (h : y = x) : Agree (fun a b => b = a) x y := by
  rw [h]
  exact refl x

/-- What is known of both results may be used to relate them. -/
theorem mono (h : Agree R x y) (hR : ∀ a b, x = .ok a → y = .ok b → R a b → R' a b) :
    Agree R' x y := by
  cases h with
  | ok h => exact .ok (hR _ _ rfl rfl h)
  | error e => exact .error e

/-- **The rule of sequence.** -/
theorem bind {f : α → Except ε γ} {g : β → Except ε δ} (h : Agree R x y)
    (hf : ∀ a b, x = .ok a → y = .ok b → R a b → Agree S (f a) (g b)) :
    Agree S (x >>= f) (y >>= g) := by
  cases h with
  | ok h => exact hf _ _ rfl rfl h
  | error e => exact .error e

/-- One of the two begins with something that does not fail. -/
theorem skip_left {z : Except ε γ} {c : γ} (hz : z = .ok c) {f : γ → Except ε α}
    (h : Agree R (f c) y) : Agree R (z >>= f) y := by
  rw [hz]
  exact h

theorem skip_right {z : Except ε γ} {c : γ} (hz : z = .ok c) {g : γ → Except ε β}
    (h : Agree R x (g c)) : Agree R x (z >>= g) := by
  rw [hz]
  exact h

/-- One of the two goes on with something that does not fail. -/
theorem bind_right {g : β → Except ε δ} {S : α → δ → Prop} (h : Agree R x y)
    (hg : ∀ a b, x = .ok a → R a b → ∃ d, g b = .ok d ∧ S a d) : Agree S x (y >>= g) := by
  cases h with
  | ok h =>
      obtain ⟨d, hd, hS⟩ := hg _ _ rfl h
      change Agree S _ (g _)
      rw [hd]
      exact .ok hS
  | error e => exact .error e

/-- The rule of choice, for choices that are made alike. -/
theorem ite {p q : Prop} [Decidable p] [Decidable q] (hpq : q ↔ p) {x' : Except ε α}
    {y' : Except ε β} (hx : p → Agree R x y) (hx' : ¬p → Agree R x' y') :
    Agree R (if p then x else x') (if q then y else y') := by
  by_cases hp : p
  · rw [if_pos hp, if_pos (hpq.2 hp)]
    exact hx hp
  · rw [if_neg hp, if_neg (mt hpq.1 hp)]
    exact hx' hp

/-- Results that agree are related. -/
theorem related {a : α} {b : β} (h : Agree R (.ok a : Except ε α) (.ok b)) : R a b := by
  cases h with
  | ok h => exact h

end Agree

/-! ### Machines -/

variable {σ τ op obs : Type u}

/-- Two machines that are given the same commands. -/
def both (perform : σ → op → Except ε (σ × obs)) (perform' : τ → op → Except ε (τ × obs))
    (s : σ × τ) (o : op) : Except ε ((σ × τ) × obs × obs) := do
  let (s₁, b₁) ← perform s.1 o
  let (s₂, b₂) ← perform' s.2 o
  return ((s₁, s₂), b₁, b₂)

/-- **Machines whose steps agree stay in step**: their states stay related, and the same is seen of
both in every step. -/
theorem related_of_run {perform : σ → op → Except ε (σ × obs)}
    {perform' : τ → op → Except ε (τ × obs)} {promise : σ × τ → op → Prop} {R : σ → τ → Prop}
    (hstep : ∀ s t o, R s t → promise (s, t) o →
      Agree (fun x y => R x.1 y.1 ∧ y.2 = x.2) (perform s o) (perform' t o))
    {s : σ} {t : τ} (hR : R s t) {trace : List (obs × obs)} {st : σ × τ}
    (h : Runs.Run (both perform perform') promise (s, t) trace st) :
    R st.1 st.2 ∧ ∀ b ∈ trace, b.2 = b.1 := by
  refine h.invariant (fun trace st => R st.1 st.2 ∧ ∀ b ∈ trace, b.2 = b.1) ⟨hR, by simp⟩ ?_
  intro trace st o st' b hinv hpromise hperform
  obtain ⟨s, t⟩ := st
  obtain ⟨hR, htrace⟩ := hinv
  have hagree := hstep s t o hR hpromise
  cases hs : perform s o with
  | error e => simp [both, hs, bind, Except.bind] at hperform
  | ok x =>
      cases ht : perform' t o with
      | error e => simp [both, hs, ht, bind, Except.bind] at hperform
      | ok y =>
          rw [hs, ht] at hagree
          obtain ⟨hR', hobs⟩ := hagree.related
          simp only [both, hs, ht, bind, Except.bind, pure, Except.pure,
            Except.ok.injEq] at hperform
          cases hperform
          refine ⟨hR', fun b hb => ?_⟩
          rcases List.mem_append.1 hb with hb | hb
          · exact htrace b hb
          · rw [List.mem_singleton.1 hb]
            exact hobs

end Lockstep
