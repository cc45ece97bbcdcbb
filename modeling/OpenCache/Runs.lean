/-
Runs of a machine that consumes commands and can fail.

A machine is a function that takes a command and a state to a new state and an observation, or
fails.  The commands that may be given in a state are restricted by a *promise* of the environment.
A run records the observations of its steps; the invariant rule turns what one step preserves into
what every run preserves.

* `Runs.Run` — a run, with the list of its observations;
* `Runs.Run.invariant` — **the invariant rule**, for properties of the observations so far and the
  state reached;
* `Runs.Run.mono` — a run under a promise is a run under any weaker one;
* `Runs.withHistory` — the machine with a variable that remembers what has happened;
* `Runs.exec`, `Runs.exists_run_of_exec` — a run can be computed from its commands;
* `Runs.failure` — how a command fails.
-/

import Mathlib.Data.List.Basic
import Mathlib.Logic.Basic

set_option relaxedAutoImplicit false
set_option autoImplicit false

namespace Runs

variable {σ op obs ε : Type*}

/-- The runs from `s` of a machine under a promise, with their observations. -/
inductive Run (perform : σ → op → Except ε (σ × obs)) (promise : σ → op → Prop) (s : σ) :
    List obs → σ → Prop
  | nil : Run perform promise s [] s
  | snoc {trace : List obs} {s₁ s₂ : σ} {o : op} {b : obs} (h : Run perform promise s trace s₁)
      (hpromise : promise s₁ o) (hstep : perform s₁ o = .ok (s₂, b)) :
      Run perform promise s (trace ++ [b]) s₂

section Rules

variable {perform : σ → op → Except ε (σ × obs)} {promise : σ → op → Prop} {s : σ}

/-- **The invariant rule**: what holds at the start and is preserved by every step that keeps the
promise holds at the end of every run. -/
theorem Run.invariant (P : List obs → σ → Prop) (hinit : P [] s)
    (hstep : ∀ trace s₁ o s₂ b, P trace s₁ → promise s₁ o → perform s₁ o = .ok (s₂, b) →
      P (trace ++ [b]) s₂) {trace : List obs} {s' : σ}
    (h : Run perform promise s trace s') : P trace s' := by
  induction h with
  | nil => exact hinit
  | snoc _ hpromise hperform ih => exact hstep _ _ _ _ _ ih hpromise hperform

/-- The invariant rule, where a step may use all that is known of the run before it. -/
theorem Run.reachable_invariant (P : List obs → σ → Prop) (hinit : P [] s)
    (hstep : ∀ trace s₁ o s₂ b, Run perform promise s trace s₁ → P trace s₁ → promise s₁ o →
      perform s₁ o = .ok (s₂, b) → P (trace ++ [b]) s₂) {trace : List obs} {s' : σ}
    (h : Run perform promise s trace s') : P trace s' := by
  induction h with
  | nil => exact hinit
  | snoc hrun hpromise hperform ih => exact hstep _ _ _ _ _ hrun ih hpromise hperform

/-- The invariant rule for properties of the state alone. -/
theorem Run.state_invariant (P : σ → Prop) (hinit : P s)
    (hstep : ∀ s₁ o s₂ b, P s₁ → promise s₁ o → perform s₁ o = .ok (s₂, b) → P s₂)
    {trace : List obs} {s' : σ} (h : Run perform promise s trace s') : P s' :=
  Run.invariant (fun _ => P) hinit (fun _ s₁ o s₂ b => hstep s₁ o s₂ b) h

/-- A run under a promise is a run under any weaker one. -/
theorem Run.mono {promise' : σ → op → Prop} (hweaker : ∀ s o, promise s o → promise' s o)
    {trace : List obs} {s' : σ} (h : Run perform promise s trace s') :
    Run perform promise' s trace s' := by
  induction h with
  | nil => exact .nil
  | snoc _ hpromise hperform ih => exact .snoc ih (hweaker _ _ hpromise) hperform

end Rules

/-! ### History variables -/

section History

variable {γ : Type*} {perform : σ → op → Except ε (σ × obs)} {note : γ → σ → op → σ → obs → γ}
  {promise : σ → op → Prop} {s s' : σ} {g g' : γ} {o : op} {b : obs} {trace : List obs}

/-- The machine with a history variable: `note` updates it from what a step has done. -/
def withHistory (perform : σ → op → Except ε (σ × obs)) (note : γ → σ → op → σ → obs → γ)
    (s : σ × γ) (o : op) : Except ε ((σ × γ) × obs) :=
  match perform s.1 o with
  | .ok (s', b) => .ok ((s', note s.2 s.1 o s' b), b)
  | .error e => .error e

theorem withHistory_eq_ok : withHistory perform note (s, g) o = .ok ((s', g'), b) ↔
    perform s o = .ok (s', b) ∧ g' = note g s o s' b := by
  unfold withHistory
  cases h : perform s o with
  | error e =>
      constructor
      · intro h
        cases h
      · rintro ⟨h, -⟩
        cases h
  | ok r =>
      obtain ⟨s₁, b₁⟩ := r
      constructor
      · intro h
        cases h
        exact ⟨rfl, rfl⟩
      · rintro ⟨h, rfl⟩
        cases h
        rfl

/-- Without its history variable, a run is a run. -/
theorem Run.forget {promise' : σ × γ → op → Prop} (hweaker : ∀ s o, promise' s o → promise s.1 o)
    {s' : σ × γ} (h : Run (Runs.withHistory perform note) promise' (s, g) trace s') :
    Run perform promise s trace s'.1 := by
  induction h with
  | nil => exact .nil
  | @snoc trace s₁ s₂ o b _ hpromise hstep ih =>
      obtain ⟨s₁, g₁⟩ := s₁
      obtain ⟨s₂, g₂⟩ := s₂
      exact .snoc ih (hweaker _ _ hpromise) (withHistory_eq_ok.1 hstep).1

end History

/-! ### Runs that are computed -/

/-- Give a list of commands, checking the promise at each. -/
def exec (perform : σ → op → Except ε (σ × obs)) (promise : σ → op → Prop)
    [∀ s o, Decidable (promise s o)] (s : σ) : List op → Option (List obs × σ)
  | [] => some ([], s)
  | o :: rest =>
      if promise s o then
        match perform s o with
        | .ok (s₁, b) => (exec perform promise s₁ rest).map fun r => (b :: r.1, r.2)
        | .error _ => none
      else none

/-- A run can be extended at its start. -/
private theorem run_cons {perform : σ → op → Except ε (σ × obs)} {promise : σ → op → Prop}
    {s s₁ s₂ : σ} {o : op} {b : obs} {trace : List obs} (hpromise : promise s o)
    (hstep : perform s o = .ok (s₁, b)) (h : Run perform promise s₁ trace s₂) :
    Run perform promise s (b :: trace) s₂ := by
  induction h with
  | nil => exact @Run.snoc _ _ _ _ _ _ _ [] _ _ _ _ .nil hpromise hstep
  | snoc _ hp hs ih => exact .snoc ih hp hs

/-- What `exec` computes is a run. -/
theorem run_of_exec {perform : σ → op → Except ε (σ × obs)} {promise : σ → op → Prop}
    [∀ s o, Decidable (promise s o)] {s s' : σ} {ops : List op} {trace : List obs}
    (h : exec perform promise s ops = some (trace, s')) : Run perform promise s trace s' := by
  induction ops generalizing s trace with
  | nil =>
      cases h
      exact .nil
  | cons o rest ih =>
      rw [exec] at h
      split at h
      · next hp =>
          split at h
          · next s₁ b hs =>
              obtain ⟨⟨trace₁, s₂⟩, hrest, heq⟩ := Option.map_eq_some_iff.1 h
              cases heq
              exact run_cons hp hs (ih hrest)
          · cases h
      · cases h

/-- A run to a state with a given property can be found by computing it. -/
theorem exists_run_of_exec {perform : σ → op → Except ε (σ × obs)} {promise : σ → op → Prop}
    [∀ s o, Decidable (promise s o)] {s : σ} {Q : List obs → σ → Prop}
    [∀ trace s, Decidable (Q trace s)] (ops : List op)
    (h : (exec perform promise s ops).any (fun r => decide (Q r.1 r.2)) = true) :
    ∃ trace s', Run perform promise s trace s' ∧ Q trace s' := by
  cases hr : exec perform promise s ops with
  | none => simp [hr] at h
  | some r =>
      rw [hr] at h
      exact ⟨r.1, r.2, run_of_exec hr, of_decide_eq_true h⟩

/-- The failure of a command, as a value that can be compared. -/
def failure {α : Type*} : Except ε α → Option ε
  | .ok _ => none
  | .error e => some e

theorem failure_eq_some {α : Type*} {x : Except ε α} {e : ε} :
    failure x = some e ↔ x = .error e := by
  cases x with
  | ok a =>
      constructor
      · intro h
        cases h
      · intro h
        cases h
  | error e' =>
      constructor
      · intro h
        cases h
        rfl
      · intro h
        cases h
        rfl

end Runs
