/-
Deferred reads and writes of a store.

A queue holds reads and writes of a store that are carried out later, from its front.  Each read was
queued with the value it is to find.  What matters is the store as it will be when the queue is
empty: a read that finds its value there may be queued, whatever is queued behind it later.

* `Deferred.settle` — the store after all the writes of a queue;
* `Deferred.Sound` — every read of a queue will find its value, `Deferred.sound_append`;
* `Deferred.sound_queue_read`, `Deferred.sound_queue_write` — what may be queued.
-/

import Mathlib.Logic.Function.Basic

set_option relaxedAutoImplicit false
set_option autoImplicit false

namespace Deferred

/-- A deferred read, with the value it is to find, or a deferred write. -/
inductive Action (ι β : Type*)
  | read (i : ι) (b : β)
  | write (i : ι) (b : β)

variable {ι β : Type*} [DecidableEq ι] {d : ι → β} {l l' : List (Action ι β)} {i : ι} {b : β}

/-- What carrying out an action does to the store. -/
def Action.apply (d : ι → β) : Action ι β → ι → β
  | .read _ _ => d
  | .write i b => Function.update d i b

/-- The store after all the actions of a queue. -/
def settle (d : ι → β) (l : List (Action ι β)) : ι → β := l.foldl Action.apply d

/-- Every read of a queue will find its value. -/
def Sound (d : ι → β) : List (Action ι β) → Prop
  | [] => True
  | .read i b :: l => d i = b ∧ Sound d l
  | .write i b :: l => Sound (Function.update d i b) l

@[simp] theorem settle_nil : settle d [] = d := rfl

theorem settle_append : settle d (l ++ l') = settle (settle d l) l' := List.foldl_append

/-- A queue is sound when its front is, and its back is for the store that the front leaves. -/
theorem sound_append : Sound d (l ++ l') ↔ Sound d l ∧ Sound (settle d l) l' := by
  induction l generalizing d with
  | nil => exact ⟨fun h => ⟨trivial, h⟩, And.right⟩
  | cons a l ih =>
      cases a with
      | read i b =>
          change d i = b ∧ Sound d (l ++ l') ↔ (d i = b ∧ Sound d l) ∧ Sound (settle d l) l'
          rw [ih, and_assoc]
      | write i b => exact ih

/-- A read may be queued when the settled store has its value. -/
theorem sound_queue_read (h : Sound d l) (hi : settle d l i = b) :
    Sound d (l ++ [.read i b]) :=
  sound_append.2 ⟨h, hi, trivial⟩

/-- A write may always be queued. -/
theorem sound_queue_write (h : Sound d l) (i : ι) (b : β) : Sound d (l ++ [.write i b]) :=
  sound_append.2 ⟨h, trivial⟩

theorem settle_queue_read (i : ι) (b : β) : settle d (l ++ [.read i b]) = settle d l :=
  settle_append

theorem settle_queue_write (i : ι) (b : β) :
    settle d (l ++ [.write i b]) = Function.update (settle d l) i b :=
  settle_append

end Deferred
