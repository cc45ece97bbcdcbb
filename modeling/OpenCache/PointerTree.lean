/-
Binary trees with a pointer at every node.

The pointers lead from the root to one leaf, the *target*.  To aim at a leaf turns the pointers on
its path towards it; to aim away from a leaf turns them away.  A tree is used to choose among its
leaves: whoever is chosen, or used, is turned away from.

* `PointerTree`, `PointerTree.target`, `PointerTree.aim` — the tree and its operations;
* `PointerTree.target_foldl_away_ne` — **a leaf that was turned away from is not the target for
  fewer further turns than its depth**;
* `PointerTree.exists_turns` — as many turns as its depth can make it the target;
* `PointerTree.count_targets` — **among `2 ^ d` consecutive targets, each turned away from, every
  leaf of depth `d` occurs exactly once**;
* `PointerTree.iterate_turn` — after `2 ^ h` such turns a tree of height `h` is what it was.
-/

import Mathlib.Data.List.Basic
import Mathlib.Data.List.Nodup
import Mathlib.Data.List.Count
import Mathlib.Logic.Function.Iterate
import Mathlib.Tactic.Ring

set_option relaxedAutoImplicit false
set_option autoImplicit false

/-- A leaf, or a node with its pointer, which is set when it points to the right. -/
inductive PointerTree (α : Type*) where
  | leaf (a : α) : PointerTree α
  | node (right : Bool) (l r : PointerTree α) : PointerTree α

namespace PointerTree

variable {α : Type*}

/-- The leaves, from left to right. -/
def leaves : PointerTree α → List α
  | leaf a => [a]
  | node _ l r => l.leaves ++ r.leaves

@[simp] theorem leaves_leaf (a : α) : (leaf a).leaves = [a] := rfl

@[simp] theorem leaves_node (b : Bool) (l r : PointerTree α) :
    (node b l r).leaves = l.leaves ++ r.leaves := rfl

/-- The leaf to which the pointers lead. -/
def target : PointerTree α → α
  | leaf a => a
  | node right l r => if right then r.target else l.target

@[simp] theorem target_leaf (a : α) : (leaf a).target = a := rfl

@[simp] theorem target_node_true (l r : PointerTree α) : (node true l r).target = r.target := rfl

@[simp] theorem target_node_false (l r : PointerTree α) : (node false l r).target = l.target := rfl

theorem target_mem (t : PointerTree α) : t.target ∈ t.leaves := by
  induction t with
  | leaf a => exact List.mem_singleton_self a
  | node b l r ihl ihr =>
      cases b with
      | false => exact List.mem_append_left _ ihl
      | true => exact List.mem_append_right _ ihr

/-- The number of the nodes above the deepest leaf. -/
def height : PointerTree α → ℕ
  | leaf _ => 0
  | node _ l r => max l.height r.height + 1

variable [DecidableEq α] {a x y : α} {t l r : PointerTree α} {b d : Bool}

/-- Turn the pointers on the path of a leaf, towards it or away from it. -/
def aim (d : Bool) (x : α) : PointerTree α → PointerTree α
  | leaf a => leaf a
  | node right l r =>
      if x ∈ r.leaves then node d l (r.aim d x)
      else if x ∈ l.leaves then node (!d) (l.aim d x) r
      else node right l r

/-- The number of the nodes on the path of a leaf. -/
def depth (x : α) : PointerTree α → ℕ
  | leaf _ => 0
  | node _ l r => (if x ∈ r.leaves then r.depth x else l.depth x) + 1

/-- The number of the pointers on the path of a leaf that point towards it. -/
def pulls (x : α) : PointerTree α → ℕ
  | leaf _ => 0
  | node right l r =>
      if x ∈ r.leaves then right.toNat + r.pulls x else (!right).toNat + l.pulls x

@[simp] theorem aim_leaf : (leaf a).aim d x = leaf a := rfl

@[simp] theorem depth_leaf : (leaf a).depth x = 0 := rfl

@[simp] theorem pulls_leaf : (leaf a).pulls x = 0 := rfl

theorem aim_of_mem_right (h : x ∈ r.leaves) : (node b l r).aim d x = node d l (r.aim d x) :=
  if_pos h

theorem aim_of_mem_left (h : x ∈ l.leaves) (hr : x ∉ r.leaves) :
    (node b l r).aim d x = node (!d) (l.aim d x) r :=
  (if_neg hr).trans (if_pos h)

@[simp] theorem leaves_aim : (t.aim d x).leaves = t.leaves := by
  induction t with
  | leaf a => rfl
  | node b l r ihl ihr =>
      unfold aim
      split
      · rw [leaves_node, ihr, leaves_node]
      · split
        · rw [leaves_node, ihl, leaves_node]
        · rfl

@[simp] theorem depth_aim : (t.aim d x).depth y = t.depth y := by
  induction t with
  | leaf a => rfl
  | node b l r ihl ihr =>
      unfold aim
      split
      · simp only [depth, leaves_aim, ihr]
      · split
        · simp only [depth, ihl]
        · rfl

theorem aim_of_not_mem (h : x ∉ t.leaves) : t.aim d x = t := by
  cases t with
  | leaf a => rfl
  | node b l r =>
      rw [leaves_node, List.mem_append, not_or] at h
      exact (if_neg h.2).trans (if_neg h.1)

/-- Of two aims at one leaf the second decides. -/
theorem aim_aim {e : Bool} : (t.aim e x).aim d x = t.aim d x := by
  induction t with
  | leaf a => rfl
  | node b l r ihl ihr =>
      by_cases hxr : x ∈ r.leaves
      · rw [aim_of_mem_right hxr, aim_of_mem_right hxr, aim_of_mem_right (by rwa [leaves_aim]), ihr]
      · by_cases hxl : x ∈ l.leaves
        · rw [aim_of_mem_left hxl hxr, aim_of_mem_left hxl hxr,
            aim_of_mem_left (by rwa [leaves_aim]) hxr, ihl]
        · have hnot : x ∉ (node b l r).leaves := fun h => (List.mem_append.1 h).elim hxl hxr
          rw [aim_of_not_mem hnot]

/-! ### The target and the pulls -/

theorem pulls_le_depth : t.pulls x ≤ t.depth x := by
  induction t with
  | leaf a => exact Nat.le_refl 0
  | node b l r ihl ihr =>
      unfold pulls depth
      split
      · have := b.toNat_le
        omega
      · have := (!b).toNat_le
        omega

/-- **The target is the leaf towards which all pointers on its path point.** -/
theorem target_eq_iff (hnodup : t.leaves.Nodup) (hx : x ∈ t.leaves) :
    t.target = x ↔ t.pulls x = t.depth x := by
  induction t with
  | leaf a => exact ⟨fun _ => rfl, fun _ => (List.mem_singleton.1 hx).symm⟩
  | node b l r ihl ihr =>
      obtain ⟨hl, hr, hdisjoint⟩ := List.nodup_append'.1 hnodup
      have hpl := l.pulls_le_depth (x := x)
      have hpr := r.pulls_le_depth (x := x)
      by_cases hxr : x ∈ r.leaves
      · simp only [pulls, depth, if_pos hxr]
        cases b with
        | false =>
            constructor
            · intro h
              exact absurd hxr (hdisjoint (h ▸ l.target_mem))
            · simp only [Bool.toNat_false]
              omega
        | true =>
            rw [target_node_true, ihr hr hxr, Bool.toNat_true]
            omega
      · have hxl := (List.mem_append.1 hx).resolve_right hxr
        simp only [pulls, depth, if_neg hxr]
        cases b with
        | false =>
            rw [target_node_false, ihl hl hxl, Bool.not_false, Bool.toNat_true]
            omega
        | true =>
            constructor
            · intro h
              exact absurd (h ▸ r.target_mem) hxr
            · simp only [Bool.not_true, Bool.toNat_false]
              omega

/-- After aiming at a leaf all pointers on its path point towards it, or all away from it. -/
theorem pulls_aim_self (hx : x ∈ t.leaves) :
    (t.aim d x).pulls x = if d then t.depth x else 0 := by
  induction t with
  | leaf a => simp
  | node b l r ihl ihr =>
      by_cases hxr : x ∈ r.leaves
      · rw [aim_of_mem_right hxr]
        simp only [pulls, depth, leaves_aim, if_pos hxr, ihr hxr]
        cases d with
        | false => rfl
        | true => simp [Nat.add_comm]
      · have hxl := (List.mem_append.1 hx).resolve_right hxr
        rw [aim_of_mem_left hxl hxr]
        simp only [pulls, depth, if_neg hxr, ihl hxl]
        cases d with
        | false => rfl
        | true => simp [Nat.add_comm]

/-- To turn away from a leaf turns at most one pointer towards another: that of the node where the
two paths part. -/
theorem pulls_aim_le : (t.aim false y).pulls x ≤ t.pulls x + 1 := by
  induction t with
  | leaf a => simp
  | node b l r ihl ihr =>
      unfold aim
      split
      · next hyr =>
          simp only [pulls, leaves_aim]
          split
          · simp only [Bool.toNat_false]
            omega
          · simp only [Bool.not_false, Bool.toNat_true]
            omega
      · split
        · next hyl =>
            simp only [pulls]
            split
            · simp only [Bool.not_false, Bool.toNat_true]
              omega
            · simp only [Bool.not_not, Bool.toNat_false]
              omega
        · omega

/-! ### Turns away from leaves -/

@[simp] theorem leaves_foldl_away (l : List α) :
    (l.foldl (fun t y => t.aim false y) t).leaves = t.leaves := by
  induction l generalizing t with
  | nil => rfl
  | cons y l ih => rw [List.foldl_cons, ih, leaves_aim]

@[simp] theorem depth_foldl_away (l : List α) :
    (l.foldl (fun t y => t.aim false y) t).depth x = t.depth x := by
  induction l generalizing t with
  | nil => rfl
  | cons y l ih => rw [List.foldl_cons, ih, depth_aim]

theorem pulls_foldl_away_le (l : List α) :
    (l.foldl (fun t y => t.aim false y) t).pulls x ≤ t.pulls x + l.length := by
  induction l generalizing t with
  | nil => exact Nat.le_refl _
  | cons y l ih =>
      rw [List.foldl_cons, List.length_cons]
      have hstep : (t.aim false y).pulls x ≤ t.pulls x + 1 := pulls_aim_le
      have hrest := ih (t := t.aim false y)
      omega

/-- **A leaf that was turned away from is not the target for fewer further turns than
its depth.** -/
theorem target_foldl_away_ne (hnodup : t.leaves.Nodup) (hx : x ∈ t.leaves) {l : List α}
    (hl : l.length < t.depth x) :
    (l.foldl (fun t y => t.aim false y) (t.aim false x)).target ≠ x := by
  have hpulls := pulls_foldl_away_le (x := x) (t := t.aim false x) l
  rw [pulls_aim_self hx, if_neg Bool.false_ne_true, Nat.zero_add] at hpulls
  rw [Ne, target_eq_iff (by rwa [leaves_foldl_away, leaves_aim])
    (by rwa [leaves_foldl_away, leaves_aim]), depth_foldl_away, depth_aim]
  omega

private theorem foldl_right {l : PointerTree α} (turns : List α) (h : ∀ y ∈ turns, y ∈ r.leaves) :
    ∃ b', turns.foldl (fun t y => t.aim false y) (node b l r) =
      node b' l (turns.foldl (fun t y => t.aim false y) r) := by
  induction turns generalizing b r with
  | nil => exact ⟨b, rfl⟩
  | cons y turns ih =>
      rw [List.foldl_cons, aim_of_mem_right (h y List.mem_cons_self)]
      refine ih fun z hz => ?_
      rw [leaves_aim]
      exact h z (List.mem_cons_of_mem _ hz)

private theorem foldl_left {r : PointerTree α} (turns : List α)
    (h : ∀ y ∈ turns, y ∈ l.leaves ∧ y ∉ r.leaves) :
    ∃ b', turns.foldl (fun t y => t.aim false y) (node b l r) =
      node b' (turns.foldl (fun t y => t.aim false y) l) r := by
  induction turns generalizing b l with
  | nil => exact ⟨b, rfl⟩
  | cons y turns ih =>
      obtain ⟨hl, hr⟩ := h y List.mem_cons_self
      rw [List.foldl_cons, aim_of_mem_left hl hr]
      refine ih fun z hz => ?_
      rw [leaves_aim]
      exact h z (List.mem_cons_of_mem _ hz)

/-- As many turns away from other leaves as its depth can make a leaf the target: one at each
node of its path, the deepest first. -/
theorem exists_turns (hnodup : t.leaves.Nodup) (hx : x ∈ t.leaves) :
    ∃ turns : List α, turns.length = t.depth x ∧ (∀ y ∈ turns, y ∈ t.leaves ∧ y ≠ x) ∧
      (turns.foldl (fun t y => t.aim false y) t).target = x := by
  induction t with
  | leaf a => exact ⟨[], rfl, fun y hy => absurd hy List.not_mem_nil,
      (List.mem_singleton.1 hx).symm⟩
  | node b l r ihl ihr =>
      obtain ⟨hl, hr, hdisjoint⟩ := List.nodup_append'.1 hnodup
      by_cases hxr : x ∈ r.leaves
      · obtain ⟨turns, hlength, hturns, htarget⟩ := ihr hr hxr
        have hother : l.target ∉ r.leaves := hdisjoint l.target_mem
        refine ⟨turns ++ [l.target], ?_, ?_, ?_⟩
        · rw [List.length_append, hlength, List.length_singleton, depth, if_pos hxr]
        · intro y hy
          rcases List.mem_append.1 hy with hy | hy
          · exact ⟨List.mem_append_right _ (hturns y hy).1, (hturns y hy).2⟩
          · rw [List.mem_singleton.1 hy]
            exact ⟨List.mem_append_left _ l.target_mem, fun h => hother (h ▸ hxr)⟩
        · obtain ⟨b', hfold⟩ := foldl_right (b := b) (l := l) turns fun y hy => (hturns y hy).1
          rw [List.foldl_append, hfold, List.foldl_cons, List.foldl_nil,
            aim_of_mem_left l.target_mem (by rwa [leaves_foldl_away]), Bool.not_false,
            target_node_true, htarget]
      · have hxl := (List.mem_append.1 hx).resolve_right hxr
        obtain ⟨turns, hlength, hturns, htarget⟩ := ihl hl hxl
        refine ⟨turns ++ [r.target], ?_, ?_, ?_⟩
        · rw [List.length_append, hlength, List.length_singleton, depth, if_neg hxr]
        · intro y hy
          rcases List.mem_append.1 hy with hy | hy
          · exact ⟨List.mem_append_left _ (hturns y hy).1, (hturns y hy).2⟩
          · rw [List.mem_singleton.1 hy]
            exact ⟨List.mem_append_right _ r.target_mem, fun h => hxr (h ▸ r.target_mem)⟩
        · obtain ⟨b', hfold⟩ := foldl_left (b := b) (r := r) turns
            fun y hy => ⟨(hturns y hy).1, hdisjoint (hturns y hy).1⟩
          rw [List.foldl_append, hfold, List.foldl_cons, List.foldl_nil,
            aim_of_mem_right r.target_mem, target_node_false, htarget]

/-! ### Turns away from the target -/

/-- Turn away from the target. -/
def turn (t : PointerTree α) : PointerTree α := t.aim false t.target

/-- The targets of consecutive turns. -/
def targets (t : PointerTree α) : ℕ → List α
  | 0 => []
  | k + 1 => t.target :: t.turn.targets k

@[simp] theorem targets_zero : t.targets 0 = [] := rfl

theorem targets_succ (k : ℕ) : t.targets (k + 1) = t.target :: t.turn.targets k := rfl

@[simp] theorem length_targets (k : ℕ) : (t.targets k).length = k := by
  induction k generalizing t with
  | zero => rfl
  | succ k ih => rw [targets_succ, List.length_cons, ih]

@[simp] theorem leaves_turn : t.turn.leaves = t.leaves := leaves_aim

theorem mem_of_mem_targets {k : ℕ} (h : x ∈ t.targets k) : x ∈ t.leaves := by
  induction k generalizing t with
  | zero => exact absurd h List.not_mem_nil
  | succ k ih =>
      rcases List.mem_cons.1 h with rfl | h
      · exact t.target_mem
      · rw [← leaves_turn]
        exact ih h

@[simp] theorem turn_leaf : (leaf a).turn = leaf a := rfl

@[simp] theorem turn_node_true : (node true l r).turn = node false l r.turn :=
  aim_of_mem_right r.target_mem

theorem turn_node_false (hnodup : (node false l r).leaves.Nodup) :
    (node false l r).turn = node true l.turn r :=
  aim_of_mem_left l.target_mem ((List.nodup_append'.1 hnodup).2.2 l.target_mem)

/-- Two turns turn each subtree once. -/
theorem turn_turn (hnodup : (node b l r).leaves.Nodup) :
    (node b l r).turn.turn = node b l.turn r.turn := by
  cases b with
  | false => rw [turn_node_false hnodup, turn_node_true]
  | true =>
      rw [turn_node_true, turn_node_false]
      rwa [leaves_node, leaves_turn]

/-- The targets of an even number of turns are those of half as many turns in each subtree. -/
theorem count_targets_node (hnodup : (node b l r).leaves.Nodup) (k : ℕ) :
    ((node b l r).targets (2 * k)).count x = (l.targets k).count x + (r.targets k).count x := by
  induction k generalizing l r with
  | zero => rfl
  | succ k ih =>
      have hnodup' : (node b l.turn r.turn).leaves.Nodup := by
        rwa [leaves_node, leaves_turn, leaves_turn]
      rw [Nat.mul_succ, targets_succ, targets_succ, turn_turn hnodup, targets_succ, targets_succ]
      simp only [List.count_cons, ih hnodup']
      cases b with
      | false =>
          rw [turn_node_false hnodup, target_node_false, target_node_true]
          omega
      | true =>
          rw [turn_node_true, target_node_false, target_node_true]
          omega

/-- **Among `2 ^ d` consecutive targets, each turned away from, every leaf of depth `d` occurs
exactly once.** -/
theorem count_targets (hnodup : t.leaves.Nodup) (hx : x ∈ t.leaves) :
    (t.targets (2 ^ t.depth x)).count x = 1 := by
  induction t with
  | leaf a =>
      rw [List.mem_singleton.1 hx]
      exact List.count_singleton_self
  | node b l r ihl ihr =>
      obtain ⟨hl, hr, hdisjoint⟩ := List.nodup_append'.1 hnodup
      rw [depth, Nat.pow_succ', count_targets_node hnodup]
      by_cases hxr : x ∈ r.leaves
      · have hxl : x ∉ l.leaves := fun h => hdisjoint h hxr
        rw [if_pos hxr, ihr hr hxr, List.count_eq_zero.2 fun h => hxl (mem_of_mem_targets h)]
      · have hxl := (List.mem_append.1 hx).resolve_right hxr
        rw [if_neg hxr, ihl hl hxl, List.count_eq_zero.2 fun h => hxr (mem_of_mem_targets h)]

/-- An even number of turns turns each subtree half as often. -/
theorem iterate_turn_node (hnodup : (node b l r).leaves.Nodup) (k : ℕ) :
    turn^[2 * k] (node b l r) = node b (turn^[k] l) (turn^[k] r) := by
  induction k generalizing l r with
  | zero => rfl
  | succ k ih =>
      rw [Nat.mul_succ, Function.iterate_add_apply, Function.iterate_succ_apply,
        Function.iterate_one, turn_turn hnodup, ih (by rwa [leaves_node, leaves_turn, leaves_turn])]
      rfl

/-- **After `2 ^ h` turns a tree of height at most `h` is what it was.** -/
theorem iterate_turn (hnodup : t.leaves.Nodup) {h : ℕ} (hh : t.height ≤ h) :
    turn^[2 ^ h] t = t := by
  induction t generalizing h with
  | leaf a => exact Function.iterate_fixed turn_leaf _
  | node b l r ihl ihr =>
      obtain ⟨hl, hr, -⟩ := List.nodup_append'.1 hnodup
      obtain ⟨h, rfl⟩ : ∃ k, h = k + 1 := ⟨h - 1, by unfold height at hh; omega⟩
      have hhl : l.height ≤ h := by unfold height at hh; omega
      have hhr : r.height ≤ h := by unfold height at hh; omega
      rw [Nat.pow_succ', iterate_turn_node hnodup, ihl hl hhl, ihr hr hhr]

end PointerTree
