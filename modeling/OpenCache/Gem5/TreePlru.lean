/-
`TreePLRU`: the tree pseudo-LRU replacement policy.

The pointers of a tree are kept in an array of bits in heap order; the leaves are not stored,
and the index of an entry is the one its leaf would have.  `touch` and `invalidate` climb
from the leaf to the root, `getVictim` goes down from the root, and `numLeaves` consecutive
entries share one tree.

* `OpenCache.TreePLRU` — the policy, with the trees it has made;
* `OpenCache.TreePLRU.subtree` — the pointer tree that an array of bits stands for;
* `OpenCache.TreePLRU.subtree_climb` — the climb from a leaf aims at it, or away from it;
* `OpenCache.TreePLRU.descend_eq_target` — the way down leads to the target;
* `OpenCache.TreePLRU.depth_leaf` — the depth of a leaf is the logarithm of its index.
-/

import OpenCache.PointerTree
import Mathlib.Data.Nat.Log

set_option relaxedAutoImplicit false
set_option autoImplicit false

namespace OpenCache

/-- An entry of a table, at the position where its indexing policy has put it. -/
structure ReplaceableEntry (ρ : Type*) where
  set : ℕ
  way : ℕ
  replacementData : ρ
  deriving DecidableEq, Repr

/-- The bits of the nodes that are not leaves; a bit that is set points to the right. -/
abbrev PLRUTree := List Bool

/-- The index of an entry in its tree, and the tree among those that the policy has made. -/
structure TreePLRUReplData where
  index : ℕ
  tree : ℕ
  deriving DecidableEq, Repr

/-- The policy.  The trees are in the order in which they were made, so that the last of them is
`treeInstance`. -/
structure TreePLRU where
  numLeaves : ℕ
  count : ℕ
  trees : List PLRUTree
  deriving DecidableEq, Repr

namespace TreePLRU

def parentIndex (index : ℕ) : ℕ := (index - 1) / 2

def leftSubtreeIndex (index : ℕ) : ℕ := 2 * index + 1

def rightSubtreeIndex (index : ℕ) : ℕ := 2 * index + 2

def isRightSubtree (index : ℕ) : Bool := index % 2 == 0

/-- The constructor fails without leaves. -/
def new (numLeaves : ℕ) : Option TreePLRU := if numLeaves < 1 then none else some ⟨numLeaves, 0, []⟩

/-- The loop of `touch` and `invalidate`, which turn the nodes away from where it comes from or
towards it.  `at` throws where there is no node, and below index 0 `parentIndex` wraps around. -/
def climb (toward : Bool) (treeIndex : ℕ) (tree : PLRUTree) : Option PLRUTree :=
  if treeIndex = 0 then none
  else
    let right := isRightSubtree treeIndex
    let parent := parentIndex treeIndex
    if parent < tree.length then
      let tree := tree.set parent (if toward then right else !right)
      if parent = 0 then some tree else climb toward parent tree
    else none
termination_by treeIndex
decreasing_by unfold parentIndex; omega

/-- Climb in the tree of an entry. -/
def update (toward : Bool) (data : TreePLRUReplData) (p : TreePLRU) : Option TreePLRU := do
  let tree ← p.trees[data.tree]?
  let tree ← climb toward data.index tree
  some { p with trees := p.trees.set data.tree tree }

def invalidate (data : TreePLRUReplData) (p : TreePLRU) : Option TreePLRU := p.update true data

def touch (data : TreePLRUReplData) (p : TreePLRU) : Option TreePLRU := p.update false data

def reset (data : TreePLRUReplData) (p : TreePLRU) : Option TreePLRU := p.touch data

/-- The loop of `getVictim`. -/
def descend (treeIndex : ℕ) (tree : PLRUTree) : ℕ :=
  if treeIndex < tree.length then
    if tree.getD treeIndex false then descend (rightSubtreeIndex treeIndex) tree
    else descend (leftSubtreeIndex treeIndex) tree
  else treeIndex
termination_by tree.length - treeIndex
decreasing_by
  · unfold rightSubtreeIndex; omega
  · unfold leftSubtreeIndex; omega

/-- The tree is that of the first candidate; the second `at` throws where there is no candidate. -/
def getVictim (candidates : List (ReplaceableEntry TreePLRUReplData)) (p : TreePLRU) :
    Option (ReplaceableEntry TreePLRUReplData) := do
  let first ← candidates.head?
  let tree ← p.trees[first.replacementData.tree]?
  candidates[descend 0 tree - (p.numLeaves - 1)]?

def instantiateEntry (p : TreePLRU) : TreePLRUReplData × TreePLRU :=
  let trees := if p.count % p.numLeaves = 0 then p.trees ++ [List.replicate (p.numLeaves - 1) false]
    else p.trees
  (⟨p.count % p.numLeaves + p.numLeaves - 1, trees.length - 1⟩,
    { p with count := p.count + 1, trees := trees })

/-! ### The tree that an array stands for -/

/-- The subtree at an index of a heap with so many inner nodes. -/
def subtree (bits : ℕ → Bool) (size index : ℕ) : PointerTree ℕ :=
  if index < size then
    .node (bits index) (subtree bits size (leftSubtreeIndex index))
      (subtree bits size (rightSubtreeIndex index))
  else .leaf index
termination_by size - index
decreasing_by
  · unfold leftSubtreeIndex; omega
  · unfold rightSubtreeIndex; omega

theorem subtree_of_lt {bits : ℕ → Bool} {size index : ℕ} (h : index < size) :
    subtree bits size index = .node (bits index) (subtree bits size (leftSubtreeIndex index))
      (subtree bits size (rightSubtreeIndex index)) := by
  rw [subtree, if_pos h]

theorem subtree_of_le {bits : ℕ → Bool} {size index : ℕ} (h : size ≤ index) :
    subtree bits size index = .leaf index := by
  rw [subtree, if_neg h.not_gt]

/-- The nodes above an index, and the index itself. -/
inductive Above : ℕ → ℕ → Prop
  | refl (i : ℕ) : Above i i
  | up {j i : ℕ} (h : i ≠ 0) : Above j (parentIndex i) → Above j i

namespace Above

variable {i j : ℕ}

theorem le (h : Above j i) : j ≤ i := by
  induction h with
  | refl => exact Nat.le_refl _
  | up _ _ ih => exact ih.trans (by unfold parentIndex; omega)

theorem root (i : ℕ) : Above 0 i := by
  induction i using Nat.strongRecOn with
  | ind i ih =>
      by_cases h : i = 0
      · exact h ▸ .refl 0
      · exact .up h (ih _ (by unfold parentIndex; omega))

/-- What is below a node, other than the node itself, is below one of its children. -/
theorem child (h : Above j i) (hne : j ≠ i) :
    Above (leftSubtreeIndex j) i ∨ Above (rightSubtreeIndex j) i := by
  induction h with
  | refl => exact absurd rfl hne
  | @up i h habove ih =>
      by_cases hj : j = parentIndex i
      · have hchild : i = leftSubtreeIndex j ∨ i = rightSubtreeIndex j := by
          unfold parentIndex at hj
          unfold leftSubtreeIndex rightSubtreeIndex
          omega
        rcases hchild with heq | heq
        · exact Or.inl (heq ▸ .refl _)
        · exact Or.inr (heq ▸ .refl _)
      · exact (ih hj).imp (.up h) (.up h)

theorem of_left (h : Above (leftSubtreeIndex j) i) : Above j i := by
  induction h with
  | refl =>
      refine .up (Nat.succ_ne_zero _) ?_
      have hparent : parentIndex (leftSubtreeIndex j) = j := by
        unfold parentIndex leftSubtreeIndex
        omega
      rw [hparent]
      exact .refl j
  | up h _ ih => exact .up h ih

theorem of_right (h : Above (rightSubtreeIndex j) i) : Above j i := by
  induction h with
  | refl =>
      refine .up (Nat.succ_ne_zero _) ?_
      have hparent : parentIndex (rightSubtreeIndex j) = j := by
        unfold parentIndex rightSubtreeIndex
        omega
      rw [hparent]
      exact .refl j
  | up h _ ih => exact .up h ih

theorem eq_or_up (h : Above j i) : j = i ∨ i ≠ 0 ∧ Above j (parentIndex i) := by
  cases h with
  | refl => exact Or.inl rfl
  | up hne habove => exact Or.inr ⟨hne, habove⟩

/-- An index is not below both children of a node. -/
theorem not_both (hr : Above (rightSubtreeIndex j) i) : ¬Above (leftSubtreeIndex j) i := by
  induction i using Nat.strongRecOn with
  | ind i ih =>
      intro hl
      have hlr : leftSubtreeIndex j ≠ rightSubtreeIndex j := Nat.ne_of_lt (Nat.lt_succ_self _)
      have hparent : parentIndex (rightSubtreeIndex j) = j ∧
          parentIndex (leftSubtreeIndex j) = j := by
        unfold parentIndex rightSubtreeIndex leftSubtreeIndex
        omega
      have hlow : ¬Above (leftSubtreeIndex j) j ∧ ¬Above (rightSubtreeIndex j) j := by
        constructor
        · intro h
          have := h.le
          unfold leftSubtreeIndex at this
          omega
        · intro h
          have := h.le
          unfold rightSubtreeIndex at this
          omega
      rcases hl.eq_or_up with rfl | ⟨hne, hl⟩
      · rcases hr.eq_or_up with heq | ⟨-, hr⟩
        · exact hlr heq.symm
        · rw [hparent.2] at hr
          exact hlow.2 hr
      · rcases hr.eq_or_up with rfl | ⟨-, hr⟩
        · rw [hparent.1] at hl
          exact hlow.1 hl
        · exact ih (parentIndex i) (by unfold parentIndex; omega) hr hl

end Above

variable {bits : ℕ → Bool} {size i j : ℕ}

/-- The indices of the leaves: the root alone, or the indices after the inner nodes that are
children of one. -/
def IsLeaf (size i : ℕ) : Prop := size ≤ i ∧ i ≤ 2 * size

theorem mem_leaves_subtree (hj : j ≤ 2 * size) :
    i ∈ (subtree bits size j).leaves ↔ IsLeaf size i ∧ Above j i := by
  induction j using subtree.induct size with
  | case1 j h ihl ihr =>
      rw [subtree_of_lt h, PointerTree.leaves_node, List.mem_append,
        ihl (by unfold leftSubtreeIndex; omega), ihr (by unfold rightSubtreeIndex; omega),
        ← and_or_left]
      refine and_congr_right fun hi => ⟨?_, fun habove => habove.child ?_⟩
      · rintro (habove | habove)
        · exact habove.of_left
        · exact habove.of_right
      · have := hi.1
        omega
  | case2 j h =>
      rw [subtree_of_le (not_lt.1 h), PointerTree.leaves_leaf, List.mem_singleton]
      constructor
      · rintro rfl
        exact ⟨⟨not_lt.1 h, hj⟩, .refl i⟩
      · rintro ⟨⟨hi, hi'⟩, habove⟩
        cases habove with
        | refl => rfl
        | up hne habove =>
            have hle := habove.le
            unfold parentIndex at hle
            omega

theorem nodup_leaves_subtree (hj : j ≤ 2 * size) : (subtree bits size j).leaves.Nodup := by
  induction j using subtree.induct size with
  | case1 j h ihl ihr =>
      have hl : leftSubtreeIndex j ≤ 2 * size := by unfold leftSubtreeIndex; omega
      have hr : rightSubtreeIndex j ≤ 2 * size := by unfold rightSubtreeIndex; omega
      rw [subtree_of_lt h, PointerTree.leaves_node, List.nodup_append']
      refine ⟨ihl hl, ihr hr, fun i hil hir => ?_⟩
      exact ((mem_leaves_subtree hr).1 hir).2.not_both ((mem_leaves_subtree hl).1 hil).2
  | case2 j h =>
      rw [subtree_of_le (not_lt.1 h)]
      exact List.nodup_singleton j

theorem log_double {k b : ℕ} (hk : k ≠ 0) (hb : b < 2) :
    Nat.log 2 (2 * k + b) = Nat.log 2 k + 1 := by
  have hdiv : (2 * k + b) / 2 = k := by omega
  rw [Nat.log_of_one_lt_of_le Nat.one_lt_two (by omega), hdiv]

/-- **The depth of a leaf is the logarithm of its index.** -/
theorem depth_subtree (hj : j ≤ 2 * size) (hi : i ∈ (subtree bits size j).leaves) :
    (subtree bits size j).depth i + Nat.log 2 (j + 1) = Nat.log 2 (i + 1) := by
  induction j using subtree.induct size with
  | case1 j h ihl ihr =>
      have hlogl : Nat.log 2 (leftSubtreeIndex j + 1) = Nat.log 2 (j + 1) + 1 := log_double (b := 0)
        (Nat.succ_ne_zero j) (by omega)
      have hlogr : Nat.log 2 (rightSubtreeIndex j + 1) = Nat.log 2 (j + 1) + 1 :=
        log_double (b := 1)
        (Nat.succ_ne_zero j) (by omega)
      rw [subtree_of_lt h] at hi ⊢
      rw [PointerTree.depth]
      split
      · next hir =>
          have hir' := ihr (by unfold rightSubtreeIndex; omega) hir
          omega
      · next hir =>
          have hil := (List.mem_append.1 hi).resolve_right hir
          have hil' := ihl (by unfold leftSubtreeIndex; omega) hil
          omega
  | case2 j h =>
      rw [subtree_of_le (not_lt.1 h)] at hi ⊢
      rw [List.mem_singleton.1 hi, PointerTree.depth_leaf, Nat.zero_add]

theorem height_subtree (bits : ℕ → Bool) (hj : j ≤ 2 * size) :
    (subtree bits size j).height + Nat.log 2 (j + 1) ≤ Nat.log 2 (2 * size + 1) := by
  induction j using subtree.induct size with
  | case1 j h ihl ihr =>
      have hl := ihl (by unfold leftSubtreeIndex; omega)
      have hr := ihr (by unfold rightSubtreeIndex; omega)
      have hlogl : Nat.log 2 (leftSubtreeIndex j + 1) = Nat.log 2 (j + 1) + 1 := log_double (b := 0)
        (Nat.succ_ne_zero j) (by omega)
      have hlogr : Nat.log 2 (rightSubtreeIndex j + 1) = Nat.log 2 (j + 1) + 1 :=
        log_double (b := 1)
        (Nat.succ_ne_zero j) (by omega)
      rw [subtree_of_lt h, PointerTree.height]
      omega
  | case2 j h =>
      rw [subtree_of_le (not_lt.1 h), PointerTree.height, Nat.zero_add]
      exact Nat.log_mono_right (by omega)

/-! ### The climb and the way down -/

/-- The bits after a climb. -/
def climbed (toward : Bool) (i : ℕ) (bits : ℕ → Bool) : ℕ → Bool :=
  if i = 0 then bits
  else climbed toward (parentIndex i)
    (Function.update bits (parentIndex i) (if toward then isRightSubtree i else !isRightSubtree i))
termination_by i
decreasing_by unfold parentIndex; omega

open Classical in
/-- A climb changes the nodes above its leaf, each by the side on which the leaf is. -/
theorem climbed_apply (toward : Bool) (i j : ℕ) (bits : ℕ → Bool) :
    climbed toward i bits j = if Above (rightSubtreeIndex j) i then toward
      else if Above (leftSubtreeIndex j) i then !toward else bits j := by
  induction i using Nat.strongRecOn generalizing bits with
  | ind i ih =>
      rw [climbed]
      by_cases h : i = 0
      · subst h
        rw [if_pos rfl, if_neg, if_neg]
        · intro h
          have := h.le
          unfold leftSubtreeIndex at this
          omega
        · intro h
          have := h.le
          unfold rightSubtreeIndex at this
          omega
      · have hlt : parentIndex i < i := by unfold parentIndex; omega
        rw [if_neg h, ih _ hlt]
        by_cases hj : j = parentIndex i
        · -- the node from which the climb goes on: its child is the index below
          have hnot : ¬Above (rightSubtreeIndex j) (parentIndex i) ∧
              ¬Above (leftSubtreeIndex j) (parentIndex i) := by
            constructor
            · intro h
              have := h.le
              unfold rightSubtreeIndex at this
              omega
            · intro h
              have := h.le
              unfold leftSubtreeIndex at this
              omega
          rw [if_neg hnot.1, if_neg hnot.2, hj, Function.update_self, ← hj]
          have hchild : i = leftSubtreeIndex j ∨ i = rightSubtreeIndex j := by
            unfold parentIndex at hj
            unfold leftSubtreeIndex rightSubtreeIndex
            omega
          rcases hchild with heq | heq
          · have habove : Above (leftSubtreeIndex j) i := heq ▸ .refl _
            have hside : isRightSubtree i = false := by
              unfold isRightSubtree
              unfold leftSubtreeIndex at heq
              rw [heq]
              simp
            have hnotr : ¬Above (rightSubtreeIndex j) i := fun hr => hr.not_both habove
            rw [if_neg hnotr, if_pos habove, hside]
            cases toward <;> rfl
          · have habove : Above (rightSubtreeIndex j) i := heq ▸ .refl _
            have hside : isRightSubtree i = true := by
              unfold isRightSubtree
              unfold rightSubtreeIndex at heq
              rw [heq]
              simp
            rw [if_pos habove, hside]
            cases toward <;> rfl
        · have hup : ∀ k, parentIndex k = j → (Above k (parentIndex i) ↔ Above k i) := by
            intro k hk
            refine ⟨.up h, fun habove => ?_⟩
            rcases habove.eq_or_up with rfl | ⟨-, habove⟩
            · exact absurd hk.symm hj
            · exact habove
          rw [Function.update_of_ne hj]
          simp only [hup (rightSubtreeIndex j) (by unfold parentIndex rightSubtreeIndex; omega),
            hup (leftSubtreeIndex j) (by unfold parentIndex leftSubtreeIndex; omega)]

/-- **The climb from a leaf aims at it, or away from it.** -/
theorem subtree_climbed (toward : Bool) (hi : IsLeaf size i) (hj : j ≤ 2 * size) :
    subtree (climbed toward i bits) size j = (subtree bits size j).aim toward i := by
  induction j using subtree.induct size with
  | case1 j h ihl ihr =>
      have hl : leftSubtreeIndex j ≤ 2 * size := by unfold leftSubtreeIndex; omega
      have hr : rightSubtreeIndex j ≤ 2 * size := by unfold rightSubtreeIndex; omega
      have hmeml : i ∈ (subtree bits size (leftSubtreeIndex j)).leaves ↔ _ := mem_leaves_subtree hl
      have hmemr : i ∈ (subtree bits size (rightSubtreeIndex j)).leaves ↔ _ := mem_leaves_subtree hr
      rw [subtree_of_lt h, subtree_of_lt h, ihl hl, ihr hr, climbed_apply]
      by_cases habover : Above (rightSubtreeIndex j) i
      · have hnotl : i ∉ (subtree bits size (leftSubtreeIndex j)).leaves :=
          fun h => habover.not_both (hmeml.1 h).2
        rw [if_pos habover, PointerTree.aim_of_not_mem hnotl,
          PointerTree.aim_of_mem_right (hmemr.2 ⟨hi, habover⟩)]
      · have hnotr : i ∉ (subtree bits size (rightSubtreeIndex j)).leaves :=
          fun h => habover (hmemr.1 h).2
        rw [if_neg habover, PointerTree.aim_of_not_mem hnotr]
        by_cases habovel : Above (leftSubtreeIndex j) i
        · rw [if_pos habovel, PointerTree.aim_of_mem_left (hmeml.2 ⟨hi, habovel⟩) hnotr]
        · have hnotl : i ∉ (subtree bits size (leftSubtreeIndex j)).leaves :=
            fun h => habovel (hmeml.1 h).2
          rw [if_neg habovel, PointerTree.aim_of_not_mem hnotl, PointerTree.aim_of_not_mem]
          rw [PointerTree.leaves_node, List.mem_append, not_or]
          exact ⟨hnotl, hnotr⟩
  | case2 j h =>
      rw [subtree_of_le (not_lt.1 h), subtree_of_le (not_lt.1 h), PointerTree.aim_leaf]

/-- The bits of an array. -/
def bitsOf (tree : PLRUTree) (i : ℕ) : Bool := tree.getD i false

theorem bitsOf_set {tree : PLRUTree} (h : i < tree.length) (b : Bool) :
    bitsOf (tree.set i b) = Function.update (bitsOf tree) i b := by
  funext k
  unfold bitsOf
  rw [List.getD_eq_getElem?_getD, List.getElem?_set]
  by_cases hk : i = k
  · subst hk
    rw [if_pos rfl, if_pos h, Function.update_self]
    rfl
  · rw [if_neg hk, Function.update_of_ne (Ne.symm hk), ← List.getD_eq_getElem?_getD]

/-- The pointer tree of an array. -/
def toTree (tree : PLRUTree) : PointerTree ℕ := subtree (bitsOf tree) tree.length 0

theorem climb_eq_climbed (toward : Bool) {tree : PLRUTree} (h0 : i ≠ 0)
    (hi : i ≤ 2 * tree.length) :
    ∃ tree', climb toward i tree = some tree' ∧ tree'.length = tree.length ∧
      bitsOf tree' = climbed toward i (bitsOf tree) := by
  induction i using Nat.strongRecOn generalizing tree with
  | ind i ih =>
      have hlt : parentIndex i < i := by unfold parentIndex; omega
      have hparent : parentIndex i < tree.length := by unfold parentIndex; omega
      rw [climb, climbed, if_neg h0, if_neg h0]
      simp only [if_pos hparent]
      rw [← bitsOf_set hparent]
      generalize hset : tree.set (parentIndex i)
        (if toward = true then isRightSubtree i else !isRightSubtree i) = tree'
      have hlength : tree'.length = tree.length := by rw [← hset, List.length_set]
      by_cases hroot : parentIndex i = 0
      · rw [if_pos hroot, climbed, if_pos hroot]
        exact ⟨tree', rfl, hlength, rfl⟩
      · rw [if_neg hroot]
        obtain ⟨tree'', hclimb, hlength', hbits⟩ :=
          ih _ hlt hroot (by omega : parentIndex i ≤ 2 * tree'.length)
        exact ⟨tree'', hclimb, hlength'.trans hlength, hbits⟩

/-- The climb from a leaf does not throw, and aims at the leaf or away from it. -/
theorem toTree_climb (toward : Bool) {tree : PLRUTree} (h0 : i ≠ 0) (hi : IsLeaf tree.length i) :
    ∃ tree', climb toward i tree = some tree' ∧ tree'.length = tree.length ∧
      toTree tree' = (toTree tree).aim toward i := by
  obtain ⟨tree', hclimb, hlength, hbits⟩ := climb_eq_climbed toward h0 hi.2
  refine ⟨tree', hclimb, hlength, ?_⟩
  rw [toTree, hlength, hbits, subtree_climbed toward hi (Nat.zero_le _)]
  rfl

/-- **The way down leads to the target.** -/
theorem descend_eq_target (tree : PLRUTree) (j : ℕ) :
    descend j tree = (subtree (bitsOf tree) tree.length j).target := by
  induction j using subtree.induct tree.length with
  | case1 j h ihl ihr =>
      rw [descend, if_pos h, subtree_of_lt h, PointerTree.target]
      change (if bitsOf tree j = true then _ else _) = _
      rw [ihl, ihr]
  | case2 j h => rw [descend, if_neg h, subtree_of_le (not_lt.1 h), PointerTree.target_leaf]

end TreePLRU

end OpenCache
