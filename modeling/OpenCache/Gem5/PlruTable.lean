/-
A table of blocks under the tree pseudo-LRU policy.

The blocks are created in order, `numLeaves` of them for each set, so that the blocks of a set share
one tree.  Touches, resets and invalidations of blocks and replacements in the sets
come in any order.

* `OpenCache.PlruTable`, `OpenCache.PlruTable.tagsInit` — the table, and its creation;
* `OpenCache.PlruTable.Op`, `OpenCache.PlruTable.exec` — the operations, and their runs;
* `OpenCache.PlruTable.exec_refines` — **no operation throws, and the trees of the sets are pointer
  trees that only the operations on their own set change**;
* `OpenCache.PlruTable.exec_protects`, `OpenCache.PlruTable.exists_evicting_run` — **a block that
  was used is not replaced while fewer than `log2 (numLeaves + way)` further operations are on its
  set**, and that many can make it the victim;
* `OpenCache.PlruTable.exec_fair` — **where a set sees replacements only, every way is replaced
  exactly once in `2 ^ log2 (numLeaves + way)` of them**;
* `OpenCache.PlruTable.exec_cycle` — for a power of two, `numLeaves` replacements take every way
  once, and leave the tree as it was;
* `OpenCache.PlruTable.exec_single` — with a single leaf every touch throws.
-/

import OpenCache.Gem5.TreePlru

set_option relaxedAutoImplicit false
set_option autoImplicit false

namespace OpenCache

/-- The blocks, in the order of their creation, and their policy. -/
structure PlruTable where
  policy : TreePLRU
  blks : List (ReplaceableEntry TreePLRUReplData)

namespace PlruTable

/-- Every block gets its position, with `numLeaves` ways in a set, and its replacement data. -/
def tagsInit (p : TreePLRU) : ℕ → PlruTable
  | 0 => ⟨p, []⟩
  | k + 1 =>
      let t := tagsInit p k
      let (data, policy) := t.policy.instantiateEntry
      ⟨policy, t.blks ++ [⟨k / p.numLeaves, k % p.numLeaves, data⟩]⟩

/-- The entries of a set. -/
def getPossibleEntries (set : ℕ) (t : PlruTable) : List (ReplaceableEntry TreePLRUReplData) :=
  t.blks.filter fun blk => blk.set = set

/-- What the tags ask of the policy.  Whoever fills a block of a set takes the victim, invalidates
it if it is valid, and resets it. -/
inductive Op
  | touch (blk : ℕ)
  | reset (blk : ℕ)
  | invalidate (blk : ℕ)
  | replace (set : ℕ) (valid : Bool)
  deriving DecidableEq, Repr

/-- A block is invalidated before its replacement if it is valid. -/
def evict (valid : Bool) (data : TreePLRUReplData) (p : TreePLRU) : Option TreePLRU :=
  if valid then p.invalidate data else some p

/-- One operation, with the set and the way of the block that it replaces. -/
def perform (t : PlruTable) : Op → Option (List (ℕ × ℕ) × PlruTable)
  | .touch i => do
      let blk ← t.blks[i]?
      let p ← t.policy.touch blk.replacementData
      some ([], { t with policy := p })
  | .reset i => do
      let blk ← t.blks[i]?
      let p ← t.policy.reset blk.replacementData
      some ([], { t with policy := p })
  | .invalidate i => do
      let blk ← t.blks[i]?
      let p ← t.policy.invalidate blk.replacementData
      some ([], { t with policy := p })
  | .replace set valid => do
      let victim ← t.policy.getVictim (t.getPossibleEntries set)
      let p ← evict valid victim.replacementData t.policy
      let p ← p.reset victim.replacementData
      some ([(victim.set, victim.way)], { t with policy := p })

/-- Operations one after the other, with the blocks that they replace. -/
def exec : List Op → PlruTable → Option (List (ℕ × ℕ) × PlruTable)
  | [], t => some ([], t)
  | o :: ops, t => (t.perform o).bind fun r => (exec ops r.2).map fun r' => (r.1 ++ r'.1, r'.2)

/-! ### The invariant -/

/-- The block with a number, in a table with `n` ways. -/
def entryAt (n i : ℕ) : ReplaceableEntry TreePLRUReplData := ⟨i / n, i % n, ⟨i % n + n - 1, i / n⟩⟩

/-- The table of `m` blocks in sets of `n`: one tree for each set that has a block. -/
structure Shaped (n m : ℕ) (t : PlruTable) : Prop where
  numLeaves : t.policy.numLeaves = n
  enough : m ≤ t.policy.trees.length * n
  needed : t.policy.trees.length * n < m + n
  length : ∀ tree ∈ t.policy.trees, tree.length = n - 1
  blks : t.blks = (List.range m).map (entryAt n)

variable {n m i s : ℕ} {t : PlruTable}

theorem Shaped.tagsInit (hn : 1 ≤ n) (m : ℕ) :
    Shaped n m (tagsInit ⟨n, 0, []⟩ m) ∧ (PlruTable.tagsInit ⟨n, 0, []⟩ m).policy.count = m := by
  induction m with
  | zero =>
      refine ⟨⟨rfl, Nat.zero_le _, ?_, fun tree h => absurd h List.not_mem_nil, rfl⟩, rfl⟩
      simp only [PlruTable.tagsInit, List.length_nil]
      omega
  | succ m ih =>
      obtain ⟨⟨hleaves, henough, hneeded, hlength, hblks⟩, hcount⟩ := ih
      rw [PlruTable.tagsInit]
      generalize PlruTable.tagsInit ⟨n, 0, []⟩ m = t at *
      unfold TreePLRU.instantiateEntry
      rw [hleaves, hcount]
      by_cases hm : m % n = 0
      · -- the first block of a set: it gets a tree of its own
        obtain ⟨q, rfl⟩ := Nat.dvd_of_mod_eq_zero hm
        have hq : t.policy.trees.length = q := by
          refine le_antisymm ?_ (Nat.le_of_mul_le_mul_right (Nat.mul_comm n q ▸ henough) hn)
          refine Nat.le_of_lt_succ (Nat.lt_of_mul_lt_mul_right (a := n) ?_)
          rw [Nat.succ_mul, Nat.mul_comm q n]
          exact hneeded
        simp only [hm, if_true]
        refine ⟨⟨rfl, ?_, ?_, ?_, ?_⟩, trivial⟩
        · rw [List.length_append, List.length_singleton, hq, Nat.add_mul, Nat.mul_comm q n]
          omega
        · rw [List.length_append, List.length_singleton, hq, Nat.add_mul, Nat.mul_comm q n]
          omega
        · intro tree htree
          rcases List.mem_append.1 htree with htree | htree
          · exact hlength tree htree
          · rw [List.mem_singleton.1 htree, List.length_replicate]
        · rw [hblks, List.range_succ, List.map_append, List.length_append,
            List.length_singleton, hq]
          simp [entryAt, Nat.mul_div_cancel_left q hn]
      · have hne : m ≠ t.policy.trees.length * n := fun h => hm (h ▸ Nat.mul_mod_left _ _)
        have hdiv : m / n = t.policy.trees.length - 1 := by
          have hpos : 1 ≤ t.policy.trees.length := by
            rcases Nat.eq_zero_or_pos t.policy.trees.length with h | h
            · rw [h] at henough hne
              omega
            · exact h
          refine Nat.div_eq_of_lt_le ?_ ?_
          · rw [Nat.sub_mul]
            omega
          · rw [Nat.sub_add_cancel hpos]
            omega
        simp only [if_neg hm]
        refine ⟨⟨rfl, ?_, ?_, hlength, ?_⟩, trivial⟩
        · change m + 1 ≤ t.policy.trees.length * n
          omega
        · change t.policy.trees.length * n < m + 1 + n
          omega
        rw [hblks, List.range_succ, List.map_append]
        simp [entryAt, hdiv]

/-! ### One operation -/

/-- The set on which an operation is. -/
def Op.set (n : ℕ) : Op → ℕ
  | .touch i => i / n
  | .reset i => i / n
  | .invalidate i => i / n
  | .replace s _ => s

/-- The block exists, or all blocks of the set. -/
def Op.InRange (n m : ℕ) : Op → Prop
  | .touch i => i < m
  | .reset i => i < m
  | .invalidate i => i < m
  | .replace s _ => (s + 1) * n ≤ m

/-- What an operation does to the pointer tree of its set. -/
def Op.act (n : ℕ) : Op → PointerTree ℕ → PointerTree ℕ
  | .touch i, t => t.aim false (i % n + n - 1)
  | .reset i, t => t.aim false (i % n + n - 1)
  | .invalidate i, t => t.aim true (i % n + n - 1)
  | .replace _ _, t => t.turn

/-- The way that an operation replaces in a set with such a pointer tree. -/
def Op.replaced (n : ℕ) (o : Op) (t : PointerTree ℕ) : List ℕ :=
  match o with
  | .replace _ _ => [t.target - (n - 1)]
  | _ => []

/-- The pointer tree of a set. -/
def tree (t : PlruTable) (s : ℕ) : PointerTree ℕ := TreePLRU.toTree (t.policy.trees.getD s [])

theorem Shaped.tree_lt (h : Shaped n m t) (hi : i < m) : i / n < t.policy.trees.length :=
  Nat.div_lt_of_lt_mul (Nat.mul_comm _ n ▸ hi.trans_le h.enough)

theorem Shaped.getElem?_blks (h : Shaped n m t) (hi : i < m) : t.blks[i]? = some (entryAt n i) := by
  rw [h.blks, List.getElem?_map, List.getElem?_range hi]
  rfl

/-- A climb from the leaf of a block aims in the tree of its set. -/
theorem Shaped.update (hn : 2 ≤ n) (h : Shaped n m t) (hi : i < m) (toward : Bool) :
    ∃ p, t.policy.update toward ⟨i % n + n - 1, i / n⟩ = some p ∧
    Shaped n m { t with policy := p } ∧
      ∀ s, tree { t with policy := p } s =
        if i / n = s then (t.tree s).aim toward (i % n + n - 1) else t.tree s := by
  have htree := h.tree_lt hi
  have hmod : i % n < n := Nat.mod_lt _ (by omega)
  have hget : t.policy.trees[i / n]? = some t.policy.trees[i / n] := List.getElem?_eq_getElem htree
  have hlength := h.length _ (List.getElem_mem htree)
  have hleaf : TreePLRU.IsLeaf t.policy.trees[i / n].length (i % n + n - 1) := by
    rw [hlength]
    exact ⟨by omega, by omega⟩
  obtain ⟨tree', hclimb, hlength', htree'⟩ :=
    TreePLRU.toTree_climb toward (by omega : i % n + n - 1 ≠ 0) hleaf
  refine ⟨{ t.policy with trees := t.policy.trees.set (i / n) tree' }, ?_, ?_, ?_⟩
  · unfold TreePLRU.update
    simp only [hget, hclimb, Option.bind_eq_bind, Option.bind_some]
  · refine ⟨h.numLeaves, ?_, ?_, ?_, h.blks⟩
    · rw [List.length_set]
      exact h.enough
    · rw [List.length_set]
      exact h.needed
    · intro tr htr
      rcases List.mem_or_eq_of_mem_set htr with htr | rfl
      · exact h.length tr htr
      · rw [hlength', hlength]
  · intro s
    unfold PlruTable.tree
    rw [List.getD_eq_getElem?_getD, List.getElem?_set, List.getD_eq_getElem?_getD]
    split
    · next hs =>
        subst hs
        rw [hget, Option.getD_some, Option.getD_some, htree']
    · rfl

/-- The entries of a set, in the order of their ways. -/
theorem Shaped.getPossibleEntries (hn : 1 ≤ n) (h : Shaped n m t) (hs : (s + 1) * n ≤ m) :
    t.getPossibleEntries s = (List.range n).map fun w => entryAt n (s * n + w) := by
  have hsplit : List.range m = List.range (s * n) ++ (List.range n).map (s * n + ·) ++
      (List.range (m - (s + 1) * n)).map ((s + 1) * n + ·) := by
    have hm : m = s * n + n + (m - (s + 1) * n) := by
      rw [Nat.add_mul] at hs ⊢
      omega
    rw [hm, List.range_add, List.range_add, Nat.add_mul, Nat.one_mul, Nat.add_sub_cancel_left]
  have hset : ∀ i, (entryAt n i).set = i / n := fun i => rfl
  unfold PlruTable.getPossibleEntries
  rw [h.blks, hsplit, List.map_append, List.map_append, List.filter_append, List.filter_append,
    List.filter_eq_nil_iff.2, List.nil_append, List.filter_eq_self.2, List.filter_eq_nil_iff.2,
    List.append_nil, List.map_map]
  · rfl
  · simp only [List.mem_map, decide_eq_true_eq]
    rintro _ ⟨_, ⟨w, -, rfl⟩, rfl⟩ heq
    have hle : s + 1 ≤ ((s + 1) * n + w) / n := (Nat.le_div_iff_mul_le hn).2 (Nat.le_add_right _ _)
    rw [hset] at heq
    omega
  · simp only [List.mem_map, List.mem_range, decide_eq_true_eq]
    rintro _ ⟨_, ⟨w, hw, rfl⟩, rfl⟩
    rw [hset, Nat.mul_comm, Nat.mul_add_div hn, Nat.div_eq_of_lt hw, Nat.add_zero]
  · simp only [List.mem_map, List.mem_range, decide_eq_true_eq]
    rintro _ ⟨i, hi, rfl⟩ heq
    rw [hset] at heq
    exact (Nat.div_lt_of_lt_mul (Nat.mul_comm s n ▸ hi)).ne heq

theorem Shaped.mem_leaves (h : Shaped n m t) (hs : s < t.policy.trees.length) :
    i ∈ (t.tree s).leaves ↔ TreePLRU.IsLeaf (n - 1) i := by
  have hget : t.policy.trees.getD s [] = t.policy.trees[s] := by
    rw [List.getD_eq_getElem?_getD, List.getElem?_eq_getElem hs, Option.getD_some]
  unfold PlruTable.tree TreePLRU.toTree
  rw [TreePLRU.mem_leaves_subtree (Nat.zero_le _), hget, h.length _ (List.getElem_mem hs)]
  exact and_iff_left (TreePLRU.Above.root i)

theorem nodup_leaves (t : PlruTable) (s : ℕ) : (t.tree s).leaves.Nodup :=
  TreePLRU.nodup_leaves_subtree (Nat.zero_le _)

theorem Shaped.depth (h : Shaped n m t) (hs : s < t.policy.trees.length)
    (hi : TreePLRU.IsLeaf (n - 1) i) : (t.tree s).depth i = Nat.log 2 (i + 1) := by
  have hdepth := TreePLRU.depth_subtree (Nat.zero_le _) ((h.mem_leaves hs).2 hi)
  rwa [Nat.zero_add, Nat.log_one_right, Nat.add_zero] at hdepth

/-- The victim of a set is the entry of the target. -/
theorem Shaped.getVictim (hn : 2 ≤ n) (h : Shaped n m t) (hs : (s + 1) * n ≤ m) :
    ∃ w < n, (t.tree s).target = w + n - 1 ∧
      t.policy.getVictim (t.getPossibleEntries s) = some (entryAt n (s * n + w)) := by
  have hm : s * n < m := by
    rw [Nat.add_mul] at hs
    omega
  have hlt : s < t.policy.trees.length := by
    have := h.tree_lt hm
    rwa [Nat.mul_div_cancel _ (by omega)] at this
  have hleaf := (h.mem_leaves hlt).1 (t.tree s).target_mem
  have hget : t.policy.trees[s]? = some t.policy.trees[s] := List.getElem?_eq_getElem hlt
  have hdescend : TreePLRU.descend 0 t.policy.trees[s] = (t.tree s).target := by
    rw [TreePLRU.descend_eq_target]
    unfold PlruTable.tree TreePLRU.toTree
    rw [List.getD_eq_getElem?_getD, hget, Option.getD_some]
  have hw : (t.tree s).target - (n - 1) < n := by
    have := hleaf.2
    omega
  refine ⟨(t.tree s).target - (n - 1), hw, ?_, ?_⟩
  · have := hleaf.1
    omega
  · have hhead : (entryAt n (s * n + 0)).replacementData.tree = s :=
      Nat.mul_div_cancel s (by omega)
    have hrange : ((List.range n).map fun w => entryAt n (s * n + w)).head? =
        some (entryAt n (s * n + 0)) := by
      rw [List.head?_map, List.head?_range, if_neg (by omega)]
      rfl
    unfold TreePLRU.getVictim
    rw [h.getPossibleEntries (by omega) hs, hrange]
    simp only [Option.bind_eq_bind, Option.bind_some, hhead, hget, hdescend, h.numLeaves]
    rw [List.getElem?_map, List.getElem?_range hw]
    rfl

/-- **One operation**: it does not throw, it acts on the pointer tree of its set, and the other
trees stay as they are. -/
theorem Shaped.perform (hn : 2 ≤ n) (h : Shaped n m t) {o : Op} (ho : o.InRange n m) :
    ∃ t', t.perform o = some ((o.replaced n (t.tree (o.set n))).map fun w => (o.set n, w), t') ∧
      Shaped n m t' ∧ ∀ s, t'.tree s = if o.set n = s then o.act n (t.tree s) else t.tree s := by
  cases o with
  | touch i =>
      obtain ⟨p, hp, hshaped, htree⟩ := h.update hn ho false
      refine ⟨{ t with policy := p }, ?_, hshaped, htree⟩
      simp only [PlruTable.perform, h.getElem?_blks ho, Option.bind_eq_bind, Option.bind_some,
        entryAt, TreePLRU.touch, hp]
      rfl
  | reset i =>
      obtain ⟨p, hp, hshaped, htree⟩ := h.update hn ho false
      refine ⟨{ t with policy := p }, ?_, hshaped, htree⟩
      simp only [PlruTable.perform, h.getElem?_blks ho, Option.bind_eq_bind, Option.bind_some,
        entryAt, TreePLRU.reset, TreePLRU.touch, hp]
      rfl
  | invalidate i =>
      obtain ⟨p, hp, hshaped, htree⟩ := h.update hn ho true
      refine ⟨{ t with policy := p }, ?_, hshaped, htree⟩
      simp only [PlruTable.perform, h.getElem?_blks ho, Option.bind_eq_bind, Option.bind_some,
        entryAt, TreePLRU.invalidate, hp]
      rfl
  | replace s valid =>
      have hs : (s + 1) * n ≤ m := ho
      obtain ⟨w, hw, htarget, hvictim⟩ := h.getVictim hn hs
      have hi : s * n + w < m := by
        rw [Nat.add_mul] at hs
        omega
      have hdiv : (s * n + w) / n = s := by
        rw [Nat.mul_comm, Nat.mul_add_div (by omega), Nat.div_eq_of_lt hw, Nat.add_zero]
      have hmod : (s * n + w) % n = w := by
        rw [Nat.mul_comm, Nat.mul_add_mod, Nat.mod_eq_of_lt hw]
      have hw' : w = (t.tree s).target - (n - 1) := by omega
      -- the invalidation before the reset makes no difference to the tree
      obtain ⟨p, hp, hshaped, htree⟩ : ∃ p,
          evict valid (entryAt n (s * n + w)).replacementData t.policy = some p ∧
          Shaped n m { t with policy := p } ∧
          ∀ s', (tree { t with policy := p } s').aim false (w + n - 1) =
            (t.tree s').aim false (w + n - 1) ∧
              (s ≠ s' → tree { t with policy := p } s' = t.tree s') := by
        cases valid with
        | false => exact ⟨t.policy, rfl, h, fun s' => ⟨rfl, fun _ => rfl⟩⟩
        | true =>
            obtain ⟨p, hp, hshaped, htree⟩ := h.update hn hi true
            refine ⟨p, hp, hshaped, fun s' => ?_⟩
            rw [htree s', hdiv, hmod]
            constructor
            · split
              · rw [PointerTree.aim_aim]
              · rfl
            · intro hne
              rw [if_neg hne]
      obtain ⟨p', hp', hshaped', htree'⟩ := hshaped.update hn hi false
      refine ⟨{ t with policy := p' }, ?_, hshaped', fun s' => ?_⟩
      · simp only [PlruTable.perform, hvictim, hp, Option.bind_eq_bind, Option.bind_some]
        change (TreePLRU.update false _ p).bind _ = _
        change TreePLRU.update false (entryAt n (s * n + w)).replacementData p = some p' at hp'
        rw [hp', Option.bind_some]
        change some ([((s * n + w) / n, (s * n + w) % n)], _) =
          some ([(s, (t.tree s).target - (n - 1))], _)
        rw [hdiv, hmod, ← hw']
      · have hstep := htree' s'
        rw [hdiv, hmod] at hstep
        change tree { t with policy := p' } s' = if s = s' then (t.tree s').turn else t.tree s'
        refine hstep.trans ?_
        split
        · next heq =>
            rw [(htree s').1, PointerTree.turn, ← heq, htarget]
        · next hne => exact (htree s').2 hne

/-! ### Runs -/

/-- The operations on one set. -/
def onSet (n s : ℕ) (ops : List Op) : List Op := ops.filter fun o => o.set n = s

/-- What operations replace in a set, one after the other. -/
def replacedBy (n : ℕ) : List Op → PointerTree ℕ → List ℕ
  | [], _ => []
  | o :: ops, t => o.replaced n t ++ replacedBy n ops (o.act n t)

/-- The ways of a set that a run replaces. -/
def victimsOf (s : ℕ) (vs : List (ℕ × ℕ)) : List ℕ := (vs.filter fun v => v.1 = s).map Prod.snd

theorem exec_cons {o : Op} {ops : List Op} {v vs : List (ℕ × ℕ)} {t₁ t₂ : PlruTable}
    (h : t.perform o = some (v, t₁)) (h' : exec ops t₁ = some (vs, t₂)) :
    exec (o :: ops) t = some (v ++ vs, t₂) := by
  rw [exec, h, Option.bind_some, h', Option.map_some]

theorem exec_append {ops ops' : List Op} {vs vs' : List (ℕ × ℕ)} {t₁ t₂ : PlruTable}
    (h : exec ops t = some (vs, t₁)) (h' : exec ops' t₁ = some (vs', t₂)) :
    exec (ops ++ ops') t = some (vs ++ vs', t₂) := by
  induction ops generalizing t vs with
  | nil =>
      cases h
      exact h'
  | cons o ops ih =>
      rw [exec, Option.bind_eq_some_iff] at h
      obtain ⟨⟨v, t'⟩, hperform, h⟩ := h
      obtain ⟨⟨vs₁, t''⟩, hexec, h⟩ := Option.map_eq_some_iff.1 h
      cases h
      rw [List.append_assoc]
      exact exec_cons hperform (ih hexec)

/-- **Runs**: no operation throws, and the tree of a set and what is replaced in it depend on the
operations on that set only. -/
theorem Shaped.exec (hn : 2 ≤ n) (h : Shaped n m t)
    {ops : List Op} (hops : ∀ o ∈ ops, o.InRange n m) :
    ∃ vs t', exec ops t = some (vs, t') ∧ Shaped n m t' ∧
      ∀ s, t'.tree s = (onSet n s ops).foldl (fun tr o => o.act n tr) (t.tree s) ∧
        victimsOf s vs = replacedBy n (onSet n s ops) (t.tree s) := by
  induction ops generalizing t with
  | nil => exact ⟨[], t, rfl, h, fun s => ⟨rfl, rfl⟩⟩
  | cons o ops ih =>
      obtain ⟨t₁, hperform, hshaped, htree⟩ := h.perform hn (hops o List.mem_cons_self)
      obtain ⟨vs, t₂, hexec, hshaped', hrun⟩ :=
        ih hshaped fun o' ho' => hops o' (List.mem_cons_of_mem _ ho')
      refine ⟨_, t₂, exec_cons hperform hexec, hshaped', fun s => ?_⟩
      obtain ⟨hfold, hvictims⟩ := hrun s
      rw [htree s] at hfold hvictims
      rw [hfold, victimsOf, List.filter_append, List.map_append]
      by_cases hs : o.set n = s
      · subst hs
        have hon : onSet n (o.set n) (o :: ops) = o :: onSet n (o.set n) ops :=
          List.filter_cons_of_pos (decide_eq_true rfl)
        rw [if_pos rfl] at hvictims
        rw [hon, if_pos rfl, List.foldl_cons, replacedBy, ← hvictims]
        refine ⟨rfl, ?_⟩
        rw [List.filter_eq_self.2, List.map_map]
        · exact congrArg (· ++ _) (List.map_id _)
        · simp
      · have hon : onSet n s (o :: ops) = onSet n s ops :=
          List.filter_cons_of_neg (by simpa using hs)
        rw [if_neg hs] at hvictims
        rw [hon, if_neg hs, ← hvictims]
        refine ⟨rfl, ?_⟩
        rw [List.filter_eq_nil_iff.2, List.map_nil, List.nil_append]
        · rfl
        · simp [hs]

/-- **The table refines its pointer trees**: from its creation on no operation throws, and the tree
of a set and the ways that are replaced in it are those of the operations on the set alone, whatever
operations on other sets come between them. -/
theorem exec_refines (hn : 2 ≤ n) {ops : List Op} (hops : ∀ o ∈ ops, o.InRange n m) :
    ∃ vs t, exec ops (tagsInit ⟨n, 0, []⟩ m) = some (vs, t) ∧
      ∀ s, t.tree s = (onSet n s ops).foldl (fun tr o => o.act n tr)
          ((tagsInit ⟨n, 0, []⟩ m).tree s) ∧
        victimsOf s vs = replacedBy n (onSet n s ops) ((tagsInit ⟨n, 0, []⟩ m).tree s) := by
  obtain ⟨vs, t, hexec, -, hrun⟩ := (Shaped.tagsInit (by omega) m).1.exec hn hops
  exact ⟨vs, t, hexec, hrun⟩

/-- Two sets of four ways, with operations on both. -/
theorem exec_refines_two_sets :
    ∃ vs t, exec [.touch 5, .replace 0 false, .invalidate 6, .replace 1 true]
        (tagsInit ⟨4, 0, []⟩ 8) = some (vs, t) ∧
      ∀ s, t.tree s = (onSet 4 s [.touch 5, .replace 0 false, .invalidate 6, .replace 1 true]).foldl
          (fun tr o => o.act 4 tr) ((tagsInit ⟨4, 0, []⟩ 8).tree s) ∧
        victimsOf s vs = replacedBy 4
          (onSet 4 s [.touch 5, .replace 0 false, .invalidate 6, .replace 1 true])
          ((tagsInit ⟨4, 0, []⟩ 8).tree s) :=
  exec_refines (by decide) (by simp [Op.InRange])

/-! ### The protection of the blocks that were used -/

/-- Without invalidations the operations on a set turn away from leaves. -/
theorem foldl_act {ops : List Op} (h : ∀ o ∈ ops, ∀ j, o ≠ .invalidate j) (tr : PointerTree ℕ) :
    ∃ turns : List ℕ, turns.length = ops.length ∧
      ops.foldl (fun tr o => o.act n tr) tr = turns.foldl (fun tr y => tr.aim false y) tr := by
  induction ops generalizing tr with
  | nil => exact ⟨[], rfl, rfl⟩
  | cons o ops ih =>
      obtain ⟨turns, hlength, hfold⟩ :=
        ih (fun o' ho' => h o' (List.mem_cons_of_mem _ ho')) (o.act n tr)
      obtain ⟨y, hy⟩ : ∃ y, o.act n tr = tr.aim false y := by
        cases o with
        | touch i => exact ⟨_, rfl⟩
        | reset i => exact ⟨_, rfl⟩
        | invalidate i => exact absurd rfl (h _ List.mem_cons_self i)
        | replace s valid => exact ⟨_, rfl⟩
      refine ⟨y :: turns, congrArg (· + 1) hlength, ?_⟩
      rw [List.foldl_cons, List.foldl_cons, hfold, hy]

/-- What the next replacement in a set takes. -/
theorem Shaped.perform_replace (hn : 2 ≤ n) (h : Shaped n m t) (hs : (s + 1) * n ≤ m)
    (valid : Bool) :
    ∃ w t', PlruTable.exec [.replace s valid] t = some ([(s, w)], t') ∧ w < n ∧
      (t.tree s).target = w + n - 1 := by
  obtain ⟨w, hw, htarget, -⟩ := h.getVictim hn hs
  obtain ⟨t', hperform, -⟩ := h.perform hn (o := .replace s valid) hs
  have hsub : w + n - 1 - (n - 1) = w := by omega
  have hreplaced : t.perform (.replace s valid) = some ([(s, w)], t') := by
    rw [hperform]
    change some ([(s, (t.tree s).target - (n - 1))], t') = _
    rw [htarget, hsub]
  have hnil : PlruTable.exec [] t' = some ([], t') := rfl
  exact ⟨w, t', exec_cons hreplaced hnil, hw, htarget⟩

theorem leaf_of_lt (hn : 2 ≤ n) (i : ℕ) : TreePLRU.IsLeaf (n - 1) (i % n + n - 1) := by
  have := Nat.mod_lt i (by omega : 0 < n)
  exact ⟨by omega, by omega⟩

/-- **A block that was used is not replaced soon**: after it was touched or reset, the victim of its
set is another one while fewer than `log2 (n + way)` further operations are on the set, unless one
of them invalidates a block. -/
theorem exec_protects (hn : 2 ≤ n) {pre post : List Op} {o : Op} (hi : (i / n + 1) * n ≤ m)
    (ho : o = .touch i ∨ o = .reset i) (hpre : ∀ o ∈ pre, o.InRange n m)
    (hpost : ∀ o ∈ post, o.InRange n m)
    (hvalid : ∀ j, .invalidate j ∈ post → j / n ≠ i / n)
    (hfew : (onSet n (i / n) post).length < Nat.log 2 (n + i % n)) (valid : Bool) :
    ∃ vs w t, exec (pre ++ o :: post ++ [.replace (i / n) valid]) (tagsInit ⟨n, 0, []⟩ m) =
      some (vs ++ [(i / n, w)], t) ∧ w < n ∧ w ≠ i % n := by
  have hmod : i % n < n := Nat.mod_lt _ (by omega)
  have him : i < m := by
    have := Nat.div_add_mod i n
    rw [Nat.add_mul, Nat.mul_comm] at hi
    omega
  obtain ⟨vs₁, t₁, hexec₁, hshaped₁, -⟩ := (Shaped.tagsInit (by omega) m).1.exec hn hpre
  have hops : ∀ o' ∈ o :: post, o'.InRange n m := by
    intro o' ho'
    rcases List.mem_cons.1 ho' with rfl | ho'
    · rcases ho with rfl | rfl
      · exact him
      · exact him
    · exact hpost o' ho'
  obtain ⟨vs₂, t₂, hexec₂, hshaped₂, hrun⟩ := hshaped₁.exec hn hops
  obtain ⟨w, t₃, hexec₃, hw, htarget⟩ := hshaped₂.perform_replace hn hi valid
  refine ⟨vs₁ ++ vs₂, w, t₃, exec_append (exec_append hexec₁ hexec₂) hexec₃, hw, ?_⟩
  -- the tree of the set, turned away from the leaf of the block and then from few others
  have hset : o.set n = i / n ∧ ∀ tr, o.act n tr = tr.aim false (i % n + n - 1) := by
    rcases ho with rfl | rfl
    · exact ⟨rfl, fun tr => rfl⟩
    · exact ⟨rfl, fun tr => rfl⟩
  have hon : onSet n (i / n) (o :: post) = o :: onSet n (i / n) post :=
    List.filter_cons_of_pos (decide_eq_true hset.1)
  have hclean : ∀ o' ∈ onSet n (i / n) post, ∀ j, o' ≠ .invalidate j := by
    rintro o' ho' j rfl
    obtain ⟨hmem, heq⟩ := List.mem_filter.1 ho'
    exact hvalid j hmem (of_decide_eq_true heq)
  obtain ⟨turns, hlength, hfold⟩ :=
    foldl_act (n := n) hclean ((t₁.tree (i / n)).aim false (i % n + n - 1))
  have htree : t₂.tree (i / n) =
      turns.foldl (fun tr y => tr.aim false y) ((t₁.tree (i / n)).aim false (i % n + n - 1)) := by
    rw [(hrun (i / n)).1, hon, List.foldl_cons, hset.2, hfold]
  have hlt := hshaped₁.tree_lt him
  have hleaf := (hshaped₁.mem_leaves hlt).2 (leaf_of_lt hn i)
  have hdepth := hshaped₁.depth hlt (leaf_of_lt hn i)
  have hindex : i % n + n - 1 + 1 = n + i % n := by omega
  rw [hindex] at hdepth
  rintro rfl
  refine PointerTree.target_foldl_away_ne (nodup_leaves t₁ (i / n)) hleaf (l := turns) ?_
    (htree ▸ htarget)
  rw [hlength, hdepth]
  exact hfew

/-- The second way of the second set, after one more touch in its set. -/
theorem exec_protects_one_touch :
    ∃ vs w t, exec ([] ++ .touch 5 :: [.touch 1, .reset 4] ++ [.replace (5 / 4) true])
      (tagsInit ⟨4, 0, []⟩ 8) = some (vs ++ [(5 / 4, w)], t) ∧ w < 4 ∧ w ≠ 5 % 4 :=
  exec_protects (by decide) (by decide) (Or.inl rfl) (by simp) (by simp [Op.InRange]) (by simp)
    (by decide) true

/-- **The protection ends there**: after any run there are `log2 (n + way)` touches of other blocks
of its set that make a block the victim. -/
theorem exists_evicting_run (hn : 2 ≤ n) (hi : (i / n + 1) * n ≤ m) {pre : List Op}
    (hpre : ∀ o ∈ pre, o.InRange n m) :
    ∃ others : List ℕ, others.length = Nat.log 2 (n + i % n) ∧
    (∀ j ∈ others, j / n = i / n ∧ j ≠ i) ∧
      ∀ valid, ∃ vs t, exec (pre ++ others.map .touch ++ [.replace (i / n) valid])
        (tagsInit ⟨n, 0, []⟩ m) = some (vs ++ [(i / n, i % n)], t) := by
  have hmod : i % n < n := Nat.mod_lt _ (by omega)
  have hsplit := Nat.div_add_mod i n
  have him : i < m := by
    rw [Nat.add_mul, Nat.mul_comm] at hi
    omega
  obtain ⟨vs₁, t₁, hexec₁, hshaped₁, -⟩ := (Shaped.tagsInit (by omega) m).1.exec hn hpre
  have hlt := hshaped₁.tree_lt him
  have hleaf := (hshaped₁.mem_leaves hlt).2 (leaf_of_lt hn i)
  obtain ⟨turns, hlength, hturns, htarget⟩ :=
    PointerTree.exists_turns (nodup_leaves t₁ (i / n)) hleaf
  have hindex : i % n + n - 1 + 1 = n + i % n := by omega
  rw [hshaped₁.depth hlt (leaf_of_lt hn i), hindex] at hlength
  -- the block of a leaf
  have hblk : ∀ y ∈ turns, (n * (i / n) + (y - (n - 1))) / n = i / n ∧
      (n * (i / n) + (y - (n - 1))) % n + n - 1 = y ∧ n * (i / n) + (y - (n - 1)) < m := by
    intro y hy
    obtain ⟨h₁, h₂⟩ := (hshaped₁.mem_leaves hlt).1 (hturns y hy).1
    have hsmall : y - (n - 1) < n := by omega
    rw [Nat.mul_add_div (by omega), Nat.div_eq_of_lt hsmall, Nat.mul_add_mod,
      Nat.mod_eq_of_lt hsmall]
    rw [Nat.add_mul, Nat.mul_comm] at hi
    exact ⟨Nat.add_zero _, by omega, by omega⟩
  refine ⟨turns.map fun y => n * (i / n) + (y - (n - 1)), by rw [List.length_map, hlength], ?_, ?_⟩
  · intro j hj
    obtain ⟨y, hy, rfl⟩ := List.mem_map.1 hj
    refine ⟨(hblk y hy).1, fun heq => (hturns y hy).2 ?_⟩
    have hy' := (hblk y hy).2.1
    rw [heq] at hy'
    exact hy'.symm
  · intro valid
    have hops : ∀ o ∈ (turns.map fun y => n * (i / n) + (y - (n - 1))).map Op.touch,
        o.InRange n m := by
      intro o ho
      obtain ⟨j, hj, rfl⟩ := List.mem_map.1 ho
      obtain ⟨y, hy, rfl⟩ := List.mem_map.1 hj
      exact (hblk y hy).2.2
    obtain ⟨vs₂, t₂, hexec₂, hshaped₂, hrun⟩ := hshaped₁.exec hn hops
    obtain ⟨w, t₃, hexec₃, hw, htarget'⟩ := hshaped₂.perform_replace hn hi valid
    have hon : onSet n (i / n) ((turns.map fun y => n * (i / n) + (y - (n - 1))).map Op.touch) =
        (turns.map fun y => n * (i / n) + (y - (n - 1))).map Op.touch := by
      refine List.filter_eq_self.2 fun o ho => ?_
      obtain ⟨j, hj, rfl⟩ := List.mem_map.1 ho
      obtain ⟨y, hy, rfl⟩ := List.mem_map.1 hj
      exact decide_eq_true (hblk y hy).1
    have hfold : t₂.tree (i / n) = turns.foldl (fun tr y => tr.aim false y) (t₁.tree (i / n)) := by
      rw [(hrun (i / n)).1, hon, List.map_map, List.foldl_map]
      refine List.foldl_ext _ _ _ fun tr y hy => ?_
      change tr.aim false ((n * (i / n) + (y - (n - 1))) % n + n - 1) = _
      rw [(hblk y hy).2.1]
    have hway : w = i % n := by
      rw [hfold, htarget] at htarget'
      omega
    subst hway
    exact ⟨vs₁ ++ vs₂, t₃, exec_append (exec_append hexec₁ hexec₂) hexec₃⟩

/-- The second way of the second set again: after it was reset, two touches are enough. -/
theorem exists_evicting_run_two_touches :
    ∃ others : List ℕ, others.length = Nat.log 2 (4 + 5 % 4) ∧
    (∀ j ∈ others, j / 4 = 5 / 4 ∧ j ≠ 5) ∧
      ∀ valid, ∃ vs t, exec ([.reset 5] ++ others.map .touch ++ [.replace (5 / 4) valid])
        (tagsInit ⟨4, 0, []⟩ 8) = some (vs ++ [(5 / 4, 5 % 4)], t) :=
  exists_evicting_run (by decide) (by decide) (by simp [Op.InRange])

/-! ### Replacements only -/

theorem act_replacements {ops : List Op} (h : ∀ o ∈ ops, ∃ s valid, o = .replace s valid)
    (tr : PointerTree ℕ) :
    ops.foldl (fun tr o => o.act n tr) tr = PointerTree.turn^[ops.length] tr ∧
      replacedBy n ops tr = (tr.targets ops.length).map fun y => y - (n - 1) := by
  induction ops generalizing tr with
  | nil => exact ⟨rfl, rfl⟩
  | cons o ops ih =>
      obtain ⟨s, valid, rfl⟩ := h o List.mem_cons_self
      obtain ⟨hfold, hreplaced⟩ := ih (fun o' ho' => h o' (List.mem_cons_of_mem _ ho')) tr.turn
      refine ⟨hfold, ?_⟩
      change [tr.target - (n - 1)] ++ replacedBy n ops tr.turn = _
      rw [hreplaced]
      rfl

/-- In the ways that are replaced, a way occurs as often as its leaf in the targets. -/
theorem count_ways {tr : PointerTree ℕ} (htr : ∀ y ∈ tr.leaves, n - 1 ≤ y) (hn : 1 ≤ n) (k w : ℕ) :
    ((tr.targets k).map fun y => y - (n - 1)).count w = (tr.targets k).count (w + n - 1) := by
  rw [List.count, List.countP_map, List.count]
  refine List.countP_congr fun y hy => ?_
  have := htr y (PointerTree.mem_of_mem_targets hy)
  simp only [Function.comp_apply, beq_iff_eq]
  omega

/-- **Fairness**: where `2 ^ log2 (n + way)` consecutive operations on a set are all replacements,
they replace the way exactly once. -/
theorem exec_fair (hn : 2 ≤ n) {pre ops : List Op} {w : ℕ} (hs : (s + 1) * n ≤ m) (hw : w < n)
    (hpre : ∀ o ∈ pre, o.InRange n m) (hops : ∀ o ∈ ops, o.InRange n m)
    (hreplace : ∀ o ∈ ops, o.set n = s → ∃ valid, o = .replace s valid)
    (hcount : (onSet n s ops).length = 2 ^ Nat.log 2 (n + w)) :
    ∃ vs₁ t₁ vs₂ t₂, exec pre (tagsInit ⟨n, 0, []⟩ m) = some (vs₁, t₁) ∧
      exec ops t₁ = some (vs₂, t₂) ∧ (victimsOf s vs₂).count w = 1 := by
  obtain ⟨vs₁, t₁, hexec₁, hshaped₁, -⟩ := (Shaped.tagsInit (by omega) m).1.exec hn hpre
  obtain ⟨vs₂, t₂, hexec₂, -, hrun⟩ := hshaped₁.exec hn hops
  have hi : s * n + w < m := by
    rw [Nat.add_mul] at hs
    omega
  have hdiv : (s * n + w) / n = s := by
    rw [Nat.mul_comm, Nat.mul_add_div (by omega), Nat.div_eq_of_lt hw, Nat.add_zero]
  have hlt := hshaped₁.tree_lt hi
  rw [hdiv] at hlt
  have hleaf : TreePLRU.IsLeaf (n - 1) (w + n - 1) := ⟨by omega, by omega⟩
  have honly : ∀ o ∈ onSet n s ops, ∃ s' valid, o = .replace s' valid := by
    intro o ho
    obtain ⟨hmem, heq⟩ := List.mem_filter.1 ho
    exact ⟨s, hreplace o hmem (of_decide_eq_true heq)⟩
  have hindex : w + n - 1 + 1 = n + w := by omega
  refine ⟨vs₁, t₁, vs₂, t₂, hexec₁, hexec₂, ?_⟩
  rw [(hrun s).2, (act_replacements honly _).2, hcount, ← hindex,
    ← hshaped₁.depth hlt hleaf, count_ways (fun y hy => ((hshaped₁.mem_leaves hlt).1 hy).1)
      (by omega)]
  exact PointerTree.count_targets (nodup_leaves t₁ s) ((hshaped₁.mem_leaves hlt).2 hleaf)

/-- Three ways: the first is at depth 1, and is replaced by one of two replacements. -/
theorem exec_fair_three_ways :
    ∃ vs₁ t₁ vs₂ t₂, exec [.touch 1] (tagsInit ⟨3, 0, []⟩ 6) = some (vs₁, t₁) ∧
      exec [.replace 0 true, .touch 4, .replace 0 true] t₁ = some (vs₂, t₂) ∧
        (victimsOf 0 vs₂).count 0 = 1 :=
  exec_fair (by decide) (by decide) (by decide) (by simp [Op.InRange]) (by simp [Op.InRange])
    (by simp [Op.set]) (by decide)

/-- **A round**: with a power of two of ways, as many replacements in a set replace each way once,
and leave its tree as it was. -/
theorem exec_cycle {k : ℕ} (hk : n = 2 ^ (k + 1)) {pre ops : List Op} (hs : (s + 1) * n ≤ m)
    (hpre : ∀ o ∈ pre, o.InRange n m) (hops : ∀ o ∈ ops, o.InRange n m)
    (hreplace : ∀ o ∈ ops, o.set n = s → ∃ valid, o = .replace s valid)
    (hcount : (onSet n s ops).length = n) :
    ∃ vs₁ t₁ vs₂ t₂, exec pre (tagsInit ⟨n, 0, []⟩ m) = some (vs₁, t₁) ∧
      exec ops t₁ = some (vs₂, t₂) ∧ (victimsOf s vs₂).Perm (List.range n) ∧
        t₂.tree s = t₁.tree s := by
  have hn : 2 ≤ n := by
    rw [hk, Nat.pow_succ]
    have := Nat.one_le_two_pow (n := k)
    omega
  obtain ⟨vs₁, t₁, hexec₁, hshaped₁, -⟩ := (Shaped.tagsInit (by omega) m).1.exec hn hpre
  obtain ⟨vs₂, t₂, hexec₂, -, hrun⟩ := hshaped₁.exec hn hops
  have hi : s * n < m := by
    rw [Nat.add_mul] at hs
    omega
  have hlt := hshaped₁.tree_lt hi
  rw [Nat.mul_div_cancel _ (by omega)] at hlt
  have honly : ∀ o ∈ onSet n s ops, ∃ s' valid, o = .replace s' valid := by
    intro o ho
    obtain ⟨hmem, heq⟩ := List.mem_filter.1 ho
    exact ⟨s, hreplace o hmem (of_decide_eq_true heq)⟩
  have hlog : ∀ w < n, Nat.log 2 (n + w) = k + 1 := by
    intro w hw
    refine Nat.log_eq_of_pow_le_of_lt_pow (by omega) ?_
    rw [Nat.pow_succ]
    omega
  have hleaves := fun y => hshaped₁.mem_leaves (i := y) hlt
  have hlow : ∀ y ∈ (t₁.tree s).leaves, n - 1 ≤ y := fun y hy => ((hleaves y).1 hy).1
  refine ⟨vs₁, t₁, vs₂, t₂, hexec₁, hexec₂, ?_, ?_⟩
  · rw [(hrun s).2, (act_replacements honly _).2, hcount, List.perm_iff_count]
    intro w
    rw [count_ways hlow (by omega), List.nodup_range.count]
    by_cases hw : w < n
    · have hleaf : TreePLRU.IsLeaf (n - 1) (w + n - 1) := ⟨by omega, by omega⟩
      have hindex : w + n - 1 + 1 = n + w := by omega
      have hdepth := hshaped₁.depth hlt hleaf
      rw [hindex, hlog w hw] at hdepth
      rw [if_pos (List.mem_range.2 hw)]
      have hcount := PointerTree.count_targets (nodup_leaves t₁ s) ((hleaves _).2 hleaf)
      rwa [hdepth, ← hk] at hcount
    · rw [if_neg fun h => hw (List.mem_range.1 h), List.count_eq_zero]
      intro h
      have := ((hleaves _).1 (PointerTree.mem_of_mem_targets h)).2
      omega
  · rw [(hrun s).1, (act_replacements honly _).1, hcount, hk]
    refine PointerTree.iterate_turn (nodup_leaves t₁ s) ?_
    have hget : t₁.policy.trees.getD s [] = t₁.policy.trees[s] := by
      rw [List.getD_eq_getElem?_getD, List.getElem?_eq_getElem hlt, Option.getD_some]
    have hheight := TreePLRU.height_subtree (TreePLRU.bitsOf t₁.policy.trees[s])
      (Nat.zero_le (2 * (n - 1)))
    have hindex : 2 * (n - 1) + 1 = n + (n - 1) := by omega
    rw [hindex, hlog (n - 1) (by omega), Nat.zero_add, Nat.log_one_right, Nat.add_zero] at hheight
    unfold PlruTable.tree TreePLRU.toTree
    rw [hget, hshaped₁.length _ (List.getElem_mem hlt)]
    exact hheight

/-- Two ways, after a touch. -/
theorem exec_cycle_two_ways :
    ∃ vs₁ t₁ vs₂ t₂, exec [.touch 1] (tagsInit ⟨2, 0, []⟩ 4) = some (vs₁, t₁) ∧
      exec [.replace 0 true, .touch 3, .replace 0 false] t₁ = some (vs₂, t₂) ∧
        (victimsOf 0 vs₂).Perm (List.range 2) ∧ t₂.tree 0 = t₁.tree 0 :=
  exec_cycle (k := 0) rfl (by decide) (by simp [Op.InRange]) (by simp [Op.InRange])
    (by simp [Op.set]) (by decide)

/-- **With a single leaf**, which the constructor accepts, every touch throws: the leaf is the root,
and there is no node above it. -/
theorem exec_single (hi : i < m) : exec [.touch i] (tagsInit ⟨1, 0, []⟩ m) = none := by
  have h := (Shaped.tagsInit (n := 1) le_rfl m).1
  have htree := h.tree_lt hi
  rw [Nat.div_one] at htree
  have hget := List.getElem?_eq_getElem htree
  have hclimb : ∀ tree, TreePLRU.climb false (i % 1 + 1 - 1) tree = none := by
    intro tree
    rw [Nat.mod_one, TreePLRU.climb]
    exact if_pos rfl
  have hupdate : TreePLRU.touch (entryAt 1 i).replacementData
      (tagsInit ⟨1, 0, []⟩ m).policy = none := by
    unfold TreePLRU.touch TreePLRU.update entryAt
    simp only [Nat.div_one, hget, hclimb, Option.bind_eq_bind, Option.bind_some, Option.bind_none]
  rw [exec, PlruTable.perform, h.getElem?_blks hi]
  simp only [Option.bind_eq_bind, Option.bind_some, hupdate, Option.bind_none]

end PlruTable

end OpenCache
