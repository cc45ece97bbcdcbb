/-
`FALRU` in use: accesses, fills and invalidations in any order.

A fill follows an access that has missed, and what is invalidated is a valid block.  The constructor
registers no callback for the tags, so the caller has to do it, for every block before the first
fill that takes it.  Without invalidations the mask that an access returns tells in which of the
tracked caches it would have hit, each a cache of its own that replaces the least recently used
block.  The counters do not: a block is moved to the head before the access is recorded, and its
mask is then that of all tracked caches.

* `OpenCache.FALRU.Tagged` — the invariant, with the hash table and the number of the tags in use;
* `OpenCache.FALRU.Tagged.fill_isSome_iff` — a fill fails exactly if its block has no callback;
* `OpenCache.FALRU.run_safe` — **no operation fails in any run, the sanity check does not panic, and
  the hash table finds exactly the valid block of a tag**;
* `OpenCache.FALRU.reads_hits` — **every tracked cache is an LRU cache of its size**;
* `OpenCache.FALRU.run_counts` — the counters of all sizes count the same hits;
* `OpenCache.FALRU.fill_fill_eq_none` — with a tracked cache of a single block, the second fill
  dereferences a null pointer.
-/

import OpenCache.Runs
import OpenCache.Gem5.FaLru

set_option relaxedAutoImplicit false
set_option autoImplicit false

namespace OpenCache

namespace FALRU

/-- The invariant of the whole tag store. -/
structure Tagged (s : FALRU) (l : List ℕ) : Prop extends Tidy s l where
  roomy : s.params.Roomy
  hash : ∀ key b, s.tagHash key = some b ↔ b ∈ l ∧ (s.blks b).valid = true ∧ (s.blks b).key = key
  secure : ∀ b, (s.blks b).valid = false → (s.blks b).secure = false
  inUse : s.stats.tagsInUse = (l.countP fun b => (s.blks b).valid : ℕ)

variable {s s' : FALRU} {l : List ℕ} {b : ℕ}

/-- The invariant of the list is about the pointers, the masks and the boundaries only. -/
theorem Tidy.congr (h : Tidy s l) (hparams : s'.params = s.params) (hlinks : s'.links = s.links)
    (hboundaries : s'.boundaries = s.boundaries)
    (hmask : ∀ x, (s'.blks x).inCachesMask = (s.blks x).inCachesMask) : Tidy s' l where
  sized := hparams ▸ h.sized
  orders := hlinks ▸ h.orders
  mem := hparams ▸ h.mem
  mask x hx i hi := by
    rw [hmask, hparams]
    exact h.mask x hx i hi
  boundaries := by
    rw [hparams, hboundaries]
    exact h.boundaries

/-- To change a block, but not its mask. -/
theorem update_mask {blk : FALRUBlk} (hblk : blk.inCachesMask = (s.blks b).inCachesMask) (x : ℕ) :
    (Function.update s.blks b blk x).inCachesMask = (s.blks x).inCachesMask := by
  by_cases hx : x = b
  · rw [hx, Function.update_self, hblk]
  · rw [Function.update_of_ne hx]

/-! ### The callbacks -/

/-- A callback changes nothing that is looked at but itself. -/
theorem registerTagExtractor_blks (s : FALRU) (b : ℕ) (ext : TagExtractor) (x : ℕ) :
    (s.registerTagExtractor b ext).blks x =
      { s.blks x with extractTag := if x = b then some ext else (s.blks x).extractTag } := by
  unfold FALRU.registerTagExtractor
  by_cases hx : x = b
  · subst hx
    rw [if_pos rfl]
    exact Function.update_self _ _ _
  · rw [if_neg hx]
    exact Function.update_of_ne hx _ _

theorem Tidy.registerTagExtractor (h : Tidy s l) (x : ℕ) (ext : TagExtractor) :
    Tidy (s.registerTagExtractor x ext) l :=
  h.congr rfl rfl rfl fun y => by rw [registerTagExtractor_blks]

theorem Fresh.registerTagExtractor (h : Fresh s) (x : ℕ) (ext : TagExtractor) :
    Fresh (s.registerTagExtractor x ext) where
  valid y := by
    rw [registerTagExtractor_blks]
    exact h.valid y
  secure y := by
    rw [registerTagExtractor_blks]
    exact h.secure y
  tagHash := h.tagHash
  stats := h.stats

theorem Tagged.registerTagExtractor (h : Tagged s l) (x : ℕ) (ext : TagExtractor) :
    Tagged (s.registerTagExtractor x ext) l where
  toTidy := h.toTidy.registerTagExtractor x ext
  roomy := h.roomy
  hash key y := by
    rw [registerTagExtractor_blks]
    exact h.hash key y
  secure y hy := by
    rw [registerTagExtractor_blks] at hy ⊢
    exact h.secure y hy
  inUse := by
    simp only [registerTagExtractor_blks]
    exact h.inUse

/-- What holds of a state, and is kept by a registration, holds after any number of them. -/
theorem registerAll_induct {P : FALRU → Prop}
    (hstep : ∀ s b ext, P s → P (s.registerTagExtractor b ext)) (h : P s)
    (exts : List (ℕ × TagExtractor)) : P (s.registerAll exts) := by
  induction exts generalizing s with
  | nil => exact h
  | cons r exts ih => exact ih (hstep s r.1 r.2 h)

/-- One function for some of the blocks. -/
theorem registerAll_const (s : FALRU) (ext : TagExtractor) (bs : List ℕ) (b : ℕ) :
    ((s.registerAll (bs.map fun b => (b, ext))).blks b).extractTag =
      if b ∈ bs then some ext else (s.blks b).extractTag := by
  induction bs generalizing s with
  | nil => rw [if_neg List.not_mem_nil]; rfl
  | cons x bs ih =>
      refine (ih (s.registerTagExtractor x ext)).trans ?_
      rw [registerTagExtractor_blks]
      by_cases hb : b ∈ bs
      · rw [if_pos hb, if_pos (List.mem_cons_of_mem _ hb)]
      · rw [if_neg hb]
        exact if_congr (by rw [List.mem_cons, or_iff_left hb]) rfl rfl

theorem registerAll_params (s : FALRU) (exts : List (ℕ × TagExtractor)) :
    (s.registerAll exts).params = s.params :=
  registerAll_induct (P := fun s' => s'.params = s.params) (fun _ _ _ h => h) rfl exts

/-- Before the first fill: a tag store that was constructed, and whose blocks have got callbacks. -/
theorem registered_new {p : FALRUParams} (hp : p.Sized) {s₀ : FALRU} (hnew : new p = some s₀)
    (exts : List (ℕ × TagExtractor)) : (s₀.registerAll exts).params = p ∧
      Tidy (s₀.registerAll exts) (List.range p.numBlocks) ∧ Fresh (s₀.registerAll exts) := by
  obtain ⟨s₁, hs₁, hparams, htidy, hfresh, -⟩ := exists_new hp
  rw [hnew, Option.some.injEq] at hs₁
  subst hs₁
  exact registerAll_induct (P := fun s => s.params = p ∧ Tidy s (List.range p.numBlocks) ∧ Fresh s)
    (fun s b ext h => ⟨h.1, h.2.1.registerTagExtractor b ext, h.2.2.registerTagExtractor b ext⟩)
    ⟨hparams, htidy, hfresh⟩ exts

theorem Tidy.tagged (h : Tidy s l) (hroomy : s.params.Roomy) (hfresh : Fresh s) :
    Tagged s l where
  toTidy := h
  roomy := hroomy
  hash key b := by
    rw [hfresh.tagHash, hfresh.valid]
    simp
  secure b _ := hfresh.secure b
  inUse := by
    rw [hfresh.stats, List.countP_eq_zero.2 fun b _ => by simp [hfresh.valid]]
    rfl

/-- The hash table does not depend on the order, nor on the masks. -/
theorem Tagged.of_keeps (h : Tagged s l) {l' : List ℕ} (hkeeps : Keeps s s') (htidy : Tidy s' l')
    (hperm : l'.Perm l) : Tagged s' l' where
  toTidy := htidy
  roomy := hkeeps.params ▸ h.roomy
  hash key b := by rw [hkeeps.tagHash, hkeeps.valid, hkeeps.key, h.hash, hperm.mem_iff]
  secure b hb := by
    rw [hkeeps.valid] at hb
    exact (congrArg TagHashKey.secure (hkeeps.key b)).trans (h.secure b hb)
  inUse := by
    rw [hkeeps.stats, h.inUse, hperm.countP_eq]
    simp only [hkeeps.valid]

theorem Tagged.recordAccess (h : Tagged s l) (blk : Option ℕ) : Tagged (s.recordAccess blk) l where
  toTidy := h.toTidy.congr rfl rfl rfl fun _ => rfl
  roomy := h.roomy
  hash := h.hash
  secure := h.secure
  inUse := h.inUse

/-- The assertions of `findBlock` hold, and it returns what is in the hash table. -/
theorem Tagged.findBlock (h : Tagged s l) (addr : BitVec 64) (sec : Bool) :
    s.findBlock addr sec = some (s.tagHash (s.keyOf addr sec)) := by
  unfold FALRU.findBlock
  cases hash : s.tagHash (s.keyOf addr sec) with
  | none => rfl
  | some b =>
      obtain ⟨-, hvalid, hkey⟩ := (h.hash _ b).1 hash
      simp only [hvalid, hkey, if_true]

/-- An access moves the block that it finds to the head. -/
theorem Tagged.accessBlock (h : Tagged s l) (addr : BitVec 64) (sec : Bool) :
    (s.tagHash (s.keyOf addr sec) = none ∧
      s.accessBlock addr sec = some ((none, 0), s.recordAccess none)) ∨
    ∃ b s', s.tagHash (s.keyOf addr sec) = some b ∧ b ∈ l ∧ Keeps s s' ∧ Tidy s' (b :: l.erase b) ∧
      s.accessBlock addr sec =
        some ((some b, (s.blks b).inCachesMask), s'.recordAccess (some b)) := by
  unfold FALRU.accessBlock
  rw [h.findBlock]
  cases hash : s.tagHash (s.keyOf addr sec) with
  | none => exact Or.inl ⟨rfl, rfl⟩
  | some b =>
      obtain ⟨hb, hvalid, -⟩ := (h.hash _ b).1 hash
      obtain ⟨s', hs', hkeeps, htidy⟩ := h.toTidy.moveToHead h.roomy hb
      refine Or.inr ⟨b, s', rfl, hb, hkeeps, htidy, ?_⟩
      simp only [Option.bind_eq_bind, Option.bind_some, hvalid, if_true, hs', Option.map_some]

/-- What a block holds. -/
def keyAt (s : FALRU) (b : ℕ) : Option TagHashKey :=
  if (s.blks b).valid then some (s.blks b).key else none

theorem Keeps.keyAt (h : Keeps s s') : s'.keyAt = s.keyAt := by
  funext b
  unfold FALRU.keyAt
  rw [h.valid, h.key]

theorem keyAt_eq_some_iff {key : TagHashKey} :
    s.keyAt b = some key ↔ (s.blks b).valid = true ∧ (s.blks b).key = key := by
  unfold FALRU.keyAt
  split
  · next h => rw [Option.some.injEq, and_iff_right h]
  · next h => exact ⟨fun h' => absurd h'.symm (Option.some_ne_none _), fun h' => absurd h'.1 h⟩

theorem Tagged.hash_iff (h : Tagged s l) {key : TagHashKey} :
    s.tagHash key = some b ↔ b ∈ l ∧ s.keyAt b = some key := by
  rw [h.hash, keyAt_eq_some_iff]

/-- To change one element changes the number of the elements with a property by that element. -/
theorem countP_update {f g : ℕ → Bool} (hnodup : l.Nodup) (hb : b ∈ l)
    (hfg : ∀ x, x ≠ b → g x = f x) :
    l.countP g + (f b).toNat = l.countP f + (g b).toNat := by
  have hperm := List.perm_cons_erase hb
  have herase : (l.erase b).countP g = (l.erase b).countP f := by
    refine List.countP_congr fun x hx => ?_
    rw [hfg x (hnodup.mem_erase_iff.1 hx).1]
  rw [hperm.countP_eq, hperm.countP_eq f, List.countP_cons, List.countP_cons, herase]
  cases f b <;> cases g b <;> simp

/-- The last block is in none of the tracked caches. -/
theorem Tidy.mask_tail (h : Tidy s l) : (s.blks s.links.tail).inCachesMask = 0 := by
  have hmem : s.links.tail ∈ l := List.mem_of_getLast? h.orders.tail
  have hlength := h.length
  have hpos : 0 < l.length := List.length_pos_of_mem hmem
  have hidx : l.idxOf s.links.tail = l.length - 1 := by
    have hlast := h.orders.tail
    rw [List.getLast?_eq_getElem?, List.getElem?_eq_getElem (by omega)] at hlast
    rw [← Option.some.inj hlast, h.orders.nodup.idxOf_getElem]
  refine BitVec.eq_of_getLsbD_eq fun i hi => ?_
  have hzero : (0 : CachesMask).getLsbD i = false := BitVec.getLsbD_zero
  rw [h.mask _ hmem i hi, hzero, decide_eq_false_iff_not, hidx]
  rintro ⟨hik, hlt⟩
  have := h.sized.capacity_lt hik
  omega

/-- Nothing but what the blocks hold has changed: what is counted has not, nor have the
callbacks. -/
structure Counts (s s' : FALRU) : Prop where
  params : s'.params = s.params
  hits : s'.stats.hits = s.stats.hits
  misses : s'.stats.misses = s.stats.misses
  extractTag : ∀ x, (s'.blks x).extractTag = (s.blks x).extractTag

theorem Counts.trans {s₁ s₂ s₃ : FALRU} (h : Counts s₁ s₂) (h' : Counts s₂ s₃) : Counts s₁ s₃ :=
  ⟨h'.params.trans h.params, h'.hits.trans h.hits, h'.misses.trans h.misses,
    fun x => (h'.extractTag x).trans (h.extractTag x)⟩

/-- **An invalidation** of a valid block does not fail. -/
theorem Tagged.invalidate (h : Tagged s l) (hb : b ∈ l) (hvalid : (s.blks b).valid = true) :
    ∃ s', s.invalidate b = some s' ∧ Tagged s' (l.erase b ++ [b]) ∧ Counts s s' ∧
      s'.keyAt = Function.update s.keyAt b none := by
  have hhash : s.tagHash (s.blks b).key = some b := (h.hash _ b).2 ⟨hb, hvalid, rfl⟩
  generalize hs₀ : ({ s with
    tagHash := Function.update s.tagHash (s.blks b).key none
    blks := Function.update s.blks b (s.blks b).invalidate
    stats := { s.stats with tagsInUse := s.stats.tagsInUse - 1 } } : FALRU) = s₀
  have hself : s₀.blks b = (s.blks b).invalidate := by
    rw [← hs₀]
    exact Function.update_self _ _ _
  have hother : ∀ x, x ≠ b → s₀.blks x = s.blks x := by
    intro x hx
    rw [← hs₀]
    exact Function.update_of_ne hx _ _
  have hparams : s₀.params = s.params := by rw [← hs₀]
  have htidy₀ : Tidy s₀ l := by
    rw [← hs₀]
    exact h.toTidy.congr rfl rfl rfl (update_mask rfl)
  have htagged : Tagged s₀ l := by
    refine ⟨htidy₀, hparams ▸ h.roomy, fun key x => ?_, fun x hx => ?_, ?_⟩
    · have hupdate : s₀.tagHash = Function.update s.tagHash (s.blks b).key none := by rw [← hs₀]
      rw [hupdate]
      by_cases hx : x = b
      · subst hx
        rw [hself]
        have hne : Function.update s.tagHash (s.blks x).key none key ≠ some x := by
          by_cases hkey : key = (s.blks x).key
          · rw [hkey, Function.update_self]
            exact (Option.some_ne_none x).symm
          · rw [Function.update_of_ne hkey]
            exact fun heq => hkey ((h.hash key x).1 heq).2.2.symm
        exact ⟨fun heq => absurd heq hne, fun heq => absurd heq.2.1 Bool.false_ne_true⟩
      · rw [hother x hx, ← h.hash]
        by_cases hkey : key = (s.blks b).key
        · rw [hkey, Function.update_self, hhash]
          exact ⟨fun heq => absurd heq.symm (Option.some_ne_none _),
            fun heq => absurd (Option.some.inj heq).symm hx⟩
        · rw [Function.update_of_ne hkey]
    · by_cases hxb : x = b
      · rw [hxb, hself]
        rfl
      · rw [hother x hxb] at hx ⊢
        exact h.secure x hx
    · have hcount := countP_update (f := fun x => (s.blks x).valid) (g :=
        fun x => (s₀.blks x).valid)
        h.orders.nodup hb fun x hx => by rw [hother x hx]
      simp only [hself, hvalid, FALRUBlk.invalidate, Bool.toNat_true, Bool.toNat_false] at hcount
      have huse : s₀.stats.tagsInUse = s.stats.tagsInUse - 1 := by rw [← hs₀]
      rw [huse, h.inUse]
      omega
  obtain ⟨s', hs', hkeeps, htidy⟩ := htagged.toTidy.moveToTail hb
  have hperm : (l.erase b ++ [b]).Perm l :=
    (List.perm_append_singleton b _).trans (List.perm_cons_erase hb).symm
  refine ⟨s', ?_, htagged.of_keeps hkeeps htidy hperm,
    ⟨hkeeps.params.trans hparams, ?_, ?_, fun x => ?_⟩, ?_⟩
  · have hcond : (s.tagHash (s.blks b).key).isSome = true ∧ (s.blks b).valid = true :=
      ⟨by rw [hhash]; rfl, hvalid⟩
    exact (if_pos hcond).trans ((congrArg (FALRU.moveToTail b) hs₀).trans hs')
  · rw [hkeeps.stats, ← hs₀]
  · rw [hkeeps.stats, ← hs₀]
  · rw [hkeeps.extractTag]
    by_cases hx : x = b
    · rw [hx, hself]
      rfl
    · rw [hother x hx]
  · rw [hkeeps.keyAt]
    funext x
    unfold FALRU.keyAt
    by_cases hx : x = b
    · subst hx
      rw [hself, Function.update_self]
      rfl
    · rw [hother x hx, Function.update_of_ne hx]

/-- **An insertion** into an invalid block that is in none of the tracked caches does not fail, if
the tag is not there yet. -/
theorem Tagged.insertBlock (h : Tagged s l) {addr : BitVec 64} {sec : Bool} (hb : b ∈ l)
    (hvalid : (s.blks b).valid = false) (hmask : (s.blks b).inCachesMask = 0)
    (hext : s.Extracts b addr) (hnone : s.tagHash (s.keyOf addr sec) = none) :
    ∃ s', s.insertBlock addr sec b = some s' ∧ Tagged s' (b :: l.erase b) ∧ Counts s s' ∧
      s'.keyAt = Function.update s.keyAt b (some (s.keyOf addr sec)) := by
  have hsecure : (sec || (s.blks b).secure) = sec := by rw [h.secure b hvalid, Bool.or_false]
  obtain ⟨ext, hblkext, htag⟩ := Option.map_eq_some_iff.1 hext
  generalize hblk : ({ s.blks b with
    valid := true
    tag := s.extractTag addr
    secure := sec || (s.blks b).secure } : FALRUBlk) = blk
  have hinsert : (s.blks b).insert addr sec = some blk := by
    unfold FALRUBlk.insert
    simp only [← hblk, hblkext, hvalid, htag, Option.bind_some, if_true]
  have hblkvalid : blk.valid = true := by rw [← hblk]
  have hblkkey : blk.key = s.keyOf addr sec := by
    rw [← hblk]
    exact congrArg (TagHashKey.mk (s.extractTag addr)) hsecure
  generalize hs₀ : ({ s with
    blks := Function.update s.blks b blk
    stats := { s.stats with tagsInUse := s.stats.tagsInUse + 1 } } : FALRU) = s₀
  have hself : s₀.blks b = blk := by
    rw [← hs₀]
    exact Function.update_self _ _ _
  have hother : ∀ x, x ≠ b → s₀.blks x = s.blks x := by
    intro x hx
    rw [← hs₀]
    exact Function.update_of_ne hx _ _
  have hparams : s₀.params = s.params := by rw [← hs₀]
  have htidy₀ : Tidy s₀ l := by
    rw [← hs₀]
    exact h.toTidy.congr rfl rfl rfl (update_mask (by rw [← hblk]))
  obtain ⟨s₁, hs₁, hkeeps, htidy⟩ := htidy₀.moveToHead (hparams ▸ h.roomy) hb
  have hhash₁ : s₁.tagHash = s.tagHash := by rw [hkeeps.tagHash, ← hs₀]
  have hkeyAt : s₁.keyAt = Function.update s.keyAt b (some (s.keyOf addr sec)) := by
    rw [hkeeps.keyAt]
    funext x
    unfold FALRU.keyAt
    by_cases hx : x = b
    · subst hx
      rw [hself, Function.update_self, if_pos hblkvalid, hblkkey]
    · rw [hother x hx, Function.update_of_ne hx]
  refine ⟨{ s₁ with tagHash := Function.update s₁.tagHash blk.key (some b) }, ?_,
    ⟨htidy.congr rfl rfl rfl fun _ => rfl,
      hkeeps.params.symm ▸ hparams.symm ▸ h.roomy, fun key x => ?_, fun x hx => ?_, ?_⟩,
    ⟨hkeeps.params.trans hparams, ?_, ?_, fun x => ?_⟩, hkeyAt⟩
  · unfold FALRU.insertBlock
    rw [if_pos hmask, hinsert, Option.bind_some, hs₀, hs₁, Option.map_some]
  · change Function.update s₁.tagHash blk.key (some b) key = some x ↔ _
    rw [← keyAt_eq_some_iff (s := s₁), hkeyAt, hhash₁, hblkkey, mem_cons_erase hb]
    by_cases hkey : key = s.keyOf addr sec
    · subst hkey
      rw [Function.update_self]
      by_cases hx : x = b
      · subst hx
        rw [Function.update_self]
        exact ⟨fun _ => ⟨hb, rfl⟩, fun _ => rfl⟩
      · rw [Function.update_of_ne hx, ← h.hash_iff, hnone]
        exact ⟨fun heq => absurd (Option.some.inj heq).symm hx,
          fun heq => absurd heq.symm (Option.some_ne_none _)⟩
    · rw [Function.update_of_ne hkey, h.hash_iff]
      by_cases hx : x = b
      · subst hx
        have hempty : s.keyAt x = none := by
          unfold FALRU.keyAt
          rw [hvalid]
          rfl
        rw [Function.update_self, hempty]
        exact ⟨fun heq => absurd heq.2.symm (Option.some_ne_none _),
          fun heq => absurd (Option.some.inj heq.2).symm hkey⟩
      · rw [Function.update_of_ne hx]
  · have hx' : (s₁.blks x).valid = false := hx
    rw [hkeeps.valid] at hx'
    have hxb : x ≠ b := by
      rintro rfl
      rw [hself, hblkvalid] at hx'
      cases hx'
    rw [hother x hxb] at hx'
    refine (congrArg TagHashKey.secure (hkeeps.key x)).trans ?_
    rw [hother x hxb]
    exact h.secure x hx'
  · have hcount := countP_update (f := fun x => (s.blks x).valid) (g := fun x => (s₀.blks x).valid)
      h.orders.nodup hb fun x hx => by rw [hother x hx]
    simp only [hself, hblkvalid, hvalid, Bool.toNat_true, Bool.toNat_false] at hcount
    have huse : s₁.stats.tagsInUse = s.stats.tagsInUse + 1 := by rw [hkeeps.stats, ← hs₀]
    have hperm : (b :: l.erase b).Perm l := (List.perm_cons_erase hb).symm
    change s₁.stats.tagsInUse = (((b :: l.erase b).countP fun x => (s₁.blks x).valid : ℕ) : ℤ)
    rw [huse, h.inUse, hperm.countP_eq]
    simp only [hkeeps.valid]
    omega
  · change s₁.stats.hits = _
    rw [hkeeps.stats, ← hs₀]
  · change s₁.stats.misses = _
    rw [hkeeps.stats, ← hs₀]
  · refine (hkeeps.extractTag x).trans ?_
    by_cases hx : x = b
    · rw [hx, hself, ← hblk]
    · rw [hother x hx]

/-- The eviction of the last block leaves it invalid, and where it is. -/
theorem Tagged.evict_tail (h : Tagged s l) : ∃ s₁, s.evict s.links.tail = some s₁ ∧
    Tagged s₁ l ∧ Counts s s₁ ∧ s₁.keyAt = Function.update s.keyAt s.links.tail none ∧
      s₁.links.tail = s.links.tail ∧ (s₁.blks s.links.tail).valid = false ∧
        (s₁.blks s.links.tail).inCachesMask = 0 := by
  have hb : s.links.tail ∈ l := List.mem_of_getLast? h.orders.tail
  have hlast : l.erase s.links.tail ++ [s.links.tail] = l := by
    obtain ⟨l', hl'⟩ := List.getLast?_eq_some_iff.1 h.orders.tail
    have hnot : s.links.tail ∉ l' := fun hmem =>
      (List.nodup_append'.1 (hl' ▸ h.orders.nodup)).2.2 hmem (List.mem_singleton_self _)
    rw [hl', List.erase_append_right _ hnot, List.erase_cons_head, List.append_nil]
  unfold FALRU.evict
  by_cases hvalid : (s.blks s.links.tail).valid = true
  · obtain ⟨s₁, hs₁, htagged, hcounts, hkeyAt⟩ := h.invalidate hb hvalid
    rw [hlast] at htagged
    have htail : s₁.links.tail = s.links.tail :=
      Option.some.inj (htagged.orders.tail.symm.trans h.orders.tail)
    refine ⟨s₁, (if_pos hvalid).trans hs₁, htagged, hcounts, hkeyAt, htail, ?_,
      htail ▸ htagged.mask_tail⟩
    have hnone := congrFun hkeyAt s.links.tail
    rw [Function.update_self] at hnone
    unfold FALRU.keyAt at hnone
    split at hnone
    · cases hnone
    · next hfalse => exact Bool.eq_false_of_not_eq_true hfalse
  · refine ⟨s, if_neg hvalid, h, ⟨rfl, rfl, rfl, fun _ => rfl⟩, ?_, rfl,
      Bool.eq_false_of_not_eq_true hvalid, h.mask_tail⟩
    funext x
    by_cases hx : x = s.links.tail
    · subst hx
      rw [Function.update_self, FALRU.keyAt, if_neg hvalid]
    · rw [Function.update_of_ne hx]

theorem Extracts.of_eq {addr : BitVec 64} (h : s.Extracts b addr) (hparams : s'.params = s.params)
    (hext : (s'.blks b).extractTag = (s.blks b).extractTag) : s'.Extracts b addr := by
  unfold FALRU.Extracts FALRU.extractTag
  rw [hext, hparams]
  exact h

/-- **A fill** does not fail, if the tag is not there yet and the last block has a
callback for it. -/
theorem Tagged.fill (h : Tagged s l) {addr : BitVec 64} (sec : Bool)
    (hnone : s.tagHash (s.keyOf addr sec) = none) (hext : s.Extracts s.links.tail addr) :
    ∃ s', s.fill addr sec = some s' ∧ Tagged s' (s.links.tail :: l.erase s.links.tail) ∧
      Counts s s' ∧ s'.keyAt = Function.update s.keyAt s.links.tail (some (s.keyOf addr sec)) := by
  have hb : s.links.tail ∈ l := List.mem_of_getLast? h.orders.tail
  obtain ⟨s₁, hevict, htagged, hcounts, hkeyAt, htail, hvalid, hmask⟩ := h.evict_tail
  have hkeyOf : s₁.keyOf addr sec = s.keyOf addr sec := by
    unfold FALRU.keyOf FALRU.extractTag
    rw [hcounts.params]
  have hnone₁ : s₁.tagHash (s₁.keyOf addr sec) = none := by
    rw [hkeyOf, Option.eq_none_iff_forall_ne_some]
    intro x hx
    obtain ⟨hxl, hx⟩ := htagged.hash_iff.1 hx
    rw [hkeyAt] at hx
    by_cases hxb : x = s.links.tail
    · subst hxb
      rw [Function.update_self] at hx
      cases hx
    · rw [Function.update_of_ne hxb] at hx
      rw [h.hash_iff.2 ⟨hxl, hx⟩] at hnone
      cases hnone
  obtain ⟨s', hs', htagged', hcounts', hkeyAt'⟩ := htagged.insertBlock hb hvalid hmask
    (hext.of_eq hcounts.params (hcounts.extractTag _)) hnone₁
  refine ⟨s', ?_, htagged', hcounts.trans hcounts', ?_⟩
  · unfold FALRU.fill FALRU.findVictim
    simp only [hevict, Option.bind_eq_bind, Option.bind_some, hs']
  · rw [hkeyAt', hkeyAt, Function.update_idem, hkeyOf]

/-- **A fill fails exactly if the last block has no callback**, whatever tags the callbacks give. -/
theorem Tagged.fill_isSome_iff (h : Tagged s l) (addr : BitVec 64) (sec : Bool) :
    (s.fill addr sec).isSome = true ↔ (s.blks s.findVictim).extractTag.isSome = true := by
  have hb : s.links.tail ∈ l := List.mem_of_getLast? h.orders.tail
  obtain ⟨s₁, hevict, htagged, hcounts, -, -, hvalid, hmask⟩ := h.evict_tail
  have hfill : s.fill addr sec = s₁.insertBlock addr sec s.links.tail := by
    unfold FALRU.fill FALRU.findVictim
    simp only [hevict, Option.bind_eq_bind, Option.bind_some]
  rw [hfill, FALRU.findVictim, FALRU.insertBlock, if_pos hmask, FALRUBlk.insert, hcounts.extractTag]
  cases (s.blks s.links.tail).extractTag with
  | none => exact Iff.rfl
  | some ext =>
      rw [Option.bind_some, if_pos hvalid, Option.bind_some]
      -- the move to the head does not look at the tag
      have hmove : ∀ (blk : FALRUBlk) (stats : FALRUStats),
          blk.inCachesMask = (s₁.blks s.links.tail).inCachesMask →
          ∃ s₂, moveToHead s.links.tail { s₁ with
            blks := Function.update s₁.blks s.links.tail blk
            stats := stats } = some s₂ := by
        intro blk stats hblk
        have htidy : Tidy { s₁ with
            blks := Function.update s₁.blks s.links.tail blk
            stats := stats } l := htagged.toTidy.congr rfl rfl rfl (update_mask hblk)
        obtain ⟨s₂, hs₂, -⟩ := htidy.moveToHead htagged.roomy hb
        exact ⟨s₂, hs₂⟩
      rw [Option.isSome_map]
      exact iff_of_true (Option.isSome_iff_exists.2 (hmove _ _ rfl)) rfl

/-! ### Runs -/

/-- What a cache asks of its tags, and what they need to be told of their blocks. -/
inductive Op
  | registerTagExtractor (blk : ℕ) (ext : TagExtractor)
  | accessBlock (addr : BitVec 64) (secure : Bool)
  | fill (addr : BitVec 64) (secure : Bool)
  | invalidate (blk : ℕ)

/-- An operation, and what an access returns. -/
def step (s : FALRU) : Op → Option (FALRU × Option (Option ℕ × CachesMask))
  | .registerTagExtractor b ext => some (s.registerTagExtractor b ext, none)
  | .accessBlock addr secure => (s.accessBlock addr secure).map fun r => (r.2, some r.1)
  | .fill addr secure => (s.fill addr secure).map fun s => (s, none)
  | .invalidate b => (s.invalidate b).map fun s => (s, none)

def perform (s : FALRU) (o : Op) : Except Unit (FALRU × Option (Option ℕ × CachesMask)) :=
  (s.step o).elim (.error ()) .ok

/-- A fill is for an address that is not there, and the block that it takes has got a callback for
the address before; what is invalidated is a valid block. -/
def promise (s : FALRU) : Op → Prop
  | .registerTagExtractor _ _ => True
  | .accessBlock _ _ => True
  | .fill addr secure => s.findBlock addr secure = some none ∧ s.Extracts s.findVictim addr
  | .invalidate b => b < s.params.numBlocks ∧ (s.blks b).valid = true

/-- The number of the hits among what accesses have returned. -/
def countHits (trace : List (Option (Option ℕ × CachesMask))) : ℕ :=
  trace.countP fun obs => obs.any fun r => r.1.isSome

def countMisses (trace : List (Option (Option ℕ × CachesMask))) : ℕ :=
  trace.countP fun obs => obs.any fun r => r.1.isNone

/-- What the counters of a state say, after an observation. -/
structure Counted (s s' : FALRU) (obs : Option (Option ℕ × CachesMask)) : Prop where
  params : s'.params = s.params
  hits : ∀ i ≤ s.params.numTrackedCaches,
    s'.stats.hits i = s.stats.hits i + (obs.any fun r => r.1.isSome).toNat
  misses : ∀ i ≤ s.params.numTrackedCaches,
    s'.stats.misses i = s.stats.misses i + (obs.any fun r => r.1.isNone).toNat

theorem Counts.counted (h : Counts s s') : Counted s s' none :=
  ⟨h.params, fun i _ => congrFun h.hits i, fun i _ => congrFun h.misses i⟩

theorem counted_recordAccess_none (s : FALRU) (m : CachesMask) :
    Counted s (s.recordAccess none) (some (none, m)) := by
  refine ⟨rfl, fun i hi => ?_, fun i hi => ?_⟩
  · simp [FALRU.recordAccess]
  · simp [FALRU.recordAccess, hi]

/-- **A hit is recorded after the move to the head**, when the block is in all tracked caches. -/
theorem counted_recordAccess_some {b : ℕ} {l' : List ℕ} {m : CachesMask} (hkeeps : Keeps s s')
    (htidy : Tidy s' (b :: l')) (hvalid : (s'.blks b).valid = true) :
    Counted s (s'.recordAccess (some b)) (some (some b, m)) := by
  have hall : ∀ i ≤ s'.params.numTrackedCaches,
      (if i < s'.params.numTrackedCaches then
        (some b).any fun b => bit i &&& (s'.blks b).inCachesMask ≠ 0
      else (some b).any fun b => (s'.blks b).valid) = true := by
    intro i _
    have hK := htidy.sized.numTrackedCaches_lt
    split
    · next hi =>
        have := htidy.sized.capacity_pos i
        rw [Option.any_some, decide_eq_true_iff, bit_and_ne_zero (by omega),
          htidy.mask b List.mem_cons_self i (by omega), List.idxOf_cons_self, decide_eq_true_iff]
        exact ⟨hi, this⟩
    · exact hvalid
  refine ⟨hkeeps.params, fun i hi => ?_, fun i hi => ?_⟩
  · rw [← hkeeps.params] at hi
    change (if _ ∧ _ then s'.stats.hits i + 1 else s'.stats.hits i) = _
    rw [if_pos ⟨hi, hall i hi⟩, hkeeps.stats]
    rfl
  · rw [← hkeeps.params] at hi
    change (if _ ∧ ¬_ then s'.stats.misses i + 1 else s'.stats.misses i) = _
    rw [if_neg fun h => h.2 (hall i hi), hkeeps.stats]
    rfl

/-- **One operation** under its promise does not fail, and keeps the invariant. -/
theorem Tagged.step (h : Tagged s l) {o : Op} (ho : promise s o) :
    ∃ s' obs l', step s o = some (s', obs) ∧ Tagged s' l' ∧ Counted s s' obs := by
  cases o with
  | registerTagExtractor b ext =>
      exact ⟨_, _, l, rfl, h.registerTagExtractor b ext, rfl, fun _ _ => rfl, fun _ _ => rfl⟩
  | accessBlock addr sec =>
      rcases h.accessBlock addr sec with ⟨-, haccess⟩ | ⟨b, s', hhash, hb, hkeeps, htidy, haccess⟩
      · exact ⟨_, _, l, congrArg (Option.map _) haccess, h.recordAccess none,
          counted_recordAccess_none s 0⟩
      · obtain ⟨-, hvalid, -⟩ := (h.hash _ b).1 hhash
        exact ⟨_, _, _, congrArg (Option.map _) haccess,
          (h.of_keeps hkeeps htidy (List.perm_cons_erase hb).symm).recordAccess _,
          counted_recordAccess_some hkeeps htidy ((hkeeps.valid b).trans hvalid)⟩
  | fill addr sec =>
      have hnone : s.tagHash (s.keyOf addr sec) = none :=
        Option.some.inj ((h.findBlock addr sec).symm.trans ho.1)
      obtain ⟨s', hs', htagged, hcounts, -⟩ := h.fill sec hnone ho.2
      exact ⟨s', _, _, congrArg (Option.map _) hs', htagged, hcounts.counted⟩
  | invalidate b =>
      obtain ⟨s', hs', htagged, hcounts, -⟩ := h.invalidate ((h.mem b).2 ho.1) ho.2
      exact ⟨s', _, _, congrArg (Option.map _) hs', htagged, hcounts.counted⟩

theorem perform_of_step {o : Op} {r : FALRU × Option (Option ℕ × CachesMask)}
    (h : s.step o = some r) : perform s o = .ok r := by
  unfold FALRU.perform
  rw [h]
  rfl

theorem Tagged.perform (h : Tagged s l) {o : Op} (ho : promise s o) :
    ∃ s' obs l', perform s o = .ok (s', obs) ∧ Tagged s' l' ∧ Counted s s' obs := by
  obtain ⟨s', obs, l', hstep, htagged, hcounted⟩ := h.step ho
  exact ⟨s', obs, l', perform_of_step hstep, htagged, hcounted⟩

/-- What is known of every state of a run. -/
theorem run_tagged {p : FALRUParams} (hp : p.Sized) (hroomy : p.Roomy) {s₀ : FALRU}
    (hnew : new p = some s₀) {trace : List (Option (Option ℕ × CachesMask))}
    (hrun : Runs.Run perform promise s₀ trace s) :
    s.params = p ∧ (∃ l, Tagged s l) ∧
      ∀ i ≤ p.numTrackedCaches, s.stats.hits i = countHits trace ∧
        s.stats.misses i = countMisses trace := by
  obtain ⟨s₁, hs₁, hparams, htidy, hfresh, hext⟩ := exists_new hp
  rw [hnew, Option.some.injEq] at hs₁
  subst hs₁
  refine Runs.Run.invariant (fun trace s => s.params = p ∧ (∃ l, Tagged s l) ∧
    ∀ i ≤ p.numTrackedCaches, s.stats.hits i = countHits trace ∧
      s.stats.misses i = countMisses trace) ?_ ?_ hrun
  · refine ⟨hparams, ⟨_, htidy.tagged (hparams.symm ▸ hroomy) hfresh⟩, fun i _ => ?_⟩
    rw [hfresh.stats]
    exact ⟨rfl, rfl⟩
  · rintro trace s₁ o s₂ obs ⟨hparams, ⟨l, htagged⟩, hstats⟩ ho hperform
    obtain ⟨s', obs', l', hperform', htagged', hcounted⟩ := htagged.perform ho
    rw [hperform, Except.ok.injEq, Prod.mk.injEq] at hperform'
    obtain ⟨rfl, rfl⟩ := hperform'
    refine ⟨hcounted.params.trans hparams, ⟨l', htagged'⟩, fun i hi => ?_⟩
    obtain ⟨hhits, hmisses⟩ := hstats i hi
    rw [← hparams] at hi
    rw [hcounted.hits i hi, hcounted.misses i hi, hhits, hmisses]
    unfold countHits countMisses
    rw [List.countP_append, List.countP_append, List.countP_singleton, List.countP_singleton]
    constructor
    · cases obs.any fun r => r.1.isSome <;> rfl
    · cases obs.any fun r => r.1.isNone <;> rfl

/-- **Safety**: in every run the sanity check does not panic, every operation that may come next
succeeds, the list is an order of all blocks, and the hash table finds a block exactly if it is
valid and has the tag.  The constructor registers no callback, and a fill fails exactly if its
block has none. -/
theorem run_safe {p : FALRUParams} (hp : p.Sized) (hroomy : p.Roomy) {s₀ : FALRU}
    (hnew : new p = some s₀) {trace : List (Option (Option ℕ × CachesMask))}
    (hrun : Runs.Run perform promise s₀ trace s) :
    (∀ b, (s₀.blks b).extractTag = none) ∧
      s.check = true ∧ s.list.Perm (List.range p.numBlocks) ∧
      s.stats.tagsInUse = ((List.range p.numBlocks).countP fun b => (s.blks b).valid : ℕ) ∧
      (∀ o, promise s o → ∃ r, perform s o = .ok r) ∧
      (∀ addr sec, (s.fill addr sec).isSome = true ↔
        (s.blks s.findVictim).extractTag.isSome = true) ∧
      ∀ addr sec, ∃ r, s.findBlock addr sec = some r ∧
        ∀ b, r = some b ↔ b < p.numBlocks ∧ (s.blks b).valid = true ∧
          (s.blks b).key = s.keyOf addr sec := by
  obtain ⟨hparams, ⟨l, htagged⟩, -⟩ := run_tagged hp hroomy hnew hrun
  have hlist : s.list = l := by
    unfold FALRU.list
    rw [← htagged.orders.head]
    exact walk_eq htagged.length.le htagged.orders.chain
  have hperm : l.Perm (List.range p.numBlocks) := by
    rw [List.perm_ext_iff_of_nodup htagged.orders.nodup List.nodup_range]
    intro b
    rw [htagged.mem, hparams, List.mem_range]
  have hext : ∀ b, (s₀.blks b).extractTag = none := by
    obtain ⟨s₁, hs₁, -, -, -, hext⟩ := exists_new hp
    rw [hnew, Option.some.injEq] at hs₁
    rw [hs₁]
    exact hext
  refine ⟨hext, htagged.toTidy.check, hlist.symm ▸ hperm, ?_, fun o ho => ?_,
    htagged.fill_isSome_iff, fun addr sec => ?_⟩
  · rw [htagged.inUse, hperm.countP_eq]
  · obtain ⟨s', obs, -, hperform, -⟩ := htagged.perform ho
    exact ⟨_, hperform⟩
  · refine ⟨_, htagged.findBlock addr sec, fun b => ?_⟩
    rw [htagged.hash, htagged.mem, hparams]

/-- Sixteen blocks, with tracked caches of two, four and eight blocks. -/
theorem sized_sixteen : FALRUParams.Sized ⟨1024, 64, 128⟩ where
  block := ⟨6, rfl⟩
  size := ⟨10, rfl⟩
  size_lt := by decide
  two_blocks := by decide
  dvd := by decide
  tracked := by decide

theorem roomy_sixteen : FALRUParams.Roomy ⟨1024, 64, 128⟩ := by
  unfold FALRUParams.Roomy FALRUParams.capacity
  decide

/-- A run of a registration for the last block, an access that misses, the fill for it, and an
access that hits. -/
theorem exists_run_sixteen : ∃ s₀ b m s, new ⟨1024, 64, 128⟩ = some s₀ ∧
    Runs.Run perform promise s₀ [none, some (none, 0), none, some (some b, m)] s := by
  obtain ⟨s₀, hnew, hparams, htidy, hfresh, -⟩ := exists_new sized_sixteen
  have htagged := (htidy.tagged (hparams.symm ▸ roomy_sixteen) hfresh).registerTagExtractor
    s₀.links.tail id
  generalize hs₁ : s₀.registerTagExtractor s₀.links.tail id = s₁ at htagged
  have hnone : s₁.tagHash (s₁.keyOf 0 false) = none := by
    rw [← hs₁]
    exact hfresh.tagHash _
  have haccess : s₁.accessBlock 0 false = some ((none, 0), s₁.recordAccess none) := by
    rcases htagged.accessBlock 0 false with ⟨-, haccess⟩ | ⟨b, s', hhash, -⟩
    · exact haccess
    · rw [hnone] at hhash
      cases hhash
  have hextracts : (s₁.recordAccess none).Extracts s₁.links.tail 0 := by
    have htail : (s₁.blks s₁.links.tail).extractTag = some id := by
      rw [← hs₁, registerTagExtractor_blks]
      exact if_pos rfl
    have hzero : (s₁.recordAccess none).extractTag 0 = 0 := BitVec.zero_and
    change Option.map _ (s₁.blks s₁.links.tail).extractTag = some _
    rw [htail, hzero]
    rfl
  have hpromise : promise (s₁.recordAccess none) (.fill 0 false) :=
    ⟨((htagged.recordAccess none).findBlock 0 false).trans (congrArg some hnone), hextracts⟩
  obtain ⟨s₃, hfill, htagged₃, hcounts, hkeyAt⟩ :=
    (htagged.recordAccess none).fill false hnone hextracts
  obtain ⟨b, s₄, haccess'⟩ : ∃ b s₄, s₃.accessBlock 0 false =
      some ((some b, (s₃.blks b).inCachesMask), s₄) := by
    rcases htagged₃.accessBlock 0 false with ⟨hmiss, -⟩ | ⟨b, s', -, -, -, -, haccess'⟩
    · have hself : s₃.keyAt s₁.links.tail = some (s₃.keyOf 0 false) := by
        have hkeyOf : s₃.keyOf 0 false = s₁.keyOf 0 false := by
          unfold FALRU.keyOf FALRU.extractTag
          rw [hcounts.params]
          rfl
        rw [hkeyAt, hkeyOf]
        exact Function.update_self _ _ _
      rw [htagged₃.hash_iff.2 ⟨List.mem_cons_self, hself⟩] at hmiss
      cases hmiss
    · exact ⟨b, _, haccess'⟩
  have hregister : promise s₀ (.registerTagExtractor s₀.links.tail id) := trivial
  have hread₁ : promise s₁ (.accessBlock 0 false) := trivial
  have hread₃ : promise s₃ (.accessBlock 0 false) := trivial
  have hrun₁ : Runs.Run perform promise s₀ [none] s₁ := .snoc .nil hregister
    (perform_of_step (congrArg (fun s => some (s, none)) hs₁))
  have hrun₂ : Runs.Run perform promise s₀ [none, some (none, 0)] (s₁.recordAccess none) :=
    hrun₁.snoc hread₁ (perform_of_step
      (congrArg (Option.map fun r : (Option ℕ × CachesMask) × FALRU => (r.2, some r.1)) haccess))
  have hrun₃ : Runs.Run perform promise s₀ [none, some (none, 0), none] s₃ :=
    hrun₂.snoc hpromise (perform_of_step
      (congrArg (Option.map fun s : FALRU => (s, none)) hfill))
  exact ⟨s₀, b, (s₃.blks b).inCachesMask, s₄, hnew, hrun₃.snoc hread₃ (perform_of_step
    (congrArg (Option.map fun r : (Option ℕ × CachesMask) × FALRU => (r.2, some r.1)) haccess'))⟩

/-- The safety of that run. -/
theorem run_safe_sixteen : ∃ s₀ s : FALRU, (∀ b, (s₀.blks b).extractTag = none) ∧ s.check = true ∧
    s.list.Perm (List.range (FALRUParams.numBlocks ⟨1024, 64, 128⟩)) ∧
      s.stats.tagsInUse =
        ((List.range (FALRUParams.numBlocks ⟨1024, 64, 128⟩)).countP
          fun b => (s.blks b).valid : ℕ) ∧
      (∀ o, promise s o → ∃ r, perform s o = .ok r) ∧
      (∀ addr sec, (s.fill addr sec).isSome = true ↔
        (s.blks s.findVictim).extractTag.isSome = true) ∧
      ∀ addr sec, ∃ r, s.findBlock addr sec = some r ∧
        ∀ b, r = some b ↔ b < FALRUParams.numBlocks ⟨1024, 64, 128⟩ ∧ (s.blks b).valid = true ∧
          (s.blks b).key = s.keyOf addr sec := by
  obtain ⟨s₀, b, m, s, hnew, hrun⟩ := exists_run_sixteen
  exact ⟨s₀, s, run_safe sized_sixteen roomy_sixteen hnew hrun⟩

/-- **The counters of all sizes are the same**: each counts the hits of the actual cache. -/
theorem run_counts {p : FALRUParams} (hp : p.Sized) (hroomy : p.Roomy) {s₀ : FALRU}
    (hnew : new p = some s₀) {trace : List (Option (Option ℕ × CachesMask))}
    (hrun : Runs.Run perform promise s₀ trace s) :
    ∀ i ≤ p.numTrackedCaches, s.stats.hits i = countHits trace ∧
      s.stats.misses i = countMisses trace :=
  (run_tagged hp hroomy hnew hrun).2.2

/-- After that run, one hit and one miss for each of the four sizes. -/
theorem run_counts_sixteen : ∃ (s : FALRU) (b : ℕ) (m : CachesMask),
    ∀ i ≤ FALRUParams.numTrackedCaches ⟨1024, 64, 128⟩,
      s.stats.hits i = countHits [none, some (none, 0), none, some (some b, m)] ∧
        s.stats.misses i = countMisses [none, some (none, 0), none, some (some b, m)] := by
  obtain ⟨s₀, b, m, s, hnew, hrun⟩ := exists_run_sixteen
  exact ⟨s, b, m, run_counts sized_sixteen roomy_sixteen hnew hrun⟩

/-! ### The tracked caches -/

/-- A read: an access, and a fill if it misses.  It returns whether it hits, and the mask. -/
def read (a : BitVec 64 × Bool) (s : FALRU) : Option ((Bool × CachesMask) × FALRU) :=
  (s.accessBlock a.1 a.2).bind fun r =>
    if r.1.1.isSome then some ((true, r.1.2), r.2)
    else (r.2.fill a.1 a.2).map fun s => ((false, r.1.2), s)

/-- Reads one after the other. -/
def reads : List (BitVec 64 × Bool) → FALRU → Option (List (Bool × CachesMask) × FALRU)
  | [], s => some ([], s)
  | a :: as, s => (s.read a).bind fun r => (reads as r.2).map fun r' => (r.1 :: r'.1, r'.2)

/-- The blocks hold these keys, in the order of the list; the others are invalid. -/
structure Stacked (s : FALRU) (l : List ℕ) (ks : List TagHashKey) : Prop extends Tagged s l where
  nodup : ks.Nodup
  length_le : ks.length ≤ l.length
  keys : l.map s.keyAt = ks.map some ++ List.replicate (l.length - ks.length) none

variable {ks : List TagHashKey}

/-- The place of a block that holds a key is the place of the key. -/
theorem Stacked.getElem (h : Stacked s l ks) {key : TagHashKey} (hb : b ∈ l)
    (hkey : s.keyAt b = some key) : ∃ hlt : l.idxOf b < ks.length, ks[l.idxOf b] = key := by
  have hidx := List.idxOf_lt_length_of_mem hb
  have hget : (l.map s.keyAt)[l.idxOf b]? = some (some key) := by
    rw [List.getElem?_map, List.getElem?_eq_getElem hidx, List.getElem_idxOf, Option.map_some, hkey]
  rw [h.keys] at hget
  by_cases hlt : l.idxOf b < ks.length
  · refine ⟨hlt, ?_⟩
    rw [List.getElem?_append_left (by rwa [List.length_map]), List.getElem?_map,
      List.getElem?_eq_getElem hlt] at hget
    exact Option.some.inj (Option.some.inj hget)
  · rw [List.getElem?_append_right (by rw [List.length_map]; omega),
      List.getElem?_replicate] at hget
    split at hget
    · cases hget
    · cases hget

/-- The hash table has the keys. -/
theorem Stacked.mem_iff (h : Stacked s l ks) {key : TagHashKey} :
    key ∈ ks ↔ ∃ b, s.tagHash key = some b := by
  constructor
  · intro hkey
    have hmem : some key ∈ l.map s.keyAt := by
      rw [h.keys]
      exact List.mem_append_left _ (List.mem_map_of_mem hkey)
    obtain ⟨b, hb, heq⟩ := List.mem_map.1 hmem
    exact ⟨b, h.hash_iff.2 ⟨hb, heq⟩⟩
  · rintro ⟨b, hb⟩
    obtain ⟨hb, hkey⟩ := h.hash_iff.1 hb
    obtain ⟨hlt, hget⟩ := h.getElem hb hkey
    exact hget ▸ List.getElem_mem hlt

/-- After a move to the front. -/
theorem Stacked.keys_hit (h : Stacked s l ks) {key : TagHashKey} (hb : b ∈ l)
    (hkey : s.keyAt b = some key) :
    (b :: l.erase b).map s.keyAt =
      (key :: ks.erase key).map some ++ List.replicate (l.length - ks.length) none := by
  obtain ⟨hlt, hget⟩ := h.getElem hb hkey
  have hidx : ks.idxOf key = l.idxOf b := by
    rw [← hget]
    exact h.nodup.idxOf_getElem _ hlt
  have herase : ks.erase key = ks.eraseIdx (l.idxOf b) := List.erase_eq_eraseIdx_of_idxOf hidx
  rw [List.map_cons, List.map_cons, hkey, List.cons_append, herase,
    List.erase_eq_eraseIdx_of_idxOf (rfl : l.idxOf b = l.idxOf b), ← List.eraseIdx_map, h.keys,
    List.eraseIdx_append_of_lt_length (by rwa [List.length_map]), List.eraseIdx_map]

/-- **A read**: it hits if the key is there, the mask tells in which of the tracked caches, and the
blocks hold what a least recently used cache would. -/
theorem Stacked.read (h : Stacked s l ks) {addr : BitVec 64} (sec : Bool)
    (hext : s.Extracts s.links.tail addr) :
    ∃ obs s' l', s.read (addr, sec) = some (obs, s') ∧ s'.params = s.params ∧
      (∀ x, (s'.blks x).extractTag = (s.blks x).extractTag) ∧
      obs.1 = decide (s.keyOf addr sec ∈ ks) ∧
      (∀ i < s.params.numTrackedCaches,
        obs.2.getLsbD i = decide (s.keyOf addr sec ∈ ks.take (s.params.capacity i))) ∧
      Stacked s' l' (LruStack.access s.params.numBlocks (s.keyOf addr sec) ks) := by
  have hK := h.sized.numTrackedCaches_lt
  have hlength := h.length
  rcases h.accessBlock addr sec with ⟨hnone, haccess⟩ | ⟨b, s', hhash, hb, hkeeps, htidy, haccess⟩
  · -- a miss: the last block gets the key
    have hmiss : s.keyOf addr sec ∉ ks := by
      intro hmem
      obtain ⟨b, hb⟩ := h.mem_iff.1 hmem
      rw [hnone] at hb
      cases hb
    obtain ⟨s', hs', htagged, hcounts, hkeyAt⟩ :=
      (h.toTagged.recordAccess none).fill sec hnone hext
    have hread : s.read (addr, sec) = some ((false, 0), s') := by
      unfold FALRU.read
      rw [haccess, Option.bind_some, if_neg (by simp), hs']
      rfl
    refine ⟨_, s', s.links.tail :: l.erase s.links.tail, hread, hcounts.params,
      hcounts.extractTag, (decide_eq_false hmiss).symm, fun i _ => ?_, ?_⟩
    · have hzero : (0 : CachesMask).getLsbD i = false := BitVec.getLsbD_zero
      rw [hzero, eq_comm, decide_eq_false_iff_not]
      exact fun hmem => hmiss (List.mem_of_mem_take hmem)
    · have htail : l.getLast? = some s.links.tail := h.orders.tail
      obtain ⟨l', hl'⟩ := List.getLast?_eq_some_iff.1 htail
      have hpos : 0 < l.length := by
        rw [hl', List.length_append]
        exact Nat.succ_pos _
      have hnot : s.links.tail ∉ l' := fun hmem =>
        (List.nodup_append'.1 (hl' ▸ h.orders.nodup)).2.2 hmem (List.mem_singleton_self _)
      have herase : l.erase s.links.tail = l' := by
        rw [hl', List.erase_append_right _ hnot, List.erase_cons_head, List.append_nil]
      have hmap : (l.erase s.links.tail).map s'.keyAt = (l.map s.keyAt).take (l.length - 1) := by
        have hsame : l'.map s'.keyAt = l'.map s.keyAt := by
          refine List.map_congr_left fun x hx => ?_
          rw [hkeyAt]
          exact Function.update_of_ne (ne_of_mem_of_not_mem hx hnot) _ _
        have hlen : l'.length = (l' ++ [s.links.tail]).length - 1 := by
          rw [List.length_append, List.length_singleton, Nat.add_sub_cancel]
        rw [herase, hsame, ← List.map_take, hl', ← hlen, List.take_left]
      have hlen : (s.links.tail :: l.erase s.links.tail).length = l.length := by
        rw [herase, hl', List.length_append, List.length_cons, List.length_singleton]
      have hself : s'.keyAt s.links.tail = some (s.keyOf addr sec) := by
        rw [hkeyAt]
        exact Function.update_self _ _ _
      have haccess' : LruStack.access s.params.numBlocks (s.keyOf addr sec) ks =
          s.keyOf addr sec :: ks.take (l.length - 1) := by
        rw [LruStack.access_of_not_mem hmiss (by omega), hlength]
      refine ⟨htagged, LruStack.nodup_access h.nodup _ _, ?_, ?_⟩
      · rw [hlen, hlength]
        exact List.length_take_le _ _
      · have hc := h.length_le
        rw [hlen, List.map_cons, hself, hmap, h.keys, haccess', List.take_append, List.length_map,
          List.take_replicate, ← List.map_take, List.map_cons, List.cons_append, List.length_cons,
          List.length_take]
        congr 3
        omega
  · -- a hit: the block moves to the front, and so does the key
    obtain ⟨-, hkey⟩ := h.hash_iff.1 hhash
    have hmem := h.mem_iff.2 ⟨b, hhash⟩
    obtain ⟨hlt, hget⟩ := h.getElem hb hkey
    have hread : s.read (addr, sec) =
        some ((true, (s.blks b).inCachesMask), s'.recordAccess (some b)) := by
      unfold FALRU.read
      rw [haccess]
      rfl
    have hperm := List.perm_cons_erase hb
    have htagged := (h.toTagged.of_keeps hkeeps htidy hperm.symm).recordAccess (some b)
    refine ⟨_, s'.recordAccess (some b), b :: l.erase b, hread, hkeeps.params, hkeeps.extractTag,
      (decide_eq_true hmem).symm, fun i hi => ?_, htagged, ?_, ?_, ?_⟩
    · have hplace : s.keyOf addr sec ∈ ks.take (s.params.capacity i) ↔
          l.idxOf b < s.params.capacity i := by
        rw [List.mem_take_iff_getElem]
        constructor
        · rintro ⟨j, hj, hjget⟩
          rw [← hget, h.nodup.getElem_inj_iff] at hjget
          omega
        · intro hlt'
          exact ⟨l.idxOf b, by omega, hget⟩
      rw [h.mask b hb i (by omega), decide_eq_decide, hplace]
      exact and_iff_right hi
    · exact LruStack.nodup_access h.nodup _ _
    · rw [← hperm.length_eq, hlength]
      exact List.length_take_le _ _
    · have hle : ks.length ≤ s.params.numBlocks := hlength ▸ h.length_le
      have haccess' := LruStack.access_of_mem hle hmem
      have hpos := List.length_pos_of_mem hmem
      change (b :: l.erase b).map s'.keyAt = _
      rw [hkeeps.keyAt, h.keys_hit hb hkey, haccess', ← hperm.length_eq, List.length_cons,
        List.length_erase_of_mem hmem, Nat.sub_add_cancel hpos]

theorem Stacked.reads (h : Stacked s l ks) {as : List (BitVec 64 × Bool)}
    (hext : ∀ a ∈ as, ∀ b < s.params.numBlocks, s.Extracts b a.1) :
    ∃ obs s', reads as s = some (obs, s') ∧
      obs.map Prod.fst =
        LruStack.hitsFrom s.params.numBlocks ks (as.map fun a => s.keyOf a.1 a.2) ∧
      ∀ i < s.params.numTrackedCaches, (obs.map fun o => o.2.getLsbD i) =
        LruStack.hitsFrom (s.params.capacity i) (ks.take (s.params.capacity i))
          (as.map fun a => s.keyOf a.1 a.2) := by
  induction as generalizing s l ks with
  | nil => exact ⟨[], s, rfl, rfl, fun i _ => rfl⟩
  | cons a as ih =>
      have htail := (h.mem s.links.tail).1 (List.mem_of_getLast? h.orders.tail)
      obtain ⟨obs, s₁, l₁, hread, hparams, hexts, hhit, hmask, hstacked⟩ :=
        h.read a.2 (hext a List.mem_cons_self _ htail)
      have hext₁ : ∀ a ∈ as, ∀ b < s₁.params.numBlocks, s₁.Extracts b a.1 := by
        intro a ha b hb
        rw [hparams] at hb
        exact (hext a (List.mem_cons_of_mem _ ha) b hb).of_eq hparams (hexts b)
      obtain ⟨obs', s₂, hreads, hhits, hmasks⟩ := ih hstacked hext₁
      have hkeyOf : (fun a : BitVec 64 × Bool => s₁.keyOf a.1 a.2) = fun a => s.keyOf a.1 a.2 := by
        funext a
        unfold FALRU.keyOf FALRU.extractTag
        rw [hparams]
      rw [hparams, hkeyOf] at hhits hmasks
      refine ⟨obs :: obs', s₂, ?_, ?_, fun i hi => ?_⟩
      · rw [FALRU.reads, hread, Option.bind_some, hreads]
        rfl
      · rw [List.map_cons, List.map_cons, LruStack.hitsFrom, hhit, hhits]
      · have hle := (h.sized.capacity_lt hi).le
        rw [List.map_cons, List.map_cons, LruStack.hitsFrom, hmask i hi, hmasks i hi,
          LruStack.take_access hle]

/-- **The tracked caches**: with a callback for every block that gives the tags of the addresses,
in every sequence of reads the tag store hits where a fully associative cache of its size that
replaces the least recently used block does, and each bit of the mask tells what such a cache of
the tracked size does. -/
theorem reads_hits {p : FALRUParams} (hp : p.Sized) (hroomy : p.Roomy) {s₀ : FALRU}
    (hnew : new p = some s₀) (exts : List (ℕ × TagExtractor)) (as : List (BitVec 64 × Bool))
    (hext : ∀ a ∈ as, ∀ b < p.numBlocks, (s₀.registerAll exts).Extracts b a.1) :
    ∃ obs s, reads as (s₀.registerAll exts) = some (obs, s) ∧
      obs.map Prod.fst = LruStack.hits p.numBlocks (as.map fun a => s₀.keyOf a.1 a.2) ∧
      ∀ i < p.numTrackedCaches, (obs.map fun o => o.2.getLsbD i) =
        LruStack.hits (p.capacity i) (as.map fun a => s₀.keyOf a.1 a.2) := by
  obtain ⟨hparams, htidy, hfresh⟩ := registered_new hp hnew exts
  have hkeyOf : ∀ addr sec, (s₀.registerAll exts).keyOf addr sec = s₀.keyOf addr sec := by
    intro addr sec
    unfold FALRU.keyOf FALRU.extractTag
    rw [registerAll_params]
  generalize s₀.registerAll exts = s at hparams htidy hfresh hkeyOf hext ⊢
  have hempty : Stacked s (List.range p.numBlocks) [] := by
    refine ⟨htidy.tagged (hparams.symm ▸ hroomy) hfresh, List.nodup_nil, Nat.zero_le _, ?_⟩
    have hnone : s.keyAt = fun _ => none := by
      funext b
      unfold FALRU.keyAt
      rw [hfresh.valid]
      rfl
    rw [hnone, List.map_const']
    rfl
  obtain ⟨obs, s', hreads, hhits, hmasks⟩ := hempty.reads (hparams.symm ▸ hext)
  simp only [hparams, hkeyOf] at hhits hmasks
  refine ⟨obs, s', hreads, hhits, fun i hi => ?_⟩
  rw [hmasks i hi, List.take_nil]
  rfl

/-- Four reads of two blocks, the last one of a block that the smallest tracked cache still has.
The callbacks are the identity, which gives the tag of every address that is aligned. -/
theorem reads_hits_sixteen : ∃ s₀, new ⟨1024, 64, 128⟩ = some s₀ ∧ ∃ obs s,
    reads [(0, false), (64, false), (0, false), (64, false)]
        (s₀.registerAll ((List.range 16).map fun b => (b, id))) = some (obs, s) ∧
      obs.map Prod.fst = LruStack.hits (FALRUParams.numBlocks ⟨1024, 64, 128⟩)
        ([(0, false), (64, false), (0, false), (64, false)].map fun a => s₀.keyOf a.1 a.2) ∧
      ∀ i < FALRUParams.numTrackedCaches ⟨1024, 64, 128⟩, (obs.map fun o => o.2.getLsbD i) =
        LruStack.hits (FALRUParams.capacity ⟨1024, 64, 128⟩ i)
          ([(0, false), (64, false), (0, false), (64, false)].map fun a => s₀.keyOf a.1 a.2) := by
  obtain ⟨s₀, hnew, hparams, -⟩ := exists_new sized_sixteen
  refine ⟨s₀, hnew, reads_hits sized_sixteen roomy_sixteen hnew _ _ fun a ha b hb => ?_⟩
  unfold FALRU.Extracts FALRU.extractTag
  rw [registerAll_const, if_pos (List.mem_range.2 (show b < 16 from hb)),
    registerAll_params, hparams]
  simp only [List.mem_cons, List.not_mem_nil, or_false] at ha
  rcases ha with rfl | rfl | rfl | rfl <;> decide

/-! ### A tracked cache of a single block -/

/-- A block that is not in the smallest tracked cache cannot be moved to the head once the boundary
of this cache is the null pointer. -/
theorem moveToHead_eq_none (hK : 0 < s.params.numTrackedCaches)
    (hK' : s.params.numTrackedCaches < 32)
    (hboundary : s.boundaries 0 = none) (hmask : (s.blks b).inCachesMask = 0)
    (hne : b ≠ s.links.head) : s.moveToHead b = none := by
  obtain ⟨k, hk⟩ : ∃ k, s.params.numTrackedCaches = k + 1 := ⟨_, (Nat.sub_add_cancel hK).symm⟩
  have hupdate : bit 0 &&& (s.params.inAllCachesMask ^^^ (s.blks b).inCachesMask) ≠ 0 := by
    have hzero : (0 : CachesMask).getLsbD 0 = false := BitVec.getLsbD_zero
    rw [bit_and_ne_zero (by omega), BitVec.getLsbD_xor, getLsbD_inAllCachesMask hK', hmask, hzero,
      decide_eq_true hK]
    rfl
  have hstep : headStep b (s.params.inAllCachesMask ^^^ (s.blks b).inCachesMask) s 0 = none := by
    unfold headStep
    rw [if_pos hupdate, hboundary]
    rfl
  unfold FALRU.moveToHead FALRU.moveBlockToHead
  simp only [if_pos hne, hk, List.range_succ_eq_map, List.foldlM_cons, hstep, Option.bind_eq_bind,
    Option.bind_none, Option.map_none]

/-- What a fill of an invalid last block does. -/
theorem fill_of_invalid (addr : BitVec 64) (sec : Bool)
    (hvalid : (s.blks s.links.tail).valid = false) (hmask : (s.blks s.links.tail).inCachesMask = 0)
    (hext : (s.blks s.links.tail).extractTag.isSome = true) :
    ∃ blk : FALRUBlk, blk.inCachesMask = (s.blks s.links.tail).inCachesMask ∧
      blk.extractTag = (s.blks s.links.tail).extractTag ∧ ∃ key stats,
      s.fill addr sec =
        (moveToHead s.links.tail { s with
          blks := Function.update s.blks s.links.tail blk
          stats := stats }).map fun s' =>
            { s' with tagHash := Function.update s'.tagHash key (some s.links.tail) } := by
  obtain ⟨ext, hext⟩ := Option.isSome_iff_exists.1 hext
  refine ⟨{ s.blks s.links.tail with
    valid := true
    tag := ext addr
    secure := sec || (s.blks s.links.tail).secure }, rfl, rfl,
    ⟨ext addr, sec || (s.blks s.links.tail).secure⟩,
    { s.stats with tagsInUse := s.stats.tagsInUse + 1 }, ?_⟩
  unfold FALRU.fill FALRU.evict FALRU.findVictim
  simp only [hvalid, Bool.false_eq_true, if_false, Option.bind_eq_bind, Option.bind_some]
  rw [FALRU.insertBlock, if_pos hmask, FALRUBlk.insert, hext, Option.bind_some, if_pos hvalid,
    Option.bind_some]
  rfl

/-- A fill of an invalid block that is not at the head, with a null pointer for a boundary. -/
theorem fill_eq_none (hK : 0 < s.params.numTrackedCaches) (hK' : s.params.numTrackedCaches < 32)
    (hboundary : s.boundaries 0 = none) (hvalid : (s.blks s.links.tail).valid = false)
    (hmask : (s.blks s.links.tail).inCachesMask = 0) (hne : s.links.tail ≠ s.links.head)
    (hext : (s.blks s.links.tail).extractTag.isSome = true) (addr : BitVec 64) (sec : Bool) :
    s.fill addr sec = none := by
  obtain ⟨blk, hblk, -, key, stats, hfill⟩ := fill_of_invalid addr sec hvalid hmask hext
  have hmove : moveToHead s.links.tail { s with
      blks := Function.update s.blks s.links.tail blk
      stats := stats } = none :=
    moveToHead_eq_none hK hK' hboundary ((update_mask hblk _).trans hmask) hne
  rw [hfill, hmove]
  rfl

/-- The last block of an order is another one after it was moved to the front. -/
theorem tail_ne_of_orders {k : Links ℕ} (h : k.Orders (b :: l.erase b)) (hlength : 2 ≤ l.length)
    (hb : b ∈ l) : k.tail ≠ b := by
  have hrest : l.erase b ≠ [] := by
    intro hnil
    have := List.length_erase_of_mem hb
    rw [hnil, List.length_nil] at this
    omega
  have hlast := h.tail
  rw [List.getLast?_cons, List.getLast?_eq_some_getLast hrest] at hlast
  rw [← Option.some.inj hlast]
  exact ne_of_mem_of_not_mem (List.getLast_mem hrest) (List.nodup_cons.1 h.nodup).1

/-- The first fill, with a tracked cache of a single block: the boundary of this cache is then the
null pointer. -/
theorem Tidy.first_fill (h : Tidy s l) (hfresh : Fresh s) (hone : s.params.capacity 0 = 1)
    (hK : 0 < s.params.numTrackedCaches) (hext : (s.blks s.links.tail).extractTag.isSome = true)
    (addr : BitVec 64) (sec : Bool) :
    ∃ s', s.fill addr sec = some s' ∧ s'.params = s.params ∧
      (∀ x, (s'.blks x).extractTag = (s.blks x).extractTag) ∧ s'.links.tail ∈ l ∧
      s'.boundaries 0 = none ∧
      (s'.blks s'.links.tail).valid = false ∧ (s'.blks s'.links.tail).inCachesMask = 0 ∧
        s'.links.tail ≠ s'.links.head := by
  have hN : 2 ≤ l.length := h.length ▸ h.sized.two_le_numBlocks
  have hb : s.links.tail ∈ l := List.mem_of_getLast? h.orders.tail
  obtain ⟨blk, hblk, hblkext, key, stats, hfill⟩ :=
    fill_of_invalid addr sec (hfresh.valid _) h.mask_tail hext
  have htidy₁ : Tidy { s with blks := Function.update s.blks s.links.tail blk, stats := stats } l :=
    h.congr rfl rfl rfl (update_mask hblk)
  have hhead : s.links.tail ≠ s.links.head := by
    have hlast := h.orders.tail
    have hfirst := h.orders.head
    rw [List.getLast?_eq_getElem?, List.getElem?_eq_getElem (by omega)] at hlast
    rw [List.head?_eq_getElem?, List.getElem?_eq_getElem (by omega)] at hfirst
    rw [← Option.some.inj hlast, ← Option.some.inj hfirst, Ne, h.orders.nodup.getElem_inj_iff]
    omega
  obtain ⟨s₂, hs₂, hkeeps, horders, hboundaries, hmasks⟩ := htidy₁.moveToHead_of_ne hb hhead
  have hne : s₂.links.tail ≠ s.links.tail := tail_ne_of_orders horders hN hb
  refine ⟨_, hfill.trans (congrArg (Option.map _) hs₂), hkeeps.params, fun x => ?_,
    (mem_cons_erase hb _).1 (List.mem_of_getLast? horders.tail), ?_, ?_, ?_, ?_⟩
  · refine (hkeeps.extractTag x).trans ?_
    change (Function.update s.blks s.links.tail blk x).extractTag = _
    by_cases hx : x = s.links.tail
    · rw [hx, Function.update_self, hblkext]
    · rw [Function.update_of_ne hx]
  · exact (hboundaries 0 hK).trans (if_pos hone)
  · refine (hkeeps.valid _).trans ?_
    change (Function.update s.blks s.links.tail blk s₂.links.tail).valid = false
    rw [Function.update_of_ne hne]
    exact hfresh.valid _
  · -- with the right boundaries, the state after the move is tidy
    have htidy₂ : Tidy { s₂ with
        boundaries := fun i => (s.links.tail :: l.erase s.links.tail)[s₂.params.capacity i - 1]? }
        (s.links.tail :: l.erase s.links.tail) := by
      refine ⟨hkeeps.params.symm ▸ h.sized, horders, fun x => ?_, fun x hx i hi => ?_,
        fun i _ => rfl⟩
      · change _ ↔ x < s₂.params.numBlocks
        rw [mem_cons_erase hb, hkeeps.params]
        exact h.mem x
      · change s₂.inCache x i = decide (i < s₂.params.numTrackedCaches ∧ _ < s₂.params.capacity i)
        rw [hkeeps.params]
        exact hmasks x ((mem_cons_erase hb x).1 hx) i hi
    exact htidy₂.mask_tail
  · exact Option.some.inj horders.head ▸ hne

/-- **With a tracked cache of a single block** the first fill leaves the null pointer as the
boundary of this cache, and the second one dereferences it, whatever callbacks the blocks have. -/
theorem fill_fill_eq_none {p : FALRUParams} (hp : p.Sized) (hone : p.capacity 0 = 1)
    (hK : 0 < p.numTrackedCaches) {s₀ : FALRU} (hnew : new p = some s₀)
    (exts : List (ℕ × TagExtractor))
    (hext : ∀ b < p.numBlocks, ((s₀.registerAll exts).blks b).extractTag.isSome = true)
    (a₁ a₂ : BitVec 64 × Bool) :
    ∃ s, (s₀.registerAll exts).fill a₁.1 a₁.2 = some s ∧ s.boundaries 0 = none ∧
      (s.blks s.findVictim).extractTag.isSome = true ∧ s.fill a₂.1 a₂.2 = none := by
  obtain ⟨hparams, htidy, hfresh⟩ := registered_new hp hnew exts
  generalize s₀.registerAll exts = s at hparams htidy hfresh hext
  subst hparams
  have hexts : ∀ b ∈ List.range s.params.numBlocks, (s.blks b).extractTag.isSome = true :=
    fun b hb => hext b (List.mem_range.1 hb)
  obtain ⟨s', hfill, hparams, hexts', htail, hboundary, hvalid, hmask, hne⟩ :=
    htidy.first_fill hfresh
    hone hK (hexts _ (List.mem_of_getLast? htidy.orders.tail)) a₁.1 a₁.2
  have hext' : (s'.blks s'.links.tail).extractTag.isSome = true := by
    rw [hexts']
    exact hexts _ htail
  rw [← hparams] at hK
  exact ⟨s', hfill, hboundary, hext', fill_eq_none hK (hparams ▸ htidy.sized.numTrackedCaches_lt)
    hboundary hvalid hmask hne hext' _ _⟩

/-- Four blocks, with a tracked cache of one block and one of two. -/
theorem fill_fill_eq_none_four : ∃ s₀ s, new ⟨256, 64, 64⟩ = some s₀ ∧
    (s₀.registerAll ((List.range 4).map fun b => (b, id))).fill 0 false = some s ∧
      s.boundaries 0 = none ∧ (s.blks s.findVictim).extractTag.isSome = true ∧
        s.fill 64 false = none := by
  have hsized : FALRUParams.Sized ⟨256, 64, 64⟩ :=
    ⟨⟨6, rfl⟩, ⟨8, rfl⟩, by decide, by decide, by decide, by decide⟩
  obtain ⟨s₀, hnew, -⟩ := exists_new hsized
  obtain ⟨s, hfills⟩ := fill_fill_eq_none hsized (by decide) (by decide) hnew
    ((List.range 4).map fun b => (b, id)) (fun b hb => by
      rw [registerAll_const, if_pos (List.mem_range.2 (show b < 4 from hb))]
      rfl) (0, false) (64, false)
  exact ⟨s₀, s, hnew, hfills⟩

end FALRU

end OpenCache
