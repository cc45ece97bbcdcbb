/-
Coherence of the sector cache that fetches on reads.

The bytes of a cache are spread over its lines, the requests in its miss queue, the fetches under
way and the lower level.  They agree with the last accepted writes if every byte that is dirty,
or that a read would hit, is the one last written; if the lower level will hold it when the queue
is empty, unless a line of a write-back cache covers it; and if a fetch under way brings it, for
the bytes that its fill will set.  The last is why writes may land on a sector that is being
fetched: the fetch does not see them, but the fill leaves dirty bytes alone, and restores the
state `MODIFIED`.

* `OpenCache.Coherent` — the agreement;
* `OpenCache.LazyAccess.coherent`, `OpenCache.Coherent.complete` — an access and a fill keep it;
* `OpenCache.coherent_of_run` — it holds after every run;
* `OpenCache.lazy_cache_coherent` — **reads that hit see the last writes, and no byte is lost**.
-/

import OpenCache.Contents

set_option relaxedAutoImplicit false
set_option autoImplicit false

namespace OpenCache

variable {cfg : CacheConfig} {V : Type*}

/-! ### The invariant -/

/-- **The bytes of the cache agree with the last writes**: bytes that a read would hit, and dirty
bytes, are those of the last write; what the lower level will hold is too, unless a line of a
write-back cache covers the byte; and a fetch under way brings the last write to every byte of its
sector that it will set. -/
structure Coherent (s : Core cfg) (h : Contents V) : Prop where
  aligned : ∀ i, cfg.blockAddr (s.lines i).tag = (s.lines i).tag
  hits : ∀ i x, (s.lines i).matchStatus (byteSector x) false = some .hit →
    h.lines i x = h.latest (s.lines i).tag x
  dirty : ∀ i, ∀ x ∈ (s.lines i).dirtyByteMask, (s.lines i).getStatus (byteSector x) ≠ .invalid ∧
    h.lines i x = h.latest (s.lines i).tag x
  backed : ∀ a x, h.drained s a x = h.latest a x ∨
    cfg.writePolicy = .writeBack ∧ ∃ i, (s.lines i).tag = a ∧ (s.lines i).Keeps x False
  fetched : ∀ t e, s.extra.lookup t = some e → ∀ x,
    cfg.SameSector (cfg.sectorIndex (s.mfs t).accessSectorMask) (byteSector x) →
      x ∉ (s.lines e.cacheIndex).dirtyByteMask →
        h.response s t x = h.latest (cfg.blockAddr e.blockAddr) x
  awaits : ∀ t e, s.extra.lookup t = some e →
    (s.lines e.cacheIndex).Awaits (cfg.sectorIndex (s.mfs t).accessSectorMask)
  masks : ∀ t e, s.extra.lookup t = some e → ∀ x ∈ (s.mfs t).accessByteMask,
    cfg.SameSector (cfg.sectorIndex (s.mfs t).accessSectorMask) (byteSector x)

namespace LazyAccess

variable {c : Cache cfg} {types : DataCacheTypes} {mf : Token} {p : ProbeResult}
  {b : CacheBlock cfg.cacheType} {sends : Bool} {s' : Core cfg} {h : Contents V}
  {bytes : Fin 128 → V} {i : ℕ} {x : Fin 128}

/-- The other lines hold the last writes that they held. -/
theorem value_other (hacc : LazyAccess c types mf p b sends s') (hhoused : Housed c.core)
    (hi : i ≠ p.idx) {j : Fin 4} (hlive : (c.core.lines i).getStatus j ≠ .invalid)
    (hx : h.lines i x = h.latest (c.core.lines i).tag x) :
    (h.afterAccess c bytes mf p s').lines i x =
      (h.afterAccess c bytes mf p s').latest (c.core.lines i).tag x := by
  simp only [Contents.afterAccess, Contents.accessed]
  rw [if_neg fun hw => hi hw.2.1, if_neg fun hw => hacc.other hhoused hi hlive hw.2.1]
  exact hx

/-- The line of the access holds the bytes of the write, and what it held of its block. -/
theorem value_own (hacc : LazyAccess c types mf p b sends s')
    (hx : (c.mfs mf).isWrite = true ∧ x ∈ (c.mfs mf).accessByteMask ∨
      p.status ≠ .miss ∧ h.lines p.idx x = h.latest (c.core.lines p.idx).tag x) :
    (h.afterAccess c bytes mf p s').lines p.idx x =
      (h.afterAccess c bytes mf p s').latest b.tag x := by
  simp only [Contents.afterAccess, Contents.accessed, hacc.tag, true_and]
  split
  · rfl
  · next hw =>
      obtain ⟨hmiss, hold⟩ := hx.resolve_left hw
      rwa [hacc.found hmiss] at hold

section Coherent

variable {a : NewAddrType}

theorem hits (hacc : LazyAccess c types mf p b sends s') (hco : Coherent c.core h)
    (hhoused : Housed c.core)
    (hhit : (s'.lines i).matchStatus (byteSector x) false = some .hit) :
    (h.afterAccess c bytes mf p s').lines i x =
      (h.afterAccess c bytes mf p s').latest (s'.lines i).tag x := by
  by_cases hi : i = p.idx
  · subst hi
    rw [hacc.lines, Function.update_self] at hhit ⊢
    rcases hacc.line.hit x hhit with hdirty | ⟨hmiss, hold⟩
    · exact hacc.value_own ((hacc.dirty_cases hdirty).imp id fun hd =>
        ⟨hd.1, (hco.dirty _ x hd.2).2⟩)
    · exact hacc.value_own (Or.inr ⟨hmiss, hco.hits _ x hold⟩)
  · rw [hacc.lines, Function.update_of_ne hi] at hhit ⊢
    refine hacc.value_other hhoused hi (j := byteSector x) ?_ (hco.hits i x hhit)
    rw [CacheBlock.matchStatus_eq_hit] at hhit
    rcases hhit with hs | ⟨hs, -⟩ <;> simp [hs]

theorem dirty (hacc : LazyAccess c types mf p b sends s') (hco : Coherent c.core h)
    (hhoused : Housed c.core) (hx : x ∈ (s'.lines i).dirtyByteMask) :
    (s'.lines i).getStatus (byteSector x) ≠ .invalid ∧
      (h.afterAccess c bytes mf p s').lines i x =
        (h.afterAccess c bytes mf p s').latest (s'.lines i).tag x := by
  by_cases hi : i = p.idx
  · subst hi
    rw [hacc.lines, Function.update_self] at hx ⊢
    have hcases := hacc.dirty_cases hx
    refine ⟨?_, hacc.value_own (hcases.imp id fun hd => ⟨hd.1, (hco.dirty _ x hd.2).2⟩)⟩
    rcases hcases with ⟨hwrite, hbyte⟩ | ⟨hmiss, hold⟩
    · simp [(hacc.modified_of_written hwrite hbyte).1]
    · exact hacc.line.live hmiss _ (hco.dirty _ x hold).1
  · rw [hacc.lines, Function.update_of_ne hi] at hx ⊢
    obtain ⟨hlive, hold⟩ := hco.dirty i x hx
    exact ⟨hlive, hacc.value_other hhoused hi hlive hold⟩

/-- **No byte is lost.**  A write is in the line, or on its way down; and what the victim covers
goes into its write-back. -/
theorem backed (hacc : LazyAccess c types mf p b sends s') (hco : Coherent c.core h)
    (hlazy : cfg.Lazy) (htagged : Tagged c.core) :
    (h.afterAccess c bytes mf p s').drained s' a x = (h.afterAccess c bytes mf p s').latest a x ∨
      cfg.writePolicy = .writeBack ∧ ∃ i, (s'.lines i).tag = a ∧ (s'.lines i).Keeps x False := by
  rw [Contents.drained_access hlazy hacc.queue hacc.caller hacc.unqueued
    hacc.uncreated hacc.inSector
    htagged (hco.aligned p.idx)]
  by_cases hw : (c.mfs mf).isWrite = true ∧ a = cfg.blockAddr (c.mfs mf).addr ∧
      x ∈ (c.mfs mf).accessByteMask
  · rcases hlazy.policy with hback | hthrough
    · refine Or.inr ⟨hback, p.idx, ?_, ?_⟩
      · rw [hacc.lines, Function.update_self, hacc.tag, hw.2.1]
      · rw [hacc.lines, Function.update_self]
        exact Or.inl (hacc.modified_of_written hw.1 hw.2.2)
    · left
      have hnone : ¬Contents.WritesBack cfg p (c.core.lines p.idx) a x := by
        simp [Contents.WritesBack, hthrough]
      rw [if_neg hnone, if_pos ⟨hw.1, hthrough, hw.2⟩]
      exact (if_pos hw).symm
  · have hlatest : (h.afterAccess c bytes mf p s').latest a x = h.latest a x := if_neg hw
    rw [hlatest]
    rcases hco.backed a x with hold | ⟨hback, i, htag, hkeeps⟩
    · left
      split
      · next hwb =>
          obtain ⟨-, -, htag, -, hdirty⟩ := hwb
          rw [(hco.dirty _ x hdirty).2, htag]
      · rw [if_neg fun hsent => hw ⟨hsent.1, hsent.2.2⟩]
        exact hold
    · by_cases hi : i = p.idx
      · subst hi
        by_cases hmiss : p.status = .miss
        · left
          -- a victim has no reserved sector
          have hmodified : (c.core.lines p.idx).getStatus (byteSector x) = .modified := by
            rcases hkeeps with ⟨hs, -⟩ | ⟨hs, -⟩
            · exact hs
            · exact absurd hs (TagArray.getStatus_of_miss hacc.probes hmiss _)
          rw [if_pos ⟨hback, hmiss, htag, hmodified, hkeeps.mem_dirty⟩,
            (hco.dirty _ x hkeeps.mem_dirty).2, htag]
        · refine Or.inr ⟨hback, p.idx, ?_, ?_⟩
          · rw [hacc.lines, Function.update_self, hacc.tag, ← hacc.found hmiss]
            exact htag
          · rw [hacc.lines, Function.update_self]
            exact hacc.line.keeps hmiss x hkeeps
      · refine Or.inr ⟨hback, i, ?_⟩
        rw [hacc.lines, Function.update_of_ne hi]
        exact ⟨htag, hkeeps⟩

/-- **What a fetch brings is up to date** in the bytes that are not dirty: a write that it does not
see makes its bytes dirty, and a new fetch sees all that the line does not cover. -/
theorem fetched (hacc : LazyAccess c types mf p b sends s') (hco : Coherent c.core h)
    (hcfg : cfg.Checked) (hhoused : Housed c.core) (hanchored : Anchored c.core)
    (hspares : p.status = .miss → ∀ t e, c.core.extra.lookup t = some e → e.cacheIndex ≠ p.idx)
    (haddr : ∀ t e, s'.extra.lookup t = some e → (s'.mfs t).addr = e.blockAddr) {t : Token}
    {e : ExtraMfFields} (he : s'.extra.lookup t = some e)
    (hsame : cfg.SameSector (cfg.sectorIndex (s'.mfs t).accessSectorMask) (byteSector x))
    (hx : x ∉ (s'.lines e.cacheIndex).dirtyByteMask) :
    (h.afterAccess c bytes mf p s').response s' t x =
      (h.afterAccess c bytes mf p s').latest (cfg.blockAddr e.blockAddr) x := by
  rcases hacc.fetches t e he with
    ⟨hold, hmasks, hne, hcreated⟩ | ⟨rfl, hread, hqueued, hmasks, hidx, hblock, -⟩
  · rw [Contents.response_access hacc.queue hacc.unqueued hacc.uncreated hne hcreated]
    rw [hmasks.sectors] at hsame
    have hlive := hanchored.sector t e hold
    have htag := (hanchored.tenant t e hold).1
    -- the fetch is for the line of the write, if it is for its block
    have hwrite : ¬((c.mfs mf).isWrite = true ∧
        cfg.blockAddr e.blockAddr = cfg.blockAddr (c.mfs mf).addr ∧
          x ∈ (c.mfs mf).accessByteMask) := by
      rintro ⟨hwrite, hblock, hbyte⟩
      have hi : e.cacheIndex = p.idx := by
        by_contra hi
        exact hacc.other hhoused hi hlive (htag.trans hblock)
      rw [hacc.lines, hi, Function.update_self] at hx
      exact hx (hacc.modified_of_written hwrite hbyte).2
    have hclean : x ∉ (c.core.lines e.cacheIndex).dirtyByteMask := by
      by_cases hi : e.cacheIndex = p.idx
      · rw [hacc.lines, hi, Function.update_self] at hx
        rw [hi]
        exact fun hdirty => hx (hacc.dirty_subset (fun hmiss => hspares hmiss t e hold hi) hdirty)
      · rwa [hacc.lines, Function.update_of_ne hi] at hx
    rw [hco.fetched t e hold x hsame hclean]
    exact (if_neg hwrite).symm
  · rw [Contents.response_launched hacc.queue hacc.caller hacc.unqueued hacc.uncreated hqueued,
      haddr t e he, hblock, hcfg.blockAddr_mshrAddr]
    have hlatest : (h.afterAccess c bytes t p s').latest (cfg.blockAddr (c.mfs t).addr) x =
          h.latest (cfg.blockAddr (c.mfs t).addr) x := if_neg fun hw => by simp [hread] at hw
    rw [hlatest]
    refine (hco.backed _ x).resolve_right ?_
    rintro ⟨-, i, htag, hkeeps⟩
    -- a line that covers the byte would be the one that the access has found
    obtain ⟨rfl, hs⟩ := hhoused.finds hacc.probes
      (CacheBlock.isInvalidLine_of_getStatus _ hkeeps.ne_invalid) htag
    rw [hacc.lines, hidx, Function.update_self] at hx
    exact hx (hacc.dirty_subset (by rcases hs with hs | hs | hs <;> simp [hs]) hkeeps.mem_dirty)

/-- **An accepted access keeps the agreement.** -/
theorem coherent (hacc : LazyAccess c types mf p b sends s') (hco : Coherent c.core h)
    (hlazy : cfg.Lazy) (hcfg : cfg.Checked) (hresident : Resident c.core)
    (hspares : p.status = .miss → ∀ t e, c.core.extra.lookup t = some e → e.cacheIndex ≠ p.idx)
    (haddr : ∀ t e, s'.extra.lookup t = some e → (s'.mfs t).addr = e.blockAddr) :
    Coherent s' (h.afterAccess c bytes mf p s') where
  aligned i := by
    by_cases hi : i = p.idx
    · subst hi
      rw [hacc.lines, Function.update_self, hacc.tag, CacheConfig.blockAddr_blockAddr]
    · rw [hacc.lines, Function.update_of_ne hi]
      exact hco.aligned i
  hits _ _ hhit := hacc.hits hco hresident.housed hhit
  dirty _ _ hx := hacc.dirty hco hresident.housed hx
  backed _ _ := hacc.backed hco hlazy hresident.tagged
  fetched _ _ he _ hsame hx :=
    hacc.fetched hco hcfg hresident.housed hresident.anchored hspares haddr he hsame hx
  awaits t e he := by
    rcases hacc.fetches t e he with ⟨hold, hmasks, -⟩ | ⟨rfl, -, -, hmasks, hidx, -, hreserved⟩
    · rw [hmasks.sectors]
      by_cases hi : e.cacheIndex = p.idx
      · have hawaits := hco.awaits t e hold
        rw [hi] at hawaits
        rw [hacc.lines, hi, Function.update_self]
        exact hacc.line.awaits (fun hmiss => hspares hmiss t e hold hi) _ hawaits
      · rw [hacc.lines, Function.update_of_ne hi]
        exact hco.awaits t e hold
    · rw [hmasks.sectors, hacc.lines, hidx, Function.update_self]
      exact Or.inl hreserved
  masks t e he x hx := by
    rcases hacc.fetches t e he with ⟨hold, hmasks, -⟩ | ⟨rfl, -, -, hmasks, -⟩
    · rw [hmasks.bytes] at hx
      rw [hmasks.sectors]
      exact hco.masks t e hold x hx
    · rw [hmasks.bytes] at hx
      rw [hmasks.sectors]
      exact hlazy.sameSector_iff.2 (hacc.inSector.byteSector hx).symm

end Coherent

end LazyAccess

/-! ### Fills -/

namespace Completed

variable {s s' : Core cfg} {mf : Token} {e : ExtraMfFields} {i : ℕ} {j : Fin 4} {x : Fin 128}

/-- A fill leaves the other sectors. -/
theorem sectorAt_other (hdone : Completed s s' mf e) (hnot : ¬(i = e.cacheIndex ∧
    cfg.SameSector (cfg.sectorIndex (s.mfs mf).accessSectorMask) j)) :
    (s'.lines i).sectorAt j = (s.lines i).sectorAt j := by
  rw [hdone.lines]
  by_cases hi : i = e.cacheIndex
  · rw [hi, Function.update_self, CacheBlock.sectorAt_fill]
    exact if_neg fun hj => hnot ⟨hi, hj⟩
  · rw [Function.update_of_ne hi]

/-- Bytes stay dirty, and only those of the fetch become so. -/
theorem dirty_subset (hdone : Completed s s' mf e) :
    (s.lines i).dirtyByteMask ⊆ (s'.lines i).dirtyByteMask := by
  rw [hdone.lines]
  by_cases hi : i = e.cacheIndex
  · rw [hi, Function.update_self, CacheBlock.dirtyByteMask_fill]
    split
    · exact Finset.subset_union_left
    · exact subset_rfl
  · rw [Function.update_of_ne hi]

theorem dirty_cases (hdone : Completed s s' mf e) (hx : x ∈ (s'.lines i).dirtyByteMask) :
    x ∈ (s.lines i).dirtyByteMask ∨ i = e.cacheIndex ∧ x ∈ (s.mfs mf).accessByteMask := by
  rw [hdone.lines] at hx
  by_cases hi : i = e.cacheIndex
  · rw [hi, Function.update_self, CacheBlock.dirtyByteMask_fill] at hx
    rw [hi]
    split at hx
    · exact (Finset.mem_union.1 hx).imp id fun h => ⟨rfl, h⟩
    · exact Or.inl hx
  · rw [Function.update_of_ne hi] at hx
    exact Or.inl hx

/-- A fill leaves its sector `MODIFIED` or `VALID`. -/
theorem ne_invalid (hdone : Completed s s' mf e)
    (hj : cfg.SameSector (cfg.sectorIndex (s.mfs mf).accessSectorMask) j) :
    (s'.lines e.cacheIndex).getStatus j ≠ .invalid := by
  rw [hdone.lines, Function.update_self, CacheBlock.getStatus_fill,
    if_pos (show cfg.cacheType = .normal ∨ _ from hj)]
  split <;> simp

/-- Bytes that a line covers stay covered, if the fill finds the flag of a modified sector. -/
theorem keeps (hdone : Completed s s' mf e)
    (hawaits : (s.lines e.cacheIndex).Awaits (cfg.sectorIndex (s.mfs mf).accessSectorMask))
    (h : (s.lines i).Keeps x False) : (s'.lines i).Keeps x False := by
  rw [hdone.lines]
  by_cases hi : i = e.cacheIndex
  · subst hi
    rw [Function.update_self]
    by_cases hj : cfg.SameSector (cfg.sectorIndex (s.mfs mf).accessSectorMask) (byteSector x)
    · refine h.fill hj (fun hs => ?_) False.elim
      rw [CacheBlock.Awaits, CacheBlock.getStatus, hj.sectorAt_eq, ← CacheBlock.getStatus, hs]
        at hawaits
      exact (hawaits.resolve_left (by simp)).2
    · exact h.fill_other hj _
  · rw [Function.update_of_ne hi]
    exact h

end Completed

namespace Coherent

section Complete

variable {s s' : Core cfg} {h : Contents V} {mf : Token} {e : ExtraMfFields} {i : ℕ} {x : Fin 128}

/-- The bytes of the sector of a fetch that has come back: those of the last writes. -/
theorem value_filled (hco : Coherent s h) (hanchored : Anchored s)
    (he : s.extra.lookup mf = some e) (hqueue : mf ∉ s.missQueue)
    (hsame : cfg.SameSector (cfg.sectorIndex (s.mfs mf).accessSectorMask) (byteSector x)) :
    (h.filled s mf e).lines e.cacheIndex x = h.latest (s.lines e.cacheIndex).tag x := by
  simp only [Contents.filled, true_and, CacheConfig.mem_bytesOf, hsame]
  split
  · next hclean =>
      have hresponse := hco.fetched mf e he x hsame hclean
      rw [Contents.response, if_neg hqueue] at hresponse
      rw [hresponse, (hanchored.tenant mf e he).1]
  · next hdirty => exact (hco.dirty _ x (not_not.1 hdirty)).2

/-- The others are left. -/
theorem value_unfilled (h : Contents V) (hnot : ¬(i = e.cacheIndex ∧
    cfg.SameSector (cfg.sectorIndex (s.mfs mf).accessSectorMask) (byteSector x))) :
    (h.filled s mf e).lines i x = h.lines i x := by
  refine if_neg fun hfilled => hnot ⟨hfilled.1, ?_⟩
  exact CacheConfig.mem_bytesOf.1 hfilled.2.1

/-- **A fill keeps the agreement.** -/
theorem complete {sent : List Token} (hco : Coherent s h) (hcfg : cfg.Checked)
    (htracked : Tracked s sent) (hanchored : Anchored s) (hbacked : Backed s)
    (he : s.extra.lookup mf = some e) (hqueue : mf ∉ s.missQueue)
    (hmfs : ∀ t ∈ s.missQueue, s'.mfs t = s.mfs t) (hdone : Completed s s' mf e) :
    Coherent s' (h.filled s mf e) where
  aligned i := by
    rw [hdone.tag]
    exact hco.aligned i
  hits i x hhit := by
    rw [hdone.tag]
    by_cases hown : i = e.cacheIndex ∧
        cfg.SameSector (cfg.sectorIndex (s.mfs mf).accessSectorMask) (byteSector x)
    · rw [hown.1]
      exact hco.value_filled hanchored he hqueue hown.2
    · rw [value_unfilled h hown]
      refine hco.hits i x ?_
      exact (CacheBlock.matchStatus_eq_hit_congr (hdone.sectorAt_other hown)).1 hhit
  dirty i x hx := by
    rw [hdone.tag]
    by_cases hown : i = e.cacheIndex ∧
        cfg.SameSector (cfg.sectorIndex (s.mfs mf).accessSectorMask) (byteSector x)
    · rw [hown.1]
      exact ⟨hdone.ne_invalid hown.2, hco.value_filled hanchored he hqueue hown.2⟩
    · rw [value_unfilled h hown, CacheBlock.getStatus, hdone.sectorAt_other hown]
      rcases hdone.dirty_cases hx with hold | ⟨hi, hbyte⟩
      · exact hco.dirty i x hold
      · exact absurd ⟨hi, hco.masks mf e he x hbyte⟩ hown
  backed a x := by
    have hdrained : (h.filled s mf e).drained s' = h.drained s :=
      Contents.drained_congr hdone.queue hmfs rfl rfl
    rw [hdrained]
    rcases hco.backed a x with hold | ⟨hback, i, htag, hkeeps⟩
    · exact Or.inl hold
    · refine Or.inr ⟨hback, i, ?_, hdone.keeps (hco.awaits mf e he) hkeeps⟩
      rw [hdone.tag]
      exact htag
  fetched t e' he' x hsame hx := by
    obtain ⟨-, hold, hmasks⟩ := hdone.lookup he'
    have hresponse : (h.filled s mf e).response s' t x = h.response s t x :=
      Contents.response_congr hdone.queue hmfs rfl rfl
    rw [hmasks.sectors] at hsame
    rw [hresponse]
    exact hco.fetched t e' hold x hsame fun hdirty => hx (hdone.dirty_subset hdirty)
  awaits t e' he' := by
    obtain ⟨hne, hold, hmasks⟩ := hdone.lookup he'
    rw [hmasks.sectors]
    refine (hco.awaits t e' hold).of_sector (hdone.sectorAt_other ?_)
    rintro ⟨hidx, hsame⟩
    exact hne (htracked.fetch_unique hcfg hanchored hbacked he hold hidx hsame.symm)
  masks t e' he' x hx := by
    obtain ⟨-, hold, hmasks⟩ := hdone.lookup he'
    rw [hmasks.bytes] at hx
    rw [hmasks.sectors]
    exact hco.masks t e' hold x hx

end Complete

/-- Nothing changes but pins and the number of missing responses, and what goes down is the same. -/
theorem of_same {s s' : Core cfg} {h h' : Contents V} (hco : Coherent s h)
    (hlines : ∀ i, ∃ n, s'.lines i = { s.lines i with pendingResponseCount := n })
    (hextra : ∀ t e, s'.extra.lookup t = some e → ∃ e₀, s.extra.lookup t = some e₀ ∧
      e.cacheIndex = e₀.cacheIndex ∧ e.blockAddr = e₀.blockAddr ∧ SameMasks s s' t)
    (hlatest : h'.latest = h.latest) (hvalues : h'.lines = h.lines)
    (hdrained : h'.drained s' = h.drained s)
    (hresponse : ∀ t e x, s.extra.lookup t = some e → h'.response s' t x = h.response s t x) :
    Coherent s' h' where
  aligned i := by
    obtain ⟨n, hn⟩ := hlines i
    rw [hn]
    exact hco.aligned i
  hits i x hhit := by
    obtain ⟨n, hn⟩ := hlines i
    rw [hn] at hhit ⊢
    rw [hvalues, hlatest]
    have hsame : ({ s.lines i with pendingResponseCount := n } : CacheBlock cfg.cacheType).sectorAt
        (byteSector x) = (s.lines i).sectorAt (byteSector x) := rfl
    exact hco.hits i x ((CacheBlock.matchStatus_eq_hit_congr hsame).1 hhit)
  dirty i x hx := by
    obtain ⟨n, hn⟩ := hlines i
    rw [hn] at hx ⊢
    rw [hvalues, hlatest]
    exact hco.dirty i x hx
  backed a x := by
    rw [hdrained, hlatest]
    rcases hco.backed a x with hold | ⟨hback, i, htag, hkeeps⟩
    · exact Or.inl hold
    · obtain ⟨n, hn⟩ := hlines i
      refine Or.inr ⟨hback, i, ?_⟩
      rw [hn]
      exact ⟨htag, hkeeps.of_sector rfl subset_rfl id⟩
  fetched t e he x hsame hx := by
    obtain ⟨e₀, he₀, hidx, hblock, hmasks⟩ := hextra t e he
    obtain ⟨n, hn⟩ := hlines e.cacheIndex
    rw [hn, hidx] at hx
    rw [hmasks.sectors] at hsame
    rw [hresponse t e₀ x he₀, hlatest, hblock]
    exact hco.fetched t e₀ he₀ x hsame hx
  awaits t e he := by
    obtain ⟨e₀, he₀, hidx, -, hmasks⟩ := hextra t e he
    obtain ⟨n, hn⟩ := hlines e.cacheIndex
    rw [hmasks.sectors, hn, hidx]
    exact hco.awaits t e₀ he₀
  masks t e he x hx := by
    obtain ⟨e₀, he₀, -, -, hmasks⟩ := hextra t e he
    rw [hmasks.bytes] at hx
    rw [hmasks.sectors]
    exact hco.masks t e₀ he₀ x hx

end Coherent

/-- A response leaves the requests in the miss queue. -/
theorem System.completed_queue {sys sys' : System cfg} {o : Op} {c : Cache cfg} {mf : Token}
    {time : Time} {e : ExtraMfFields} {lines : ℕ → CacheBlock cfg.cacheType}
    (htracked : Tracked sys.core sys.sent) (hpromise : sys.Promise o)
    (horigin : o = .fill mf time ∧ c = sys.cache ∨
      ∃ n m, o = .fillChild n m time ∧ m.originalMf = some mf ∧ c = sys.build n m)
    (he : sys.core.extra.lookup mf = some e)
    (hcore : sys'.core = { c.core.complete mf e with lines }) :
    mf ∉ sys.core.missQueue ∧ ∀ t ∈ sys.core.missQueue, sys'.core.mfs t = sys.core.mfs t := by
  have hbelow : mf ∈ sys.below := by
    rcases horigin with ⟨rfl, -⟩ | ⟨n, m, rfl, horiginal, -⟩
    · exact hpromise.2.1
    · obtain ⟨original, hmem, hbelow, -⟩ := hpromise.2.2
      rw [horiginal, Option.mem_some] at hmem
      exact hmem ▸ hbelow
  have hbuilt : ∀ t ∈ sys.core.missQueue, c.core.mfs t = sys.core.mfs t := by
    intro t ht
    rcases horigin with ⟨-, rfl⟩ | ⟨n, m, rfl, -, rfl⟩
    · rfl
    · refine Function.update_of_ne ?_ _ _
      rintro rfl
      exact hpromise.2.1 (List.mem_append_right _ (List.mem_append_left _ ht))
  have honce := (htracked.fetching mf e he).2
  have hnot : mf ∉ sys.core.missQueue := by
    intro hqueue
    have hq : 0 < sys.core.missQueue.count mf := List.count_pos_iff.2 hqueue
    have hb : 0 < sys.below.count mf := List.count_pos_iff.2 hbelow
    have hsum : sys.core.missQueue.count mf + sys.below.count mf = 1 := by
      rw [← List.count_append]
      exact honce
    omega
  refine ⟨hnot, fun t ht => ?_⟩
  rw [hcore]
  have hne : t ≠ mf := fun heq => hnot (heq ▸ ht)
  exact (Function.update_of_ne hne _ _).trans (hbuilt t ht)

/-! ### One step -/

/-- Requests lie in one sector, and nothing is flushed or invalidated. -/
def Op.InSector (cfg : CacheConfig) : Op → Prop
  | .access _ m _ _ => cfg.InSector m
  | o => o.clears = false

instance (o : Op) : Decidable (o.InSector cfg) := by
  induction o using Op.casesOn <;> unfold Op.InSector <;> infer_instance

theorem Op.InSector.careful {o : Op} (h : o.InSector cfg) (sys : System cfg) : sys.Careful o := by
  cases o with
  | access => exact h.matches
  | flush => cases h
  | invalidate => cases h
  | _ => trivial

namespace Coherent

section Step

variable {types : DataCacheTypes} {data : ℕ → Fin 128 → V} {sys sys' : System cfg}
  {h : Contents V} {o : Op} {b : Obs}

/-- The object that the caller builds for a request changes nothing. -/
theorem build (hco : Coherent sys.core h) (htracked : Tracked sys.core sys.sent) {n : ℕ}
    (hnew : .caller n ∉ sys.held) (m : MemFetch) : Coherent (sys.build n m).core h := by
  have hmfs : ∀ t ∈ sys.core.missQueue, (sys.build n m).core.mfs t = sys.core.mfs t := by
    intro t ht
    refine Function.update_of_ne ?_ _ _
    rintro rfl
    exact hnew (List.mem_append_right _ (List.mem_append_left _ ht))
  refine hco.of_same (fun i => ⟨_, rfl⟩) (fun t e he => ⟨e, he, rfl, rfl, .of_eq ?_⟩) rfl rfl
    (Contents.drained_congr rfl hmfs rfl rfl) fun t e x he =>
      Contents.response_congr rfl hmfs rfl rfl
  exact System.build_mfs htracked hnew m (AList.lookup_isSome.1 (Option.isSome_of_mem he))

/-- **An accepted access.** -/
theorem access (hco : Coherent sys.core h) (hlazy : cfg.Lazy) (hcfg : cfg.Checked)
    (htracked : Tracked sys.core sys.sent) (hresident : Resident sys.core)
    (hpinned : PinnedEntries sys.core) (hacc : Accounted sys.core)
    (htracked' : Tracked sys'.core sys'.sent) {n : ℕ} {m : MemFetch} {time : Time}
    {status : CacheRequestStatus} (hnew : .caller n ∉ sys.held) (hm : cfg.InSector m)
    (haccept : status ≠ .reservationFail)
    (hcase : AccessCase (sys.build n m) (.dataCache types) m.addr
      (.caller n) time status sys'.core) :
    ∃ p, sys.answer m = some p ∧ Coherent sys'.core
    (h.accessed cfg (data h.accepted) (.caller n) m p
      (sys'.core.missQueue.drop sys.core.missQueue.length)) := by
  have hbuild := sys.build_mfs_caller n m
  obtain ⟨hcreated, hfresh⟩ := UpToDate.fresh htracked hnew m
  have hresident' := hresident.build htracked hnew m
  obtain ⟨p, b, sends, hafter⟩ := (System.access_of_build hcase).lazyAccess hlazy hcfg
    hresident'.tagged haccept (by rwa [hbuild]) (by simp) hcreated hfresh
  have hp := hafter.probes
  rw [hbuild] at hp
  refine ⟨p, (System.answer_eq_some n).2 hp, ?_⟩
  have hspares : p.status = .miss → ∀ t e, (sys.build n m).core.extra.lookup t = some e →
      e.cacheIndex ≠ p.idx := by
    intro hmiss t e he hidx
    -- the line of a fetch is pinned by the request that has sent it
    have htakes : takesLine cfg m p.status :=
      ⟨hmiss, hlazy.onMiss, fun _ => by simp [hlazy.onRead]⟩
    have hbuilt : Accounted (sys.build n m).core :=
      hacc.of_same (List.Perm.refl _) rfl (fun _ => rfl) le_rfl
    have hpinned' : PinnedEntries (sys.build n m).core := hpinned
    have hlive := CacheBlock.isInvalidLine_of_getStatus _ (hresident'.anchored.sector t e he)
    have htenant := (hresident'.anchored.tenant t e he).1
    rw [hidx] at hlive htenant
    exact hpinned'.takes_no_entry hbuilt hresident'.housed htracked.nonempty hp htakes hlive
      (htracked.entry t e he).1 htenant.symm
  have hco' : Coherent sys'.core (h.afterAccess (sys.build n m) (data h.accepted) (.caller n) p
      sys'.core) :=
    hafter.coherent (hco.build htracked hnew m) hlazy hcfg hresident' hspares
      fun t e he => (htracked'.fetching t e he).1.addr
  rw [Contents.afterAccess, hbuild] at hco'
  exact hco'

/-- **One step keeps the agreement.** -/
theorem step (hco : Coherent sys.core h) (hlazy : cfg.Lazy) (hcfg : cfg.Checked)
    (htracked : Tracked sys.core sys.sent) (hresident : Resident sys.core)
    (hbacked : Backed sys.core) (hpinned : PinnedEntries sys.core) (hacc : Accounted sys.core)
    (htracked' : Tracked sys'.core sys'.sent) (hpromise : sys.Promise o) (ho : o.InSector cfg)
    (hperform : sys.perform (.dataCache types) o = .ok (sys', b)) :
    Coherent sys'.core (h.note data sys o sys' b) := by
  have hkept : ∀ {s' : Core cfg}, s'.extra = sys.core.extra → s'.mfs = sys.core.mfs →
      ∀ t e, s'.extra.lookup t = some e → ∃ e₀, sys.core.extra.lookup t = some e₀ ∧
        e.cacheIndex = e₀.cacheIndex ∧ e.blockAddr = e₀.blockAddr ∧ SameMasks sys.core s' t :=
    fun hextra hmfs t e he => ⟨e, hextra ▸ he, rfl, rfl, .of_eq (by rw [hmfs])⟩
  have hsame : ∀ {s' : Core cfg},
      (∀ i, ∃ n, s'.lines i = { sys.core.lines i with pendingResponseCount := n }) →
      s'.missQueue = sys.core.missQueue → s'.extra = sys.core.extra → s'.mfs = sys.core.mfs →
      Coherent s' h := by
    intro s' hlines hqueue hextra hmfs
    have hmfs' : ∀ t ∈ sys.core.missQueue, s'.mfs t = sys.core.mfs t := fun _ _ => by rw [hmfs]
    exact hco.of_same hlines (hkept hextra hmfs) rfl rfl
      (Contents.drained_congr hqueue hmfs' rfl rfl)
      fun t e x he => Contents.response_congr hqueue hmfs' rfl rfl
  cases System.step_cases hpromise.suits hperform with
  | access n m time events status hcase hbelow =>
      unfold Contents.note
      by_cases hrefused : status = .reservationFail
      · subst hrefused
        rw [hcase.refused_eq]
        have hbuilt := hco.build htracked hpromise m
        dsimp only
        split
        · exact hbuilt
        · exact hbuilt
      · obtain ⟨p, hanswer, hafter⟩ := @access _ _ _ data _ _ _ hco hlazy hcfg htracked hresident
          hpinned hacc htracked' _ _ _ _ hpromise ho hrefused hcase
        dsimp only
        rw [hanswer]
        dsimp only
        rw [if_neg hrefused]
        exact hafter
  | tick memportFull waiting done htick hcore hbelow =>
      rw [hcore]
      exact hsame (fun i => ⟨_, rfl⟩) rfl rfl rfl
  | push memportFull waiting done htick mf rest hqueue hcore hbelow =>
      rw [hcore]
      refine hco.of_same (fun i => ⟨_, rfl⟩) (hkept rfl rfl) rfl rfl
        (Contents.drained_pushed hqueue rfl rfl) fun t e x he => ?_
      obtain ⟨hfetching, honce⟩ := htracked.fetching t e he
      refine Contents.response_pushed hqueue rfl rfl hfetching.isRead fun ht hmem => ?_
      -- a fetch is on its way once
      have hsent : sys.sent = mf :: rest ++ sys.below := congrArg (· ++ sys.below) hqueue
      have hrest : 0 < rest.count t := List.count_pos_iff.2 hmem
      rw [hsent, List.count_append, ← ht, List.count_cons_self] at honce
      omega
  | wait n m time original horiginal e pendingRead he hcore hbelow =>
      have hafter : sys'.core.extra.lookup original = some { e with pendingRead } := by
        rw [hcore]
        exact AList.lookup_insert _
      have hnote : h.note data sys (.fillChild n m time) sys' (.fill original) = h := by
        rw [Contents.note, he, hafter]
      rw [hnote, hcore]
      have hbuilt := hco.build htracked hpromise.2.1 m
      refine hbuilt.of_same (fun i => ⟨_, rfl⟩) (fun t e' he' => ?_) rfl rfl rfl fun _ _ _ _ => rfl
      by_cases ht : t = original
      · subst ht
        rw [AList.lookup_insert] at he'
        cases he'
        exact ⟨e, he, rfl, rfl, .of_eq rfl⟩
      · rw [AList.lookup_insert_ne ht] at he'
        exact ⟨e', he', rfl, rfl, .of_eq rfl⟩
  | complete o c mf time horigin e he hentry lines hfill hcore hbelow =>
      have hdone := System.completed hlazy.onMiss htracked hpromise horigin he hfill hcore
      obtain ⟨hqueue, hmfs⟩ := System.completed_queue htracked hpromise horigin he hcore
      have hnote : h.note data sys o sys' (.fill mf) = h.filled sys.core mf e := by
        rw [Contents.note, he, hdone.extra, AList.lookup_erase]
      rw [hnote]
      exact hco.complete hcfg htracked hresident.anchored hbacked he hqueue hmfs hdone
  | ready mf rest hqueue hpinned hcore hbelow =>
      rw [hcore]
      refine hsame (fun i => Core.unpin_pins _ mf i) ?_ ?_ ?_ <;> simp
  | deliver mf a rest addresses hready hanswered hentry hpinned hcore hbelow =>
      rw [hcore]
      have hdeliver : (sys.core.deliver a rest).lines = sys.core.lines ∧
          (sys.core.deliver a rest).missQueue = sys.core.missQueue ∧
          (sys.core.deliver a rest).extra = sys.core.extra ∧
          (sys.core.deliver a rest).mfs = sys.core.mfs := by
        unfold Core.deliver
        split <;> exact ⟨rfl, rfl, rfl, rfl⟩
      obtain ⟨hlines, hqueue, hextra, hmfs⟩ := hdeliver
      refine hsame (fun i => ?_) (by simpa using hqueue) (by simpa using hextra)
        (by simpa using hmfs)
      rw [← hlines]
      exact Core.unpin_pins _ mf i
  | flush => cases ho
  | invalidate => cases ho
  | retire mf hcore hbelow =>
      rw [hcore]
      exact hco

end Step

end Coherent

/-! ### Whole runs -/

section Run

variable {types : DataCacheTypes} {data : ℕ → Fin 128 → V} {mfs : Token → MemFetch}
  {memory : NewAddrType → Fin 128 → V} {values : ℕ → Fin 128 → V} {carried : Token → Fin 128 → V}
  {trace : List Obs} {s : System cfg × Contents V}

/-- The empty cache agrees with the lower level. -/
theorem Coherent.init (mfs : Token → MemFetch) (memory : NewAddrType → Fin 128 → V)
    (values : ℕ → Fin 128 → V) (carried : Token → Fin 128 → V) :
    Coherent (System.init cfg mfs).core (.init memory values carried) where
  aligned i := by
    change Alignment.alignDown cfg.lineSz 0 = 0
    exact BitVec.zero_and
  hits i x hhit := by
    have hinvalid : (CacheBlock.init cfg.cacheType).getStatus (byteSector x) = .invalid := by
      rw [CacheBlock.getStatus, CacheBlock.sectorAt_init]
      rfl
    change (CacheBlock.init cfg.cacheType).matchStatus (byteSector x) false = some .hit at hhit
    rw [CacheBlock.matchStatus_eq_hit, hinvalid] at hhit
    simp at hhit
  dirty i x hx := absurd hx (Finset.notMem_empty x)
  backed a x := Or.inl rfl
  fetched t e he := by cases he
  awaits t e he := by cases he
  masks t e he := by cases he

theorem coherent_of_run (hcfg : cfg.Checked) (hlazy : cfg.Lazy)
    (hrun : System.ContentsRun types data (fun sys o => sys.Promise o ∧ o.InSector cfg)
      (System.init cfg mfs, .init memory values carried) trace s) : Coherent s.1.core s.2 := by
  have hforget : ∀ {trace : List Obs} {s : System cfg × Contents V},
      System.ContentsRun types data (fun sys o => sys.Promise o ∧ o.InSector cfg)
        (System.init cfg mfs, .init memory values carried) trace s →
      System.Run (.dataCache types) (fun sys o => sys.Promise o ∧ sys.Careful o)
        (System.init cfg mfs) trace s.1 :=
    fun hrun => hrun.forget fun s _ h => ⟨h.1, h.2.careful s.1⟩
  have hhits : KeepsHits cfg (.dataCache types) := .of_policy (Or.inr hlazy.policy)
  refine hrun.reachable_invariant (fun _ s => Coherent s.1.core s.2)
    (.init mfs memory values carried) ?_
  rintro trace ⟨sys, h⟩ o ⟨sys', h'⟩ b hbefore hco ⟨hpromise, ho⟩ hstep
  have hafter := hforget (hbefore.snoc ⟨hpromise, ho⟩ hstep)
  obtain ⟨hperform, rfl⟩ := Runs.withHistory_eq_ok.1 hstep
  obtain ⟨⟨hacc, htracked, -⟩, -⟩ :=
    homed_of_run hlazy.onMiss hlazy.deferred ((hforget hbefore).mono fun _ _ h => h.1)
  obtain ⟨⟨-, htracked', -⟩, -⟩ :=
    homed_of_run hlazy.onMiss hlazy.deferred (hafter.mono fun _ _ h => h.1)
  obtain ⟨hresident, hbacked, hpinned⟩ :=
    pinnedEntries_of_run hcfg hlazy.onMiss hlazy.deferred hhits (hforget hbefore)
  exact hco.step hlazy hcfg htracked hresident hbacked hpinned hacc htracked' hpromise ho hperform

/-- **A read that hits sees the last accepted writes**, in each byte of its sector; and no byte of
an accepted write is lost: the lower level holds it and nothing queued overwrites it, or the last
request in the miss queue that writes it carries it, or it is dirty in a line of its block whose
sector is `MODIFIED`, or will be after the fill. -/
theorem lazy_cache_coherent (hcfg : cfg.Accepted) (hlazy : cfg.Lazy)
    (hrun : System.ContentsRun types data (fun sys o => sys.Promise o ∧ o.InSector cfg)
      (System.init cfg mfs, .init memory values carried) trace s) :
    (∀ m p, m.isWrite = false → s.1.answer m = some p → p.status = .hit →
      ∀ x ∈ sectorBytes (cfg.sectorIndex m.accessSectorMask),
        s.2.lines p.idx x = s.2.latest (cfg.blockAddr m.addr) x) ∧
    ∀ a x,
      (∀ t ∈ s.1.core.missQueue, ¬s.1.core.Writes t a x) ∧ s.2.lower a x = s.2.latest a x ∨
      (∃ before t after, s.1.core.missQueue = before ++ t :: after ∧ s.1.core.Writes t a x ∧
        (∀ t' ∈ after, ¬s.1.core.Writes t' a x) ∧ s.2.carried t x = s.2.latest a x) ∨
      cfg.writePolicy = .writeBack ∧ ∃ i, (s.1.core.lines i).tag = a ∧
        s.2.lines i x = s.2.latest a x ∧ x ∈ (s.1.core.lines i).dirtyByteMask ∧
          ((s.1.core.lines i).getStatus (byteSector x) = .modified ∨
            (s.1.core.lines i).getStatus (byteSector x) = .reserved ∧
              ((s.1.core.lines i).sectorAt (byteSector x)).setModifiedOnFill = true) := by
  have hco := coherent_of_run hcfg.checked hlazy hrun
  refine ⟨fun m p hread hanswer hhit x hx => ?_, fun a x => ?_⟩
  · have hp : (s.1.build 0 m).Probes m.addr m p := (System.answer_eq_some 0).1 hanswer
    have hmatch := (hp.sectorIndex (Or.inl hhit)).2
    rw [hread, hhit, eq_of_mem_sectorBytes hx (mem_sectorBytes_byteSector x)] at hmatch
    have htag : (s.1.core.lines p.idx).tag = cfg.blockAddr m.addr := (hp.holds (Or.inl hhit)).1
    rw [← htag]
    exact hco.hits p.idx x hmatch
  · rcases hco.backed a x with hbelow | ⟨hback, i, htag, hkeeps⟩
    · rcases s.2.drained_cases s.1.core a x with
        ⟨hnone, hlower⟩ | ⟨before, t, after, hqueue, hwrites, hlast, hcarried⟩
      · exact Or.inl ⟨hnone, hlower.symm.trans hbelow⟩
      · exact Or.inr (Or.inl ⟨before, t, after, hqueue, hwrites, hlast, hcarried.symm.trans hbelow⟩)
    · refine Or.inr (Or.inr ⟨hback, i, htag, ?_, hkeeps.mem_dirty, ?_⟩)
      · rw [← htag]
        exact (hco.dirty i x hkeeps.mem_dirty).2
      · rcases hkeeps with ⟨hs, -⟩ | ⟨hs, hm, -⟩
        · exact Or.inl hs
        · exact Or.inr ⟨hs, hm⟩

end Run

/-- A store to one byte of a sector, a load of the sector that fetches the rest, and a load that
hits both: the stored byte has the value of the store, and its neighbour the initial one. -/
theorem lazy_cache_coherent_partial_store :
    ∃ trace s p, System.ContentsRun .l1 (fun n (_ : Fin 128) => n + 1)
        (fun sys o => sys.Promise o ∧ o.InSector (CacheConfig.small 'S' 'B' 'm' 'L' 2 true))
        (System.init (CacheConfig.small 'S' 'B' 'm' 'L' 2 true) fun _ => MemFetch.load 0,
          .init (fun _ _ => 0) (fun _ _ => 7) fun _ _ => 7) trace s ∧
      s.1.answer (MemFetch.load 0) = some p ∧ p.status = .hit ∧ s.2.lines p.idx 0 = 1 ∧
      s.2.lines p.idx 1 = 0 := by
  obtain ⟨trace, s, hrun, hanswer, hwritten, hinitial⟩ :
      ∃ trace s, System.ContentsRun .l1 (fun n (_ : Fin 128) => n + 1)
        (fun sys o => sys.Promise o ∧ o.InSector (CacheConfig.small 'S' 'B' 'm' 'L' 2 true))
        (System.init (CacheConfig.small 'S' 'B' 'm' 'L' 2 true) fun _ => MemFetch.load 0,
          .init (fun _ _ => 0) (fun _ _ => 7) fun _ _ => 7) trace s ∧
        (s.1.answer (MemFetch.load 0)).map (fun p => p.status) = some .hit ∧
        s.2.latest 0 0 = 1 ∧ s.2.latest 0 1 = 0 :=
    Runs.exists_run_of_exec [.access 0 (MemFetch.store 0 {0}) 0 [],
      .access 1 (MemFetch.load 0) 1 [], .cycle false, .fill (.caller 1) 2] (by decide)
  obtain ⟨p, hp, hhit⟩ := Option.map_eq_some_iff.1 hanswer
  have hsees := (lazy_cache_coherent (CacheConfig.small_accepted (by decide) true)
    ⟨rfl, rfl, rfl, rfl, Or.inl rfl⟩ hrun).1 (MemFetch.load 0) p rfl hp hhit
  refine ⟨trace, s, p, hrun, hp, hhit, ?_, ?_⟩
  · exact (hsees 0 (by decide)).trans hwritten
  · exact (hsees 1 (by decide)).trans hinitial
end OpenCache
