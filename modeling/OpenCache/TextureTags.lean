/-
The tags of a texture cache.

A texture cache marks a block as valid in the call that allocates it, so its tag array is simpler
than that of the other caches: its lines are steady, with no sector reserved or modified and no pin,
and every way of a set is a possible victim.

* `OpenCache.CacheBlock.Steady`, `OpenCache.TagArray.Steady` — the steady lines;
* `OpenCache.TagArray.Steady.probe_only` — a probe of steady lines finds a line or a victim;
* `OpenCache.TagArray.Found`, `OpenCache.TagArray.Steady.found` — **the four ways an access of
  steady lines can end**;
* `OpenCache.TagArray.Steady.hit`, `OpenCache.TagArray.Steady.miss` — the two that keep the lines
  steady.
-/

import OpenCache.Aborts

set_option relaxedAutoImplicit false
set_option autoImplicit false

namespace OpenCache

/-! ### Steady lines -/

namespace CacheBlock

variable {k : CacheType} {b : CacheBlock k}

/-- A line that is not in use: no sector of it is reserved or modified, nothing pins it, and its
times compare with the initial value of `valid_timestamp`. -/
structure Steady (b : CacheBlock k) : Prop where
  status : ∀ i, b.getStatus i = .invalid ∨ b.getStatus i = .valid
  unpinned : b.pendingResponseCount = 0
  lastAccess : b.lastAccessTime.toNat < 2 ^ 32 - 1
  alloc : b.allocTime.toNat < 2 ^ 32 - 1

theorem Steady.init (k : CacheType) : (init k).Steady where
  status := fun i => Or.inl (by rw [getStatus, sectorAt_init]; rfl)
  unpinned := rfl
  lastAccess := by
    change (0 : Time).toNat < 2 ^ 32 - 1
    decide
  alloc := by
    change (0 : Time).toNat < 2 ^ 32 - 1
    decide

theorem Steady.setLastAccessTime (h : b.Steady) {time : Time} (htime : time.toNat < 2 ^ 32 - 1) :
    (b.setLastAccessTime time).Steady :=
  ⟨h.status, h.unpinned, htime, h.alloc⟩

theorem Steady.isPinned (h : b.Steady) : b.isPinned = false := by
  rw [CacheBlock.isPinned, h.unpinned]
  rfl

theorem Steady.isReservedLine (h : b.Steady) : b.isReservedLine = false := by
  rw [Bool.eq_false_iff, Ne, isReservedLine_iff]
  rintro ⟨i, hi⟩
  rcases h.status i with hs | hs
  · exact absurd (hi.symm.trans hs) (by decide)
  · exact absurd (hi.symm.trans hs) (by decide)

theorem Steady.isModifiedLine (h : b.Steady) : b.isModifiedLine = false := by
  rw [Bool.eq_false_iff, Ne, isModifiedLine_iff]
  rintro ⟨i, hi⟩
  rcases h.status i with hs | hs
  · exact absurd (hi.symm.trans hs) (by decide)
  · exact absurd (hi.symm.trans hs) (by decide)

/-- A line that is filled as soon as it is allocated. -/
theorem getStatus_fill_allocate (b : CacheBlock k) (tag blockAddr : NewAddrType) (time : Time)
    (i j : Fin 4) (byteMask : MemAccessByteMask) :
    ((b.allocate tag blockAddr time i).fill i byteMask).getStatus j =
      if k = .normal ∨ i = j then .valid else .invalid := by
  have hkeep : ∀ b' : CacheBlock k, (b'.fill i byteMask).getStatus j =
      (b'.modifySector i (fillSector k)).getStatus j := by
    intro b'
    unfold fill
    dsimp only
    split <;> rfl
  rw [hkeep, getStatus, sectorAt_modifySector]
  rcases b with ⟨_, _, _, _, _, _, _, _, ⟨s⟩ | ⟨s⟩⟩
  · rfl
  · by_cases hij : i = j
    · subst hij
      simp [allocate, sectorAt, reserveSector, fillSector, SectorState.init, BlockSectors.init]
    · simp [hij, allocate, sectorAt, BlockSectors.get_modify, SectorState.init]

/-- The members that the fill of a line does not touch. -/
theorem fill_allocate_tenant (b : CacheBlock k) (tag blockAddr : NewAddrType) (time : Time)
    (i : Fin 4) (byteMask : MemAccessByteMask) :
    ((b.allocate tag blockAddr time i).fill i byteMask).tag = tag ∧
      ((b.allocate tag blockAddr time i).fill i byteMask).pendingResponseCount = 0 ∧
      ((b.allocate tag blockAddr time i).fill i byteMask).lastAccessTime = time ∧
      ((b.allocate tag blockAddr time i).fill i byteMask).allocTime = time := by
  rcases b with ⟨_, _, _, _, _, _, _, _, ⟨s⟩ | ⟨s⟩⟩
  · exact ⟨rfl, rfl, rfl, rfl⟩
  · exact ⟨rfl, rfl, rfl, rfl⟩

theorem Steady.fill_allocate (b : CacheBlock k) (tag blockAddr : NewAddrType) {time : Time}
    (i : Fin 4) (byteMask : MemAccessByteMask) (htime : time.toNat < 2 ^ 32 - 1) :
    ((b.allocate tag blockAddr time i).fill i byteMask).Steady := by
  obtain ⟨-, hpin, hlast, halloc⟩ := fill_allocate_tenant b tag blockAddr time i byteMask
  refine ⟨fun j => ?_, hpin, by rw [hlast]; exact htime, by rw [halloc]; exact htime⟩
  rw [getStatus_fill_allocate]
  split
  · exact Or.inr rfl
  · exact Or.inl rfl

end CacheBlock

namespace TagArray

variable {cfg : CacheConfig}

/-- All lines are steady. -/
def Steady (ta : TagArray cfg) : Prop := ∀ j, (ta.lines j).Steady

namespace Steady

variable {ta ta' tags : TagArray cfg} {addr : NewAddrType} {time : Time} {idx : ℕ} {mf : MemFetch}
  {r : AccessResult}

theorem init (cfg : CacheConfig) : (TagArray.init cfg).Steady := fun _ => .init _

/-- Replacing one line by a steady one. -/
theorem update (h : ta.Steady) {b : CacheBlock cfg.cacheType} (hb : b.Steady)
    (hlines : ta'.lines = Function.update ta.lines idx b) : ta'.Steady := by
  intro j
  rw [hlines]
  by_cases hj : j = idx
  · subst hj
    rw [Function.update_self]
    exact hb
  · rw [Function.update_of_ne hj]
    exact h j

theorem eligible (h : ta.Steady) (j : ℕ) : ta.eligible j = true := by
  simp [TagArray.eligible, (h j).isPinned, (h j).isReservedLine, (h j).isModifiedLine]

theorem invalidate (h : ta.Steady) : ta.invalidate.Steady := by
  intro j
  change (if j < cfg.getNumLines then invalidateLine (ta.lines j) else ta.lines j).Steady
  split
  · have hfold : ∀ (l : List (Fin 4)) (b : CacheBlock cfg.cacheType), b.Steady →
        (l.foldl (fun b i => b.setStatus .invalid i) b).Steady := by
      intro l
      induction l with
      | nil => exact fun _ hb => hb
      | cons i l ih =>
          intro b hb
          refine ih _ ⟨fun i' => ?_, hb.unpinned, hb.lastAccess, hb.alloc⟩
          have hsector := CacheBlock.sectorAt_modifySector b i i' fun s =>
            { s with status := .invalid }
          change (((b.modifySector i _).sectorAt i').status = _) ∨
            ((b.modifySector i _).sectorAt i').status = _
          rw [hsector]
          split
          · exact Or.inl rfl
          · exact hb.status i'
    exact hfold _ _ (h j)
  · exact h j

/-! ### The search -/

/-- What holds of the local variables of the loop of `probe` on steady lines: a line that may be
replaced has been noted. -/
structure Noted (s : Scan) : Prop where
  candidate : s.allReserved = false → s.invalidLine ≠ none ∨ s.validLine ≠ none
  untouched : s.validLine = none → s.validTimestamp = 2 ^ 32 - 1

theorem Noted.init : Noted Scan.init := ⟨(by cases ·), fun _ => rfl⟩

/-- Every way that is considered leaves a candidate. -/
theorem considerVictim (h : ta.Steady) {s : Scan} (hs : Noted s) (index : ℕ) :
    Noted (ta.considerVictim index s) ∧ (ta.considerVictim index s).allReserved = false := by
  unfold TagArray.considerVictim
  dsimp only
  rw [if_neg (by simp [(h index).isPinned]), if_pos (h.eligible index)]
  split
  · exact ⟨⟨fun _ => Or.inl (by simp), hs.untouched⟩, rfl⟩
  · split
    · exact ⟨⟨fun _ => Or.inr (by simp), fun hn => by cases hn⟩, rfl⟩
    · next hold =>
        refine ⟨⟨fun _ => Or.inr fun hn => hold ?_, hs.untouched⟩, rfl⟩
        -- the first valid line is older than the initial time stamp
        rw [hs.untouched hn, replacementTime]
        split
        · exact (h index).lastAccess
        · exact (h index).alloc

theorem scanWays (h : ta.Steady) {tag : NewAddrType} {mask : MemAccessSectorMask} {isWrite : Bool}
    {ways : List ℕ} {s s' : Scan} (hs : Noted s)
    (hscan : ta.scanWays tag mask isWrite ways s = .ok (.exhausted s')) : Noted s' := by
  induction ways generalizing s with
  | nil =>
      cases hscan
      exact hs
  | cons index rest ih =>
      obtain ⟨m, -, hscan⟩ := bind_eq_ok.1 hscan
      cases m with
      | some status => cases hscan
      | none => exact ih (h.considerVictim hs index).1 hscan

open Raises

/-- **A probe of steady lines finds the block or a victim**: it fails only on the set index, or on
the mask of a request to a sector cache. -/
theorem probe_only (h : ta.Steady) {P : Abort → Prop} (hon : cfg.allocPolicy = .onMiss)
    (hset : P .fermiNset ∧ P .setIndexOutOfBounds)
    (hmask : cfg.cacheType = .sector → P .sectorIndex)
    (mask : MemAccessSectorMask) (isWrite : Bool) : Only P (ta.probe addr idx mask isWrite) := by
  have hindex : Only P (cfg.setIndex addr) := by
    refine .bind ?_ fun i _ => .bind (assertThat_only fun _ => hset.2) fun _ _ => .ok _
    unfold CacheConfig.hashIndex
    dsimp only
    split
    · exact .ite (fun _ => .ok _) fun _ => .error hset.1
    all_goals exact .ok _
  have hsector : Only P (cfg.getSectorIndex mask) := by
    unfold CacheConfig.getSectorIndex
    split
    · exact .ok _
    · next hs => exact .ite (fun _ => .ok _) fun _ => .error (hmask hs)
  have hscan : ∀ (tag : NewAddrType) (ways : List ℕ) (s : Scan),
      Only P (ta.scanWays tag mask isWrite ways s) := by
    intro tag ways
    induction ways with
    | nil => exact fun _ => .ok _
    | cons index rest ih =>
        intro s
        refine .bind ?_ fun m _ => ?_
        · unfold matchWay
          exact .ite (fun _ => .bind hsector fun _ _ => .ok _) fun _ => .ok _
        · cases m with
          | none => exact ih _
          | some status => exact .ok _
  refine .bind hindex fun setIndex _ => .bind (hscan _ _ _) fun result hresult => ?_
  cases result with
  | found status index => exact .ok _
  | exhausted s =>
      have hnoted := h.scanWays Noted.init hresult
      refine .ite (fun _ => .bind (assertThat_only fun hn => absurd hon hn) fun _ _ => .ok _)
        fun hall => ?_
      split
      · exact .ok _
      · exact .ok _
      · next hinvalid hvalid =>
          rcases hnoted.candidate (Bool.eq_false_iff.2 hall) with hne | hne
          · exact absurd hinvalid hne
          · exact absurd hvalid hne

end Steady

/-! ### What an access does -/

/-- The ways an access of steady lines can end. -/
inductive Found (ta : TagArray cfg) (addr : NewAddrType) (time : Time) (mask : MemAccessSectorMask)
    (tags : TagArray cfg) (r : AccessResult) : Prop
  /-- The sector is in the cache. -/
  | hit (hstatus : r.status = .hit) (htag : (ta.lines r.idx).tag = cfg.blockAddr addr)
      (hvalid : (ta.lines r.idx).getStatus (cfg.sectorIndex mask) = .valid)
      (hlines : tags.lines =
        Function.update ta.lines r.idx ((ta.lines r.idx).setLastAccessTime time))
  /-- A line is allocated. -/
  | miss (hstatus : r.status = .miss)
      (hlines : tags.lines = Function.update ta.lines r.idx
        ((ta.lines r.idx).allocate (cfg.blockAddr addr) (cfg.blockAddr addr) time
          (cfg.sectorIndex mask)))
  /-- The line is in the cache without the sector, which is reserved. -/
  | sectorMiss (hstatus : r.status = .sectorMiss) (htag : (ta.lines r.idx).tag = cfg.blockAddr addr)
      (hinvalid : (ta.lines r.idx).getStatus (cfg.sectorIndex mask) = .invalid)
      (hlive : (ta.lines r.idx).isInvalidLine = false)
      (hlines : tags.lines = Function.update ta.lines r.idx
        { (ta.lines r.idx).modifySector (cfg.sectorIndex mask) CacheBlock.reserveSectorAgain with
          lastAccessTime := time })
  /-- The cache has no ways. -/
  | noWays (hstatus : r.status = .reservationFail) (hassoc : cfg.assoc = 0)

namespace Found

variable {ta tags : TagArray cfg} {addr : NewAddrType} {time : Time} {mask : MemAccessSectorMask}
  {r : AccessResult}

/-- No sector is reserved, so none is hit while it is. -/
theorem ne_hitReserved (h : ta.Found addr time mask tags r) : r.status ≠ .hitReserved := by
  intro hs
  cases h with
  | hit hstatus _ _ _ => exact absurd (hs.symm.trans hstatus) (by decide)
  | miss hstatus _ => exact absurd (hs.symm.trans hstatus) (by decide)
  | sectorMiss hstatus _ _ _ _ => exact absurd (hs.symm.trans hstatus) (by decide)
  | noWays hstatus _ => exact absurd (hs.symm.trans hstatus) (by decide)

/-- Only a cache without ways refuses an access. -/
theorem assoc_of_fail (h : ta.Found addr time mask tags r) (hs : r.status = .reservationFail) :
    cfg.assoc = 0 := by
  cases h with
  | hit hstatus _ _ _ => exact absurd (hs.symm.trans hstatus) (by decide)
  | miss hstatus _ => exact absurd (hs.symm.trans hstatus) (by decide)
  | sectorMiss hstatus _ _ _ _ => exact absurd (hs.symm.trans hstatus) (by decide)
  | noWays _ hassoc => exact hassoc

end Found

namespace Steady

variable {ta ta' tags : TagArray cfg} {addr : NewAddrType} {time : Time} {idx : ℕ} {mf : MemFetch}
  {r : AccessResult}

/-- **The four ways an access of steady lines can end.** -/
theorem found (h : ta.Steady) (hon : cfg.allocPolicy = .onMiss)
    (haccess : ta.accessNoWriteback addr time idx mf = .ok (tags, r)) :
    ta.Found addr time mf.accessSectorMask tags r := by
  obtain ⟨p, hp, -, hstatus, hidx, -, hlines⟩ := access_eq_ok (accessNoWriteback_eq_ok haccess)
  obtain ⟨setIndex, -, hprobed⟩ := probed_of_probe hp
  rw [← hidx] at hlines
  have hmodified : ∀ i, (ta.lines r.idx).getStatus i ≠ .modified := by
    intro i hi
    rcases (h r.idx).status i with hs | hs
    · exact absurd (hi.symm.trans hs) (by decide)
    · exact absurd (hi.symm.trans hs) (by decide)
  cases hs : p.status with
  | hit =>
      obtain ⟨-, htag, -, hmatch⟩ := hprobed.found (Or.inl hs)
      rw [hs, ← hidx, CacheBlock.matchStatus_eq_hit] at hmatch
      rw [hs] at hlines
      rw [← hidx] at htag
      exact .hit (hstatus.trans hs) htag
        (hmatch.resolve_right fun hm => hmodified _ hm.1) hlines
  | miss =>
      rw [hs, touchedLine, if_pos hon] at hlines
      exact .miss (hstatus.trans hs) hlines
  | sectorMiss =>
      obtain ⟨-, htag, -, hmatch⟩ := hprobed.found (Or.inr (Or.inr hs))
      rw [hs, ← hidx, CacheBlock.matchStatus_eq_sectorMiss] at hmatch
      rw [hs, touchedLine, if_pos hon] at hlines
      rw [← hidx] at htag
      obtain ⟨hinvalid, hlive⟩ := hmatch.resolve_left fun hm => hmodified _ hm.1
      exact .sectorMiss (hstatus.trans hs) htag hinvalid hlive hlines
  | hitReserved =>
      obtain ⟨-, -, -, hmatch⟩ := hprobed.found (Or.inr (Or.inl hs))
      rw [hs, CacheBlock.matchStatus_eq_hitReserved] at hmatch
      rcases (h p.idx).status (cfg.sectorIndex mf.accessSectorMask) with hi | hi
      · exact absurd (hmatch.symm.trans hi) (by decide)
      · exact absurd (hmatch.symm.trans hi) (by decide)
  | reservationFail =>
      refine .noWays (hstatus.trans hs) (Nat.eq_zero_of_not_pos fun hpos => ?_)
      have hway : setIndex * cfg.assoc + 0 ∈ waysOf cfg setIndex :=
        List.mem_map.2 ⟨0, List.mem_range.2 hpos, rfl⟩
      have hno := (hprobed.fail hs).2 _ hway
      rw [h.eligible] at hno
      cases hno
  | mshrHit => exact absurd hs hprobed.ne_mshrHit

/-- A hit keeps the lines steady. -/
theorem hit (h : ta.Steady) (htime : time.toNat < 2 ^ 32 - 1)
    (hlines : tags.lines =
      Function.update ta.lines idx ((ta.lines idx).setLastAccessTime time)) : tags.Steady :=
  h.update ((h idx).setLastAccessTime htime) hlines

/-- The lines after a miss whose line is filled in the same call. -/
theorem miss_lines {i : Fin 4} {b : CacheBlock cfg.cacheType} {tag : NewAddrType}
    (hlines : tags.lines = Function.update ta.lines idx (b.allocate tag tag time i))
    (hfill : tags.fillIndex idx mf = .ok ta') (hmask : cfg.sectorIndex mf.accessSectorMask = i) :
    ta'.lines = Function.update ta.lines idx ((b.allocate tag tag time i).fill i
      mf.accessByteMask) := by
  rw [(fillIndex_eq_ok hfill).2, hlines, Function.update_self, Function.update_idem, hmask]

/-- A miss whose line is filled in the same call keeps the lines steady. -/
theorem miss (h : ta.Steady) {b : CacheBlock cfg.cacheType} {tag : NewAddrType} {i : Fin 4}
    {byteMask : MemAccessByteMask} (htime : time.toNat < 2 ^ 32 - 1)
    (hlines : ta'.lines =
      Function.update ta.lines idx ((b.allocate tag tag time i).fill i byteMask)) : ta'.Steady :=
  h.update (.fill_allocate b tag tag i byteMask htime) hlines

open Raises

/-- **An access of steady lines of a normal cache fails only on the set index.** -/
theorem access_only (h : ta.Steady) {P : Abort → Prop} (hon : cfg.allocPolicy = .onMiss)
    (hn : cfg.cacheType = .normal) (hset : P .fermiNset ∧ P .setIndexOutOfBounds) :
    Only P (ta.accessNoWriteback addr time idx mf) := by
  have hnotSector : cfg.cacheType = .sector → P .sectorIndex := by
    intro hs
    rw [hn] at hs
    cases hs
  have hprobe : ({ ta with accesses := ta.accesses + 1, isUsed := true } : TagArray cfg).probe addr
      idx mf.accessSectorMask mf.isWrite = ta.probe addr idx mf.accessSectorMask mf.isWrite := by
    refine probe_congr ?_ ?_ _ _ _ _ <;> rfl
  refine .bind (.bind ?_ fun p hp => ?_) fun r hr => .bind (assertThat_only fun hw => ?_)
    fun _ _ => .ok _
  · rw [hprobe]
    exact h.probe_only hon hset hnotSector _ _
  · rw [hprobe] at hp
    obtain ⟨setIndex, -, hprobed⟩ := probed_of_probe hp
    have hstatus : p.status ≠ .sectorMiss := by
      intro hs
      obtain ⟨-, -, -, hmatch⟩ := hprobed.found (Or.inr (Or.inr hs))
      rw [hs, CacheBlock.matchStatus_eq_sectorMiss] at hmatch
      rcases hmatch with ⟨hm, -⟩ | ⟨hi, hlive⟩
      · rcases (h p.idx).status (cfg.sectorIndex mf.accessSectorMask) with hs | hs
        · exact absurd (hm.symm.trans hs) (by decide)
        · exact absurd (hm.symm.trans hs) (by decide)
      · rw [Bool.eq_false_iff, Ne, CacheBlock.isInvalidLine_iff] at hlive
        refine hlive fun j => ?_
        rw [← hi]
        exact congrArg SectorState.status ((ta.lines p.idx).sectorAt_of_normal hn _ _)
    have hsector : Only P (cfg.getSectorIndex mf.accessSectorMask) := by
      rw [CacheConfig.getSectorIndex, hn]
      exact .ok _
    cases hs : p.status with
    | hit => exact .ok _
    | hitReserved => exact .ok _
    | miss =>
        exact .ite (fun _ => .bind hsector fun i _ => .ite (fun _ => .ok _) fun _ => .ok _)
          fun _ => .ok _
    | reservationFail => exact .ok _
    | sectorMiss => exact absurd hs hstatus
    | mshrHit => exact absurd hs hprobed.ne_mshrHit
  · obtain ⟨p, -, -, -, -, hevicted, -⟩ := access_eq_ok hr
    rw [hevicted, evictedBy, if_neg (by simp [(h p.idx).isModifiedLine])] at hw
    exact absurd rfl hw

end Steady

end TagArray

end OpenCache
