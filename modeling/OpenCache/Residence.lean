/-
Where blocks live, in a cache that allocates on misses.

A block lives in a way of its set, and in one way only; the line that a fetch under way will fill
belongs to the block of the fetch and has not lost the sector.  The first property needs the second:
a fill of a sector that was lost would bring a block back that may live elsewhere by then.

* `OpenCache.LineAfter`, `OpenCache.AccessCase.line_after` — what an access does to the line that
  the tags have answered with;
* `OpenCache.LineAfter.getStatus_own`, `OpenCache.LineAfter.getStatus_other` — and to the states of
  its sectors;
* `OpenCache.Housed` — blocks live in their sets, in one way each;
* `OpenCache.Anchored` — fetches keep their lines and their sectors;
* `OpenCache.Cache.Spares` — an access that takes no line and evicts no sector from a fetch;
* `OpenCache.Resident.step` — **one step that spares the fetches keeps both**;
* `OpenCache.PinnedFetches` — with deferred responses, no miss takes the line of a fetch.
-/

import OpenCache.Tenants
import OpenCache.WriteHistory

set_option relaxedAutoImplicit false
set_option autoImplicit false

namespace OpenCache

variable {cfg : CacheConfig}

/-- Two sectors share their state: a line of a normal cache has one state for all of them. -/
def CacheConfig.SameSector (cfg : CacheConfig) (i j : Fin 4) : Prop :=
  cfg.cacheType = .normal ∨ i = j

instance (cfg : CacheConfig) (i j : Fin 4) : Decidable (cfg.SameSector i j) := by
  unfold CacheConfig.SameSector
  infer_instance

theorem CacheConfig.SameSector.refl (cfg : CacheConfig) (i : Fin 4) : cfg.SameSector i i :=
  Or.inr rfl

theorem CacheConfig.SameSector.symm {i j : Fin 4} (h : cfg.SameSector i j) : cfg.SameSector j i :=
  h.imp id Eq.symm

theorem CacheConfig.SameSector.trans {i j l : Fin 4} (h : cfg.SameSector i j)
    (h' : cfg.SameSector j l) : cfg.SameSector i l := by
  rcases h with h | rfl
  · exact Or.inl h
  · exact h'

/-! ### The states of sectors -/

namespace CacheBlock

variable {k : CacheType} (b : CacheBlock k)

theorem getStatus_setStatus (status : CacheBlockState) (i j : Fin 4) :
    (b.setStatus status i).getStatus j = if k = .normal ∨ i = j then status else b.getStatus j := by
  rw [getStatus, setStatus, sectorAt_modifySector]
  split <;> rfl

/-- An update of the flags of a sector leaves the states. -/
theorem getStatus_modifySector (i j : Fin 4) {f : SectorState → SectorState}
    (hf : ∀ s, (f s).status = s.status) : (b.modifySector i f).getStatus j = b.getStatus j := by
  rw [getStatus, sectorAt_modifySector]
  split
  · exact hf _
  · rfl

theorem getStatus_marked (m : MemFetch) (i j : Fin 4) :
    (b.marked m i).getStatus j = if k = .normal ∨ i = j then .modified else b.getStatus j :=
  b.getStatus_setStatus .modified i j

theorem getStatus_readableUpdated (m : MemFetch) (i j : Fin 4) :
    (b.readableUpdated m i).getStatus j = b.getStatus j := by
  unfold readableUpdated
  split
  · exact b.getStatus_modifySector i j fun _ => rfl
  · rfl

theorem getStatus_fullWritten (m : MemFetch) (i j : Fin 4) (status : CacheRequestStatus) :
    (b.fullWritten m i status).getStatus j = (b.marked m i).getStatus j := by
  unfold fullWritten
  split
  · exact (b.marked m i).getStatus_modifySector i j fun _ => rfl
  · rfl

theorem getStatus_lazyWritten (m : MemFetch) (i j : Fin 4) (status : CacheRequestStatus)
    (atomSz : ℕ) : (b.lazyWritten m i status atomSz).getStatus j = (b.marked m i).getStatus j := by
  -- the updates of the flags, one after the other
  have hflag : ∀ (b' : CacheBlock k) (f : SectorState → SectorState),
      (∀ s, (f s).status = s.status) → b'.getStatus j = (b.marked m i).getStatus j →
      (b'.modifySector i f).getStatus j = (b.marked m i).getStatus j :=
    fun b' f hf hb' => (b'.getStatus_modifySector i j hf).trans hb'
  unfold lazyWritten
  dsimp only
  rw [getStatus_readableUpdated]
  by_cases hs : status = .hitReserved
  · have hfill :
        ((((b.marked m i).setIgnoreOnFill true i).setModifiedOnFill true i).putByteMaskOnFill
        true).getStatus j = (b.marked m i).getStatus j :=
      hflag _ _ (fun _ => rfl) (hflag _ _ (fun _ => rfl) rfl)
    rw [if_pos hs]
    split
    · exact hflag _ _ (fun _ => rfl) hfill
    · exact hflag _ _ (fun _ => rfl) (hflag _ _ (fun _ => rfl) hfill)
  · rw [if_neg hs]
    split <;> exact hflag _ _ (fun _ => rfl) rfl

theorem getStatus_writtenOnFill (i j : Fin 4) :
    (b.writtenOnFill i).getStatus j = b.getStatus j :=
  b.getStatus_modifySector i j fun _ => rfl

/-- An allocation reserves one sector and clears the others. -/
theorem getStatus_allocate (tag blockAddr : NewAddrType) (time : Time) (i j : Fin 4) :
    (b.allocate tag blockAddr time i).getStatus j =
      if k = .normal ∨ i = j then .reserved else .invalid := by
  rcases b with ⟨_, _, _, _, _, _, _, _, ⟨s⟩ | ⟨s⟩⟩
  · rfl
  · rw [getStatus, sectorAt, allocate]
    dsimp only
    rw [BlockSectors.get_modify, BlockSectors.get_init]
    split <;> rfl

/-- A fill makes one sector valid or modified. -/
theorem getStatus_fill (i j : Fin 4) (byteMask : MemAccessByteMask) :
    (b.fill i byteMask).getStatus j =
      if k = .normal ∨ i = j then
        if (b.sectorAt j).setModifiedOnFill then .modified else .valid
      else b.getStatus j := by
  have hfill : (b.fill i byteMask).getStatus j =
      (b.modifySector i (fillSector k)).getStatus j := by
    unfold fill
    dsimp only
    split <;> rfl
  rw [hfill, getStatus, sectorAt_modifySector]
  split <;> rfl

theorem isInvalidLine_congr {b b' : CacheBlock k} (h : ∀ i, b'.getStatus i = b.getStatus i) :
    b'.isInvalidLine = b.isInvalidLine := by
  rw [Bool.eq_iff_iff, isInvalidLine_iff, isInvalidLine_iff]
  exact forall_congr' fun i => by rw [h i]

/-- A line whose sector is not invalid holds its block. -/
theorem isInvalidLine_of_getStatus {i : Fin 4} (h : b.getStatus i ≠ .invalid) :
    b.isInvalidLine = false := by
  rw [← Bool.not_eq_true]
  exact fun hall => h ((b.isInvalidLine_iff.1 hall) i)

end CacheBlock

/-! ### The line of an access -/

/-- The line that an access leaves, before it is pinned. -/
inductive LineAfter (c : Cache cfg) (cls : CacheClass) (addr : NewAddrType) (mf : Token)
    (time : Time) (p : ProbeResult) : CacheBlock cfg.cacheType → Prop
  | hit (hs : p.status = .hit) (line : CacheBlock cfg.cacheType) (forward : Bool)
      (heffect : HitEffect cfg cls (c.mfs mf) time (cfg.sectorIndex (c.mfs mf).accessSectorMask)
        (c.tagArray.lines p.idx) line forward) : LineAfter c cls addr mf time p line
  | write (hs : p.status = .hitReserved ∨ p.status = .miss ∨ p.status = .sectorMiss)
      (hwrite : (c.mfs mf).isWrite = true) (line : CacheBlock cfg.cacheType) (forward : Bool)
      (heffect : WriteEffect cfg (c.mfs mf) (cfg.sectorIndex (c.mfs mf).accessSectorMask) p.status
        (c.touched addr (c.mfs mf) time p) line forward) : LineAfter c cls addr mf time p line
  | fetch (hs : p.status = .hitReserved ∨ p.status = .miss ∨ p.status = .sectorMiss)
      (reader : Token) (s : Core cfg)
      (written : CacheBlock cfg.cacheType → CacheBlock cfg.cacheType)
      (hfetcher : Fetcher cfg cls mf c.core reader s written) :
      LineAfter c cls addr mf time p (written (c.touched addr (c.mfs mf) time p))

section Access

variable {c : Cache cfg} {cls : CacheClass} {addr : NewAddrType} {mf : Token} {time : Time}
  {status : CacheRequestStatus} {s' : Core cfg} {p : ProbeResult} {line : CacheBlock cfg.cacheType}

/-- A write miss that is written into its line makes its sector modified. -/
theorem WriteEffect.getStatus {m : MemFetch} {i : Fin 4} {answer : CacheRequestStatus}
    {b : CacheBlock cfg.cacheType} {forward : Bool}
    (h : WriteEffect cfg m i answer b line forward) (j : Fin 4) :
    line.getStatus j = if cfg.SameSector i j then .modified else b.getStatus j := by
  cases h with
  | full => exact (b.getStatus_fullWritten m i j answer).trans (b.getStatus_marked m i j)
  | onRead => exact (b.getStatus_lazyWritten m i j answer _).trans (b.getStatus_marked m i j)

/-- A hit leaves the other sectors of its line. -/
theorem HitEffect.getStatus_other {m : MemFetch} {i j : Fin 4} {b : CacheBlock cfg.cacheType}
    {forward : Bool} (h : HitEffect cfg cls m time i b line forward) (hj : ¬cfg.SameSector i j) :
    line.getStatus j = b.getStatus j := by
  cases h with
  | read => rfl
  | write =>
      rw [CacheBlock.getStatus_readableUpdated, CacheBlock.getStatus_marked]
      exact if_neg hj
  | evict =>
      rw [CacheBlock.getStatus_setStatus]
      exact if_neg hj

/-- The line that an access finds or takes in a `NORMAL` cache keeps its dirty bytes. -/
theorem dirtyByteMask_touched (hk : cfg.cacheType = .normal) (m : MemFetch) :
    (c.touched addr m time p).dirtyByteMask = (c.tagArray.lines p.idx).dirtyByteMask := by
  have hallocate : ∀ (b : CacheBlock cfg.cacheType) (tag blockAddr : NewAddrType) (i : Fin 4),
      (b.allocate tag blockAddr time i).dirtyByteMask = b.dirtyByteMask := by
    rw [hk]
    rintro ⟨_, _, _, _, _, _, _, _, ⟨s⟩⟩ tag blockAddr i
    rfl
  unfold Cache.touched TagArray.touchedLine
  split
  · rfl
  · rfl
  · split
    · exact hallocate _ _ _ _
    · rfl
  · split <;> rfl
  · rfl

/-- A refused access leaves the core. -/
theorem AccessCase.refused_eq (h : AccessCase c cls addr mf time .reservationFail s') :
    s' = c.core := by
  cases h
  rfl

/-- The tags have answered an access that is accepted. -/
theorem AccessCase.probes (h : AccessCase c cls addr mf time status s')
    (haccept : status ≠ .reservationFail) : ∃ p, c.Probes addr (c.mfs mf) p := by
  cases h with
  | refused => exact absurd rfl haccept
  | hit p hp => exact ⟨p, hp⟩
  | forward p hp => exact ⟨p, hp⟩
  | write p hp => exact ⟨p, hp⟩
  | fetch p hp => exact ⟨p, hp⟩

/-- A fetch that was prepared leaves the states of its line. -/
theorem Fetcher.getStatus {reader : Token} {s : Core cfg}
    {written : CacheBlock cfg.cacheType → CacheBlock cfg.cacheType}
    (h : Fetcher cfg cls mf c.core reader s written) (b : CacheBlock cfg.cacheType) (j : Fin 4) :
    (written b).getStatus j = b.getStatus j := by
  cases h with
  | read => rfl
  | naive => rfl
  | fetchOnWrite => exact b.getStatus_writtenOnFill _ j

/-- And its pins. -/
theorem Fetcher.written_pin {reader : Token} {s : Core cfg}
    {written : CacheBlock cfg.cacheType → CacheBlock cfg.cacheType}
    (h : Fetcher cfg cls mf c.core reader s written) (b : CacheBlock cfg.cacheType) :
    written b.pin = (written b).pin := by
  cases h <;> rfl

/-- The line of a fetch, with or without the pin of its request. -/
theorem fetched_line {reader : Token} {s : Core cfg}
    {written : CacheBlock cfg.cacheType → CacheBlock cfg.cacheType}
    (h : Fetcher cfg cls mf c.core reader s written) (a : NewAddrType) (idx : ℕ)
    (touched : CacheBlock cfg.cacheType) (m : Option MemFetch) :
    ((((s.setLine idx touched).miss a reader idx).setLine idx
      (written (((s.setLine idx touched).miss a reader idx).lines idx))).sendOwn m).lines =
        Function.update c.tagArray.lines idx (written touched) ∨
      ((((s.setLine idx touched).miss a reader idx).setLine idx
        (written (((s.setLine idx touched).miss a reader idx).lines idx))).sendOwn m).lines =
          Function.update c.tagArray.lines idx (written touched).pin := by
  have hlines : s.lines = c.tagArray.lines := h.frame.1
  by_cases hdefer : cfg.deferHitResponse = true
  · right
    rw [← h.written_pin]
    simp [Core.setLine, Core.pinMiss, hdefer, Core.pin, hlines]
  · left
    simp [Core.setLine, Core.pinMiss, hdefer, hlines]

/-- **What an access does to the lines**: it leaves them, if it is refused or forwards a write, or
changes the line that the tags have answered with. -/
theorem AccessCase.line_after (hcase : AccessCase c cls addr mf time status s') :
    s'.lines = c.tagArray.lines ∧ (status = .reservationFail ∨
        cfg.writeAllocPolicy = .noWriteAllocate ∧
          ∃ p, c.Probes addr (c.mfs mf) p ∧ p.status ≠ .hit) ∨
      ∃ p line, c.Probes addr (c.mfs mf) p ∧ LineAfter c cls addr mf time p line ∧
        (s'.lines = Function.update c.tagArray.lines p.idx line ∨
          s'.lines = Function.update c.tagArray.lines p.idx line.pin) := by
  cases hcase with
  | refused => exact Or.inl ⟨rfl, Or.inl rfl⟩
  | hit p hp hs _ line forward heffect =>
      refine Or.inr ⟨p, line, hp, .hit hs line forward heffect, ?_⟩
      by_cases hdefer : cfg.deferHitResponse = true
      · exact Or.inr (by simp [Core.respond, hdefer, Core.pin, Core.setLine, Cache.core])
      · exact Or.inl (by simp [Core.respond, hdefer, Core.setLine, Cache.core])
  | forward p hp hs _ _ _ hpolicy => exact Or.inl ⟨rfl, Or.inr ⟨hpolicy, p, hp, hs⟩⟩
  | write p hp hs hwrite _ _ _ line forward heffect =>
      refine Or.inr ⟨p, line, hp, .write hs hwrite line forward heffect, Or.inl ?_⟩
      simp [Core.setLine, Cache.core]
  | fetch p hp hs _ reader s written hfetcher =>
      exact Or.inr ⟨p, _, hp, .fetch hs reader s written hfetcher, fetched_line hfetcher _ _ _ _⟩

namespace LineAfter

/-- The access has found or taken a line. -/
theorem answered (h : LineAfter c cls addr mf time p line) :
    p.status = .hit ∨ p.status = .hitReserved ∨ p.status = .miss ∨ p.status = .sectorMiss := by
  cases h with
  | hit hs => exact Or.inl hs
  | write hs => exact Or.inr hs
  | fetch hs => exact Or.inr hs

/-- Unless it was taken, the line was found. -/
theorem found (h : LineAfter c cls addr mf time p line) (hmiss : p.status ≠ .miss) :
    p.status = .hit ∨ p.status = .hitReserved ∨ p.status = .sectorMiss := by
  rcases h.answered with hs | hs | hs | hs
  · exact Or.inl hs
  · exact Or.inr (Or.inl hs)
  · exact absurd hs hmiss
  · exact Or.inr (Or.inr hs)

/-- The line belongs to the block of the access. -/
theorem belongsTo (h : LineAfter c cls addr mf time p line) (hon : cfg.allocPolicy = .onMiss)
    (htagged : Tagged c.core) (hp : c.Probes addr (c.mfs mf) p) :
    line.BelongsTo (cfg.blockAddr addr) := by
  cases h with
  | hit hs _ _ heffect =>
      exact (SameTenant.hitEffect heffect).belongsTo (htagged.found hp (Or.inl hs))
  | write hs _ _ _ heffect =>
      exact (SameTenant.writeEffect heffect).belongsTo (htagged.touched hon hp hs time)
  | fetch hs _ _ _ hfetcher =>
      exact (SameTenant.fetcher hfetcher _).belongsTo (htagged.touched hon hp hs time)

/-- The line that the access leaves, pinned or not, belongs to its block too. -/
theorem exists_line (h : LineAfter c cls addr mf time p line) (hon : cfg.allocPolicy = .onMiss)
    (htagged : Tagged c.core) (hp : c.Probes addr (c.mfs mf) p)
    (hlines : s'.lines = Function.update c.tagArray.lines p.idx line ∨
      s'.lines = Function.update c.tagArray.lines p.idx line.pin) :
    ∃ b : CacheBlock cfg.cacheType, b.BelongsTo (cfg.blockAddr addr) ∧
      (∀ j, b.getStatus j = line.getStatus j) ∧
        s'.lines = Function.update c.tagArray.lines p.idx b := by
  have hb := h.belongsTo hon htagged hp
  rcases hlines with hlines | hlines
  · exact ⟨line, hb, fun _ => rfl, hlines⟩
  · exact ⟨line.pin, hb.pin, fun _ => rfl, hlines⟩

/-- The line that an access has found or taken, in its other sectors: nothing is left of them if the
line was taken. -/
theorem getStatus_touched_other (hon : cfg.allocPolicy = .onMiss)
    (hs : p.status = .hitReserved ∨ p.status = .miss ∨ p.status = .sectorMiss) {j : Fin 4}
    (hj : ¬cfg.SameSector (cfg.sectorIndex (c.mfs mf).accessSectorMask) j) :
    (c.touched addr (c.mfs mf) time p).getStatus j =
      if p.status = .miss then .invalid else (c.tagArray.lines p.idx).getStatus j := by
  unfold Cache.touched
  rcases hs with hs | hs | hs
  · rw [hs]
    rfl
  · rw [hs]
    simp only [TagArray.touchedLine, if_pos hon, if_true]
    rw [CacheBlock.getStatus_allocate]
    exact if_neg hj
  · rw [hs]
    simp only [TagArray.touchedLine, if_pos hon, reduceCtorEq, if_false]
    change ((c.tagArray.lines p.idx).modifySector _ CacheBlock.reserveSectorAgain).getStatus j = _
    rw [CacheBlock.getStatus, CacheBlock.sectorAt_modifySector]
    exact congrArg SectorState.status (if_neg hj)

/-- And in its own: it is reserved. -/
theorem getStatus_touched_own (hon : cfg.allocPolicy = .onMiss) (hp : c.Probes addr (c.mfs mf) p)
    (hs : p.status = .hitReserved ∨ p.status = .miss ∨ p.status = .sectorMiss) {j : Fin 4}
    (hj : cfg.SameSector (cfg.sectorIndex (c.mfs mf).accessSectorMask) j) :
    (c.touched addr (c.mfs mf) time p).getStatus j = .reserved := by
  unfold Cache.touched
  rcases hs with hs | hs | hs
  · obtain ⟨setIndex, -, hprobed⟩ := TagArray.probed_of_probe hp
    obtain ⟨-, -, -, hmatch⟩ := hprobed.found (Or.inr (Or.inl hs))
    rw [hs, CacheBlock.matchStatus_eq_hitReserved] at hmatch
    rw [hs, ← hmatch]
    change (c.tagArray.lines p.idx).getStatus j = _
    rcases hj with hn | rfl
    · exact congrArg SectorState.status (CacheBlock.sectorAt_of_normal _ hn _ _)
    · rfl
  · rw [hs]
    simp only [TagArray.touchedLine, if_pos hon]
    rw [CacheBlock.getStatus_allocate]
    exact if_pos hj
  · rw [hs]
    simp only [TagArray.touchedLine, if_pos hon]
    change ((c.tagArray.lines p.idx).modifySector _ CacheBlock.reserveSectorAgain).getStatus j = _
    rw [CacheBlock.getStatus, CacheBlock.sectorAt_modifySector]
    exact congrArg SectorState.status (if_pos hj)

/-- **The other sectors** of the line of an access stay as they are, or are cleared if the line was
taken for the block. -/
theorem getStatus_other (h : LineAfter c cls addr mf time p line)
    (hon : cfg.allocPolicy = .onMiss) {j : Fin 4}
    (hj : ¬cfg.SameSector (cfg.sectorIndex (c.mfs mf).accessSectorMask) j) :
    line.getStatus j =
      if p.status = .miss then .invalid else (c.tagArray.lines p.idx).getStatus j := by
  cases h with
  | hit hs _ _ heffect =>
      rw [if_neg (by simp [hs])]
      exact heffect.getStatus_other hj
  | write hs _ _ _ heffect =>
      rw [← getStatus_touched_other hon hs hj, heffect.getStatus, if_neg hj]
  | fetch hs _ _ _ hfetcher =>
      rw [← getStatus_touched_other hon hs hj, hfetcher.getStatus]

end LineAfter

/-- The state that an access gives to its own sector, which was in state `before`. -/
inductive OwnStatus (cfg : CacheConfig) (m : MemFetch) (status : CacheRequestStatus)
    (before : CacheBlockState) : CacheBlockState → Prop
  | read (hs : status = .hit) (hread : m.isWrite = false) : OwnStatus cfg m status before before
  | evicted (hs : status = .hit) (hwrite : m.isWrite = true) (hevicts : evictsOnWriteHit cfg m) :
      OwnStatus cfg m status before .invalid
  | written (hwrite : m.isWrite = true) (hwrites : writesLine cfg m status) :
      OwnStatus cfg m status before .modified
  | fetched (hs : status ≠ .hit) : OwnStatus cfg m status before .reserved

/-- **The own sector** of an access. -/
theorem LineAfter.getStatus_own (h : LineAfter c cls addr mf time p line)
    (hon : cfg.allocPolicy = .onMiss) (hp : c.Probes addr (c.mfs mf) p) {j : Fin 4}
    (hj : cfg.SameSector (cfg.sectorIndex (c.mfs mf).accessSectorMask) j) :
    OwnStatus cfg (c.mfs mf) p.status ((c.tagArray.lines p.idx).getStatus j)
    (line.getStatus j) := by
  cases h with
  | hit hs _ _ heffect =>
      cases heffect with
      | read hread => exact .read hs hread
      | write hwrite _ _ hpolicy =>
          rw [CacheBlock.getStatus_readableUpdated, CacheBlock.getStatus_marked]
          rw [if_pos (show cfg.cacheType = .normal ∨ _ from hj)]
          exact .written hwrite (by rwa [writesLine, if_pos hs])
      | evict hwrite _ _ hpolicy =>
          rw [CacheBlock.getStatus_setStatus, if_pos (show cfg.cacheType = .normal ∨ _ from hj)]
          exact .evicted hs hwrite hpolicy
  | write hs hwrite _ _ heffect =>
      have hne : p.status ≠ .hit := by rcases hs with hs | hs | hs <;> simp [hs]
      have hwrites : writesLine cfg (c.mfs mf) p.status := by
        rw [writesLine, if_neg hne]
        cases heffect with
        | full hpolicy => exact Or.inl hpolicy
        | onRead hpolicy => exact Or.inr hpolicy
      rw [heffect.getStatus, if_pos hj]
      exact .written hwrite hwrites
  | fetch hs _ _ _ hfetcher =>
      have hne : p.status ≠ .hit := by rcases hs with hs | hs | hs <;> simp [hs]
      rw [hfetcher.getStatus, LineAfter.getStatus_touched_own hon hp hs hj]
      exact .fetched hne

/-! ### The fetches after an access -/

/-- An update that leaves the bytes and the sectors that a request is for. -/
structure SameMasks (s s' : Core cfg) (t : Token) : Prop where
  sectors : (s'.mfs t).accessSectorMask = (s.mfs t).accessSectorMask
  bytes : (s'.mfs t).accessByteMask = (s.mfs t).accessByteMask

namespace SameMasks

variable {s s₁ s₂ : Core cfg} {t : Token}

theorem trans (h : SameMasks s s₁ t) (h' : SameMasks s₁ s₂ t) : SameMasks s s₂ t :=
  ⟨h'.sectors.trans h.sectors, h'.bytes.trans h.bytes⟩

theorem of_eq (h : s₁.mfs t = s.mfs t) : SameMasks s s₁ t := ⟨by rw [h], by rw [h]⟩

theorem alloc (m : MemFetch) (ht : ∀ n, t = .created n → n < s.created) :
    SameMasks s (s.alloc m) t := by
  refine of_eq (Function.update_of_ne ?_ _ _)
  intro heq
  exact lt_irrefl _ (ht _ heq)

theorem sendOwn (m : Option MemFetch) (ht : ∀ n, t = .created n → n < s.created) :
    SameMasks s (s.sendOwn m) t := by
  cases m with
  | none => exact of_eq rfl
  | some m => exact (alloc m ht).trans (of_eq rfl)

theorem fetcher {reader : Token} {written : CacheBlock cfg.cacheType → CacheBlock cfg.cacheType}
    (h : Fetcher cfg cls mf s reader s₁ written) (ht : ∀ n, t = .created n → n < s.created) :
    SameMasks s s₁ t := by
  rcases h.reader_eq with ⟨-, rfl, -⟩ | ⟨hreader, -, -, hmfs⟩
  · exact of_eq rfl
  · refine of_eq (hmfs t ?_)
    rintro rfl
    exact lt_irrefl _ (ht _ hreader)

/-- A miss rewrites the address and the size of a request only. -/
theorem miss (s : Core cfg) (a : NewAddrType) (reader : Token) (idx : ℕ) :
    SameMasks s (s.miss a reader idx) t := by
  cases hl : s.entries.lookup a with
  | some l => exact of_eq (by simp [Core.miss_of_some hl, Core.join])
  | none =>
      rw [Core.miss_of_none hl]
      by_cases ht : t = reader
      · subst ht
        constructor <;> simp [Core.launch, Core.join]
      · exact of_eq (by simp [Core.launch, Core.join, Function.update_of_ne ht])

theorem complete (s : Core cfg) (reader : Token) (e : ExtraMfFields) :
    SameMasks s (s.complete reader e) t := by
  by_cases ht : t = reader
  · subst ht
    constructor <;> simp [Core.complete]
  · exact of_eq (by simp [Core.complete, Function.update_of_ne ht])

end SameMasks

/-- What is in the miss queue stays there. -/
theorem Core.mem_sendOwn {s : Core cfg} {t : Token} (ht : t ∈ s.missQueue) (m : Option MemFetch) :
    t ∈ (s.sendOwn m).missQueue := by
  cases m with
  | none => exact ht
  | some m => exact List.mem_append_left _ ht

/-- The core after the fetch of an access has the masks that its reader got. -/
private theorem sameMasks_of_fetch {s : Core cfg} (reader : Token) (a : NewAddrType) (idx : ℕ)
    (touched : CacheBlock cfg.cacheType)
    (written : CacheBlock cfg.cacheType → CacheBlock cfg.cacheType)
    (m : Option MemFetch) {t : Token} (ht : ∀ n, t = .created n → n < s.created) :
    SameMasks s ((((s.setLine idx touched).miss a reader idx).setLine idx
      (written (((s.setLine idx touched).miss a reader idx).lines idx))).sendOwn m) t := by
  have hline : SameMasks s (s.setLine idx touched) t := .of_eq rfl
  refine (hline.trans (.miss _ a reader idx)).trans ?_
  have hwritten : SameMasks ((s.setLine idx touched).miss a reader idx)
      (((s.setLine idx touched).miss a reader idx).setLine idx
        (written (((s.setLine idx touched).miss a reader idx).lines idx))) t := .of_eq rfl
  refine hwritten.trans (.sendOwn m fun n hn => ?_)
  simpa [Core.setLine] using ht n hn

/-- An access leaves the masks of the requests that were there. -/
theorem AccessCase.sameMasks (hcase : AccessCase c cls addr mf time status s') {t : Token}
    (ht : ∀ n, t = .created n → n < c.created) : SameMasks c.core s' t := by
  cases hcase with
  | refused => exact .of_eq rfl
  | hit => exact .of_eq (by simp [Core.setLine])
  | forward => exact .of_eq rfl
  | write p _ _ _ _ _ _ line forward =>
      have hline : SameMasks c.core ((c.core.enqueueIf forward mf).setLine p.idx line) t :=
        .of_eq (by simp [Core.setLine])
      refine hline.trans (.sendOwn _ fun n hn => ?_)
      simpa [Core.setLine, Cache.core] using ht n hn
  | fetch p _ _ _ reader s written hfetcher =>
      refine (SameMasks.fetcher hfetcher ht).trans (sameMasks_of_fetch _ _ _ _ _ _ fun n hn => ?_)
      rcases hfetcher.reader_eq with ⟨-, rfl, -⟩ | ⟨-, hcreated, -⟩
      · exact ht n hn
      · rw [hcreated]
        exact (ht n hn).trans (Nat.lt_succ_self _)

/-- A fetch that the access has sent, for the line of its probe and in the sector of the request. -/
structure Launched (c : Cache cfg) (addr : NewAddrType) (mf : Token) (time : Time) (s' : Core cfg)
    (p : ProbeResult) (t : Token) (e : ExtraMfFields) : Prop where
  probes : c.Probes addr (c.mfs mf) p
  status : p.status = .hitReserved ∨ p.status = .miss ∨ p.status = .sectorMiss
  fresh : c.core.entries.lookup (cfg.mshrAddr (c.mfs mf).addr) = none
  reader : t = mf ∨ t = .created c.created
  queued : t ∈ s'.missQueue
  idx : e.cacheIndex = p.idx
  block : e.blockAddr = cfg.mshrAddr (c.mfs mf).addr
  sectors : (s'.mfs t).accessSectorMask = (c.mfs mf).accessSectorMask
  bytes : (s'.mfs t).accessByteMask = (c.mfs mf).accessByteMask
  pinned : cfg.deferHitResponse = true → s'.pending.lookup t = some p.idx
  tenant : ∀ block, (c.touched addr (c.mfs mf) time p).BelongsTo block →
    (s'.lines p.idx).BelongsTo block
  line : ∀ j, (s'.lines p.idx).getStatus j = (c.touched addr (c.mfs mf) time p).getStatus j

/-- **Where the fetches of an access come from**: they were under way, or the access
has sent them. -/
theorem AccessCase.fetch_origin (hcase : AccessCase c cls addr mf time status s')
    (hcaller : ∀ n, mf ≠ .created n) {t : Token} {e : ExtraMfFields}
    (he : s'.extra.lookup t = some e) :
    c.core.extra.lookup t = some e ∨ ∃ p, Launched c addr mf time s' p t e := by
  cases hcase with
  | refused => exact Or.inl he
  | hit => exact Or.inl (by simpa [Core.setLine] using he)
  | forward => exact Or.inl he
  | write => exact Or.inl (by simpa [Core.setLine] using he)
  | fetch p hp hs _ reader s written hfetcher =>
      obtain ⟨-, hentries, -, hextra, -⟩ := hfetcher.frame
      obtain ⟨-, -, hbytes, hsectors⟩ := hfetcher.request
      have hreader : ∀ n, reader = .created n → n < s.created := by
        rcases hfetcher.reader_eq with ⟨rfl, -⟩ | ⟨rfl, hcreated, -⟩
        · exact fun n hn => absurd hn (hcaller n)
        · rintro n ⟨⟩
          rw [hcreated]
          exact Nat.lt_succ_self _
      have hmasks := sameMasks_of_fetch reader (cfg.mshrAddr (c.mfs mf).addr) p.idx
        (c.touched addr (c.mfs mf) time p) written
        (writebackOf cfg cls (c.mfs mf) p.status (c.tagArray.lines p.idx)) hreader
      dsimp only at he ⊢
      have hline := fetched_line hfetcher (cfg.mshrAddr (c.mfs mf).addr) p.idx
        (c.touched addr (c.mfs mf) time p)
        (writebackOf cfg cls (c.mfs mf) p.status (c.tagArray.lines p.idx))
      rw [(Core.sendOwn_frame _ _).2.2.2.1] at he
      rcases Core.extra_of_miss he with he | ⟨hl, rfl, rfl⟩
      · exact Or.inl (hextra ▸ he)
      · refine Or.inr ⟨p, hp, hs, hentries ▸ hl, ?_, ?_, rfl, rfl, hmasks.sectors.trans hsectors,
          hmasks.bytes.trans hbytes, fun hdefer => ?_, fun block hb => ?_, fun j => ?_⟩
        · rcases hfetcher.reader_eq with ⟨hreader, -⟩ | ⟨hreader, -⟩
          · exact Or.inl hreader
          · exact Or.inr hreader
        · refine Core.mem_sendOwn ?_ _
          have hnone : (s.setLine p.idx (c.touched addr (c.mfs mf) time p)).entries.lookup
              (cfg.mshrAddr (c.mfs mf).addr) = none := hl
          change t ∈ ((s.setLine p.idx _).miss _ t p.idx).missQueue
          rw [Core.miss_of_none hnone]
          exact List.mem_append_right _ (List.mem_singleton_self _)
        · simp [Core.setLine, Core.pinMiss, hdefer, Core.pin]
        · have hwritten := (SameTenant.fetcher hfetcher _).belongsTo hb
          rcases hline with hline | hline
          · rwa [hline, Function.update_self]
          · rw [hline, Function.update_self]
            exact hwritten.pin
        · rcases hline with hline | hline
          · rw [hline, Function.update_self, hfetcher.getStatus]
          · rw [hline, Function.update_self]
            exact hfetcher.getStatus _ j

/-- The fetches that are under way stay under way. -/
theorem AccessCase.fetch_stays (hcase : AccessCase c cls addr mf time status s')
    (hnew : mf ∉ c.core.extra) (hcreated : .created c.created ∉ c.core.extra) {t : Token}
    {e : ExtraMfFields} (he : c.core.extra.lookup t = some e) : s'.extra.lookup t = some e := by
  cases hcase with
  | refused => exact he
  | hit => simpa [Core.setLine] using he
  | forward => exact he
  | write => simpa [Core.setLine] using he
  | fetch p hp hs _ reader s written hfetcher =>
      have hextra : s.extra = c.core.extra := hfetcher.frame.2.2.2.1
      have hne : t ≠ reader := by
        have hmem : t ∈ c.core.extra := AList.lookup_isSome.1 (by rw [he]; rfl)
        rcases hfetcher.reader_eq with ⟨rfl, -⟩ | ⟨rfl, -⟩
        · exact fun ht => hnew (ht ▸ hmem)
        · exact fun ht => hcreated (ht ▸ hmem)
      simp only [Core.sendOwn_frame, Core.setLine, Core.miss_extra, hextra]
      split
      · exact he
      · rw [AList.lookup_insert_ne hne]
        exact he

end Access

/-- An access leaves the two addresses of each line in agreement. -/
theorem Tagged.access {c : Cache cfg} {cls : CacheClass} {mf : Token} {time : Time}
    {status : CacheRequestStatus} {s' : Core cfg} (h : Tagged c.core)
    (hon : cfg.allocPolicy = .onMiss)
    (hcase : AccessCase c cls (c.mfs mf).addr mf time status s') : Tagged s' := by
  rcases hcase.line_after with ⟨hlines, -⟩ | ⟨p, line, hp, hline, hlines⟩
  · intro i
    rw [hlines]
    exact h i
  · obtain ⟨b, hb, -, hlines⟩ := hline.exists_line hon h hp hlines
    have hother : ∀ i ≠ p.idx, s'.lines i = c.core.lines i := fun i hi => by
      rw [hlines, Function.update_of_ne hi]
      rfl
    have hself : (s'.lines p.idx).BelongsTo (cfg.blockAddr (c.mfs mf).addr) := by
      rwa [hlines, Function.update_self]
    exact h.of_line hother hself

/-! ### Blocks in their sets -/

/-- A line that holds a block lies in the set of the block, and no other line holds the block. -/
structure Housed (s : Core cfg) : Prop where
  home : ∀ i, (s.lines i).isInvalidLine = false →
    ∃ setIndex, cfg.setIndex (s.lines i).tag = .ok setIndex ∧ i ∈ TagArray.waysOf cfg setIndex
  unique : ∀ i j, (s.lines i).isInvalidLine = false → (s.lines j).isInvalidLine = false →
    (s.lines i).tag = (s.lines j).tag → i = j

/-- A line that the tags have found holds the block. -/
theorem Cache.Probes.holds {c : Cache cfg} {addr : NewAddrType} {m : MemFetch} {p : ProbeResult}
    (hp : c.Probes addr m p)
    (hs : p.status = .hit ∨ p.status = .hitReserved ∨ p.status = .sectorMiss) :
    (c.tagArray.lines p.idx).tag = cfg.blockAddr addr ∧
      (c.tagArray.lines p.idx).isInvalidLine = false := by
  obtain ⟨setIndex, -, hprobed⟩ := TagArray.probed_of_probe hp
  obtain ⟨-, htag, -, hmatch⟩ := hprobed.found hs
  rw [CacheConfig.tag_eq_blockAddr, CacheConfig.blockAddr_blockAddr] at htag
  refine ⟨htag, ?_⟩
  rw [← Bool.not_eq_true]
  intro hinvalid
  have hnone : (c.tagArray.lines p.idx).matchStatus (cfg.sectorIndex m.accessSectorMask) m.isWrite =
      none := CacheBlock.matchStatus_eq_none.2
    ⟨(CacheBlock.isInvalidLine_iff _).1 hinvalid _, hinvalid⟩
  rw [hnone] at hmatch
  cases hmatch

/-- And passes its sector mask. -/
theorem Cache.Probes.sectorIndex {c : Cache cfg} {addr : NewAddrType} {m : MemFetch}
    {p : ProbeResult} (hp : c.Probes addr m p)
    (hs : p.status = .hit ∨ p.status = .hitReserved ∨ p.status = .sectorMiss) :
    cfg.getSectorIndex m.accessSectorMask = .ok (cfg.sectorIndex m.accessSectorMask) ∧
      (c.tagArray.lines p.idx).matchStatus (cfg.sectorIndex m.accessSectorMask) m.isWrite =
        some p.status := by
  obtain ⟨setIndex, -, hprobed⟩ := TagArray.probed_of_probe hp
  exact (hprobed.found hs).2.2

namespace Housed

variable {s s' : Core cfg}

/-- **The tags find the line that holds a block.** -/
theorem finds {c : Cache cfg} (h : Housed c.core) {addr : NewAddrType} {m : MemFetch}
    {p : ProbeResult} (hp : c.Probes addr m p) {i : ℕ}
    (hlive : (c.tagArray.lines i).isInvalidLine = false)
    (htag : (c.tagArray.lines i).tag = cfg.blockAddr addr) :
    p.idx = i ∧ (p.status = .hit ∨ p.status = .hitReserved ∨ p.status = .sectorMiss) := by
  obtain ⟨setIndex, hset, hprobed⟩ := TagArray.probed_of_probe hp
  obtain ⟨setIndex', hset', hway⟩ := h.home i hlive
  have hsame : cfg.setIndex (cfg.blockAddr addr) = .ok setIndex' := htag ▸ hset'
  rw [hset] at hsame
  cases hsame
  have hpresent : ¬(p.status = .miss ∨ p.status = .reservationFail) := by
    intro hs
    refine hprobed.absent hs i hway ⟨?_, hlive⟩
    rw [htag, CacheConfig.tag_eq_blockAddr, CacheConfig.blockAddr_blockAddr]
  have hs : p.status = .hit ∨ p.status = .hitReserved ∨ p.status = .sectorMiss := by
    have hne := hprobed.ne_mshrHit
    cases hst : p.status <;> simp_all
  obtain ⟨hfound, hheld⟩ := hp.holds hs
  exact ⟨h.unique p.idx i hheld hlive (hfound.trans htag.symm), hs⟩

/-- Lines that hold their blocks held them before. -/
theorem of_lines (h : Housed s) (hlines : ∀ i, (s'.lines i).isInvalidLine = false →
    (s.lines i).isInvalidLine = false ∧ (s'.lines i).tag = (s.lines i).tag) : Housed s' where
  home i hi := by
    obtain ⟨hlive, htag⟩ := hlines i hi
    rw [htag]
    exact h.home i hlive
  unique i j hi hj htags := by
    obtain ⟨hilive, hitag⟩ := hlines i hi
    obtain ⟨hjlive, hjtag⟩ := hlines j hj
    exact h.unique i j hilive hjlive (hitag.symm.trans (htags.trans hjtag))

/-- One line changes: it held the block that it holds now, if any. -/
theorem of_line (h : Housed s) {idx : ℕ} {b : CacheBlock cfg.cacheType}
    (hlines : s'.lines = Function.update s.lines idx b)
    (hb : b.isInvalidLine = false →
      (s.lines idx).isInvalidLine = false ∧ b.tag = (s.lines idx).tag) : Housed s' := by
  refine h.of_lines fun i hi => ?_
  rw [hlines] at hi ⊢
  by_cases hidx : i = idx
  · subst hidx
    rw [Function.update_self] at hi ⊢
    exact hb hi
  · rw [Function.update_of_ne hidx] at hi ⊢
    exact ⟨hi, rfl⟩

/-- A line is taken for a block that no other way of the set holds. -/
theorem of_taken (h : Housed s) {idx setIndex : ℕ} {b : CacheBlock cfg.cacheType}
    (hlines : s'.lines = Function.update s.lines idx b)
    (hset : cfg.setIndex b.tag = .ok setIndex) (hway : idx ∈ TagArray.waysOf cfg setIndex)
    (habsent : ∀ j ∈ TagArray.waysOf cfg setIndex, j ≠ idx → ¬TagArray.Holds s.lines j b.tag) :
    Housed s' := by
  have hold : ∀ j ≠ idx, (s'.lines j).isInvalidLine = false → (s.lines j).isInvalidLine = false ∧
      (s'.lines j).tag = (s.lines j).tag ∧ (s'.lines j).tag ≠ b.tag := by
    intro j hj hlive
    rw [hlines, Function.update_of_ne hj] at hlive ⊢
    refine ⟨hlive, rfl, fun htag => ?_⟩
    obtain ⟨setIndex', hset', hway'⟩ := h.home j hlive
    rw [htag, hset] at hset'
    cases hset'
    exact habsent j hway' hj ⟨htag, hlive⟩
  have hself : s'.lines idx = b := by rw [hlines, Function.update_self]
  constructor
  · intro i hi
    by_cases hidx : i = idx
    · subst hidx
      exact ⟨setIndex, hself ▸ hset, hway⟩
    · obtain ⟨hlive, htag, -⟩ := hold i hidx hi
      rw [htag]
      exact h.home i hlive
  · intro i j hi hj htags
    by_cases hidx : i = idx
    · by_cases hjdx : j = idx
      · rw [hidx, hjdx]
      · subst hidx
        rw [hself] at htags
        exact absurd htags.symm (hold j hjdx hj).2.2
    · by_cases hjdx : j = idx
      · subst hjdx
        rw [hself] at htags
        exact absurd htags (hold i hidx hi).2.2
      · obtain ⟨hilive, hitag, -⟩ := hold i hidx hi
        obtain ⟨hjlive, hjtag, -⟩ := hold j hjdx hj
        exact h.unique i j hilive hjlive (hitag.symm.trans (htags.trans hjtag))

/-- An access keeps the blocks in their sets. -/
theorem access {c : Cache cfg} {cls : CacheClass} {mf : Token} {time : Time}
    {status : CacheRequestStatus} (h : Housed c.core) (hon : cfg.allocPolicy = .onMiss)
    (htagged : Tagged c.core)
    (hcase : AccessCase c cls (c.mfs mf).addr mf time status s') : Housed s' := by
  rcases hcase.line_after with ⟨hlines, -⟩ | ⟨p, line, hp, hline, hlines⟩
  · refine h.of_lines fun i hi => ?_
    rw [hlines] at hi ⊢
    exact ⟨hi, rfl⟩
  · obtain ⟨b, ⟨htag, -⟩, -, hlines⟩ := hline.exists_line hon htagged hp hlines
    by_cases hmiss : p.status = .miss
    · obtain ⟨setIndex, hset, hprobed⟩ := TagArray.probed_of_probe hp
      refine h.of_taken hlines (by rw [htag]; exact hset) (hprobed.miss hmiss).1 fun j hj _ => ?_
      rw [htag]
      have habsent := hprobed.absent (Or.inl hmiss) j hj
      rwa [CacheConfig.tag_eq_blockAddr, CacheConfig.blockAddr_blockAddr] at habsent
    · obtain ⟨hfound, hheld⟩ := hp.holds (hline.found hmiss)
      exact h.of_line hlines fun _ => ⟨hheld, htag.trans hfound.symm⟩

/-- A fill of a line that has not lost its block keeps the blocks in their sets. -/
theorem fill (h : Housed s) {idx : ℕ} {i j : Fin 4} {byteMask : MemAccessByteMask}
    (hlines : s'.lines = Function.update s.lines idx ((s.lines idx).fill i byteMask))
    (hheld : (s.lines idx).getStatus j ≠ .invalid) : Housed s' :=
  h.of_line hlines fun _ =>
    ⟨CacheBlock.isInvalidLine_of_getStatus _ hheld, (SameTenant.fill _ i byteMask).tag⟩

end Housed

/-! ### Fetches and their lines -/

/-- A fetch under way will fill sector `i` of line `idx`. -/
def Core.Fetches (s : Core cfg) (idx : ℕ) (i : Fin 4) : Prop :=
  ∃ t e, s.extra.lookup t = some e ∧ e.cacheIndex = idx ∧
    cfg.SameSector (cfg.sectorIndex (s.mfs t).accessSectorMask) i

/-- The line that a fetch will fill belongs to the block of the fetch, and has not lost the
sector. -/
structure Anchored (s : Core cfg) : Prop where
  tenant : ∀ t e, s.extra.lookup t = some e →
    (s.lines e.cacheIndex).BelongsTo (cfg.blockAddr e.blockAddr)
  sector : ∀ t e, s.extra.lookup t = some e →
    (s.lines e.cacheIndex).getStatus (cfg.sectorIndex (s.mfs t).accessSectorMask) ≠ .invalid

/-- An access takes no line from a fetch under way, and evicts no sector from one. -/
def Cache.Spares (c : Cache cfg) (addr : NewAddrType) (m : MemFetch) : Prop :=
  ∀ p, c.Probes addr m p →
    (takesLine cfg m p.status → ∀ i, ¬c.core.Fetches p.idx i) ∧
      (p.status = .hit → m.isWrite = true → evictsOnWriteHit cfg m →
        ¬c.core.Fetches p.idx (cfg.sectorIndex m.accessSectorMask))

/-- A line that an access takes is taken for its block. -/
theorem LineAfter.takesLine {c : Cache cfg} {cls : CacheClass} {addr : NewAddrType} {mf : Token}
    {time : Time} {p : ProbeResult} {line : CacheBlock cfg.cacheType}
    (h : LineAfter c cls addr mf time p line) (hon : cfg.allocPolicy = .onMiss)
    (hmiss : p.status = .miss) : takesLine cfg (c.mfs mf) p.status := by
  refine ⟨hmiss, hon, fun hwrite hpolicy => ?_⟩
  cases h with
  | hit hs =>
      rw [hmiss] at hs
      cases hs
  | write _ _ _ _ heffect =>
      cases heffect with
      | full hfetch =>
          rw [hpolicy] at hfetch
          cases hfetch
      | onRead hfetch =>
          rw [hpolicy] at hfetch
          cases hfetch
  | fetch _ _ _ _ hfetcher =>
      cases hfetcher with
      | read hread =>
          have hread' : (c.mfs mf).isWrite = false := hread
          rw [hread'] at hwrite
          cases hwrite
      | naive _ _ _ hallocate =>
          rw [hpolicy] at hallocate
          cases hallocate
      | fetchOnWrite _ _ _ hfetch =>
          rw [hpolicy] at hfetch
          cases hfetch

/-- **A sector that is held stays held, by the same block**, unless its line is taken or the
sector is evicted. -/
theorem AccessCase.sector_stays {c : Cache cfg} {cls : CacheClass} {mf : Token} {time : Time}
    {status : CacheRequestStatus} {s' : Core cfg}
    (hcase : AccessCase c cls (c.mfs mf).addr mf time status s') (hon : cfg.allocPolicy = .onMiss)
    (htagged : Tagged c.core) {i : ℕ} {j : Fin 4}
    (hstate : (c.tagArray.lines i).getStatus j ≠ .invalid)
    (hkeeps : ∀ p line, c.Probes (c.mfs mf).addr (c.mfs mf) p →
      LineAfter c cls (c.mfs mf).addr mf time p line → p.idx = i → p.status ≠ .miss ∧
        (p.status = .hit → (c.mfs mf).isWrite = true → evictsOnWriteHit cfg (c.mfs mf) →
          ¬cfg.SameSector (cfg.sectorIndex (c.mfs mf).accessSectorMask) j)) :
    (∀ block, (c.tagArray.lines i).BelongsTo block → (s'.lines i).BelongsTo block) ∧
      (s'.lines i).getStatus j ≠ .invalid := by
  rcases hcase.line_after with ⟨hlines, -⟩ | ⟨p, line, hp, hline, hlines⟩
  · rw [hlines]
    exact ⟨fun _ hb => hb, hstate⟩
  obtain ⟨b, hb, hstatus, hlines⟩ := hline.exists_line hon htagged hp hlines
  by_cases hidx : p.idx = i
  · obtain ⟨hmiss, hevicts⟩ := hkeeps p line hp hline hidx
    subst hidx
    rw [hlines, Function.update_self, hstatus]
    constructor
    · intro block hblock
      rwa [← hblock.1, (hp.holds (hline.found hmiss)).1]
    · by_cases hj : cfg.SameSector (cfg.sectorIndex (c.mfs mf).accessSectorMask) j
      · have hown := hline.getStatus_own hon hp hj
        generalize line.getStatus _ = after at hown ⊢
        cases hown with
        | read => exact hstate
        | evicted hs hwrite hevicted => exact absurd hj (hevicts hs hwrite hevicted)
        | written => simp
        | fetched => simp
      · rw [hline.getStatus_other hon hj, if_neg hmiss]
        exact hstate
  · rw [hlines, Function.update_of_ne (Ne.symm hidx)]
    exact ⟨fun _ hb => hb, hstate⟩

namespace Anchored

variable {s s' : Core cfg}

/-- Nothing changes but the number of missing responses, and the states of lines that no fetch
waits for. -/
theorem of_same (h : Anchored s)
    (hextra : ∀ t e, s'.extra.lookup t = some e → ∃ e₀, s.extra.lookup t = some e₀ ∧
      e.cacheIndex = e₀.cacheIndex ∧ e.blockAddr = e₀.blockAddr ∧ SameMasks s s' t)
    (hlines : ∀ t e, s.extra.lookup t = some e →
      (∀ block, (s.lines e.cacheIndex).BelongsTo block → (s'.lines e.cacheIndex).BelongsTo block) ∧
        ((s.lines e.cacheIndex).getStatus (cfg.sectorIndex (s.mfs t).accessSectorMask) ≠ .invalid →
          (s'.lines e.cacheIndex).getStatus (cfg.sectorIndex (s.mfs t).accessSectorMask) ≠
            .invalid)) : Anchored s' where
  tenant t e he := by
    obtain ⟨e₀, he₀, hidx, hblock, -⟩ := hextra t e he
    rw [hidx, hblock]
    exact (hlines t e₀ he₀).1 _ (h.tenant t e₀ he₀)
  sector t e he := by
    obtain ⟨e₀, he₀, hidx, -, hmasks⟩ := hextra t e he
    rw [hidx, hmasks.sectors]
    exact (hlines t e₀ he₀).2 (h.sector t e₀ he₀)

section Access

variable {c : Cache cfg} {cls : CacheClass} {mf : Token} {time : Time} {status : CacheRequestStatus}

/-- The line of a fetch that was under way, after an access that spares it. -/
theorem line_of_access (h : Anchored c.core) (hon : cfg.allocPolicy = .onMiss)
    (htagged : Tagged c.core) (hspares : c.Spares (c.mfs mf).addr (c.mfs mf))
    (hcase : AccessCase c cls (c.mfs mf).addr mf time status s') {t : Token} {e : ExtraMfFields}
    (he : c.core.extra.lookup t = some e) :
    (s'.lines e.cacheIndex).BelongsTo (cfg.blockAddr e.blockAddr) ∧
      (s'.lines e.cacheIndex).getStatus (cfg.sectorIndex (c.mfs t).accessSectorMask) ≠
        .invalid := by
  obtain ⟨hblock, hstate⟩ := hcase.sector_stays hon htagged (h.sector t e he)
    fun p line hp hline hidx => by
      refine ⟨fun hmiss => ?_, fun hs hwrite hevicts hsame => ?_⟩
      · exact (hspares p hp).1 (hline.takesLine hon hmiss) _ ⟨t, e, he, hidx.symm, .refl _ _⟩
      · exact (hspares p hp).2 hs hwrite hevicts ⟨t, e, he, hidx.symm, hsame.symm⟩
  exact ⟨hblock _ (h.tenant t e he), hstate⟩

/-- **An access that spares the fetches keeps them anchored**, and anchors the one that it sends. -/
theorem access (h : Anchored c.core) (hcfg : cfg.Checked) (hon : cfg.allocPolicy = .onMiss)
    (htagged : Tagged c.core) (hcaller : ∀ n, mf ≠ .created n)
    (hcreated : ∀ n, .created n ∈ c.core.extra → n < c.created)
    (hspares : status ≠ .reservationFail → c.Spares (c.mfs mf).addr (c.mfs mf))
    (hcase : AccessCase c cls (c.mfs mf).addr mf time status s') : Anchored s' := by
  by_cases hrefused : status = .reservationFail
  · subst hrefused
    rw [hcase.refused_eq]
    exact h
  have hold : ∀ t e, c.core.extra.lookup t = some e →
      (s'.lines e.cacheIndex).BelongsTo (cfg.blockAddr e.blockAddr) ∧
        (s'.lines e.cacheIndex).getStatus (cfg.sectorIndex (s'.mfs t).accessSectorMask) ≠
          .invalid := by
    intro t e he
    have hmasks : SameMasks c.core s' t := hcase.sameMasks fun n hn =>
      hcreated n (hn ▸ AList.lookup_isSome.1 (by rw [he]; rfl))
    rw [hmasks.sectors]
    exact h.line_of_access hon htagged (hspares hrefused) hcase he
  have hnew : ∀ t e p, Launched c (c.mfs mf).addr mf time s' p t e →
      (s'.lines e.cacheIndex).BelongsTo (cfg.blockAddr e.blockAddr) ∧
        (s'.lines e.cacheIndex).getStatus (cfg.sectorIndex (s'.mfs t).accessSectorMask) ≠
          .invalid := by
    intro t e p hlaunched
    rw [hlaunched.block, hcfg.blockAddr_mshrAddr, hlaunched.sectors, hlaunched.idx, hlaunched.line,
      LineAfter.getStatus_touched_own hon hlaunched.probes hlaunched.status (.refl _ _)]
    exact ⟨hlaunched.tenant _ (htagged.touched hon hlaunched.probes hlaunched.status time), by simp⟩
  constructor
  · intro t e he
    rcases hcase.fetch_origin hcaller he with he | ⟨p, hlaunched⟩
    · exact (hold t e he).1
    · exact (hnew t e p hlaunched).1
  · intro t e he
    rcases hcase.fetch_origin hcaller he with he | ⟨p, hlaunched⟩
    · exact (hold t e he).2
    · exact (hnew t e p hlaunched).2

end Access

end Anchored

/-! ### One step -/

/-- Flushes and invalidations. -/
def Op.clears : Op → Bool
  | .flush => true
  | .invalidate => true
  | _ => false

/-- Flushes and invalidations come when no fetch is under way. -/
def System.Quiet (sys : System cfg) (o : Op) : Prop :=
  o = .flush ∨ o = .invalidate → ∀ t, sys.core.extra.lookup t = none

/-- A line that survives a flush was not flushed. -/
theorem TagArray.isInvalidLine_of_flush (ta : TagArray cfg) {i : ℕ}
    (h : (ta.flush.lines i).isInvalidLine = false) : (ta.lines i).isInvalidLine = false := by
  unfold TagArray.flush at h
  split at h
  · dsimp only at h
    split at h
    · rw [(CacheBlock.isInvalidLine_iff _).2 fun j => getStatus_invalidateLine _ j] at h
      cases h
    · exact h
  · exact h

theorem TagArray.isInvalidLine_of_invalidate (ta : TagArray cfg) {i : ℕ}
    (h : (ta.invalidate.lines i).isInvalidLine = false) : (ta.lines i).isInvalidLine = false := by
  unfold TagArray.invalidate at h
  dsimp only at h
  split at h
  · rw [(CacheBlock.isInvalidLine_iff _).2 fun j => getStatus_invalidateLine _ j] at h
    cases h
  · exact h

/-- Blocks in their sets, and fetches with their lines. -/
structure Resident (s : Core cfg) : Prop where
  tagged : Tagged s
  housed : Housed s
  anchored : Anchored s

/-- The object of a request that fetches is not rebuilt. -/
theorem System.build_mfs {sys : System cfg} (htracked : Tracked sys.core sys.sent) {n : ℕ}
    (hnew : .caller n ∉ sys.held) (m : MemFetch) {t : Token} (ht : t ∈ sys.core.extra) :
    (sys.build n m).mfs t = sys.core.mfs t := by
  refine Function.update_of_ne ?_ _ _
  rintro rfl
  obtain ⟨e, he⟩ := Option.isSome_iff_exists.1 (AList.lookup_isSome.2 ht)
  exact hnew (List.mem_append_right _ (htracked.mem_sent he))

/-- What a complete response does: it fills the sector of its request and is forgotten. -/
structure Completed (s s' : Core cfg) (mf : Token) (e : ExtraMfFields) : Prop where
  extra : s'.extra = s.extra.erase mf
  queue : s'.missQueue = s.missQueue
  masks : ∀ t, t ∈ s.extra → SameMasks s s' t
  lines : s'.lines = Function.update s.lines e.cacheIndex ((s.lines e.cacheIndex).fill
    (cfg.sectorIndex (s.mfs mf).accessSectorMask) (s.mfs mf).accessByteMask)

/-- The fetches that are left after a response were there before it. -/
theorem Completed.lookup {s s' : Core cfg} {mf : Token} {e : ExtraMfFields}
    (h : Completed s s' mf e) {t : Token} {e' : ExtraMfFields}
    (he : s'.extra.lookup t = some e') : t ≠ mf ∧ s.extra.lookup t = some e' ∧
    SameMasks s s' t := by
  rw [h.extra] at he
  by_cases ht : t = mf
  · rw [ht, AList.lookup_erase] at he
    cases he
  · rw [AList.lookup_erase_ne ht] at he
    exact ⟨ht, he, h.masks t (AList.lookup_isSome.1 (by rw [he]; rfl))⟩

/-- A complete response, in a cache that allocates on misses. -/
theorem System.completed {sys sys' : System cfg} {o : Op} {c : Cache cfg} {mf : Token} {time : Time}
    {e : ExtraMfFields} {lines : ℕ → CacheBlock cfg.cacheType} (hon : cfg.allocPolicy = .onMiss)
    (htracked : Tracked sys.core sys.sent) (hpromise : sys.Promise o)
    (horigin : o = .fill mf time ∧ c = sys.cache ∨
      ∃ n m, o = .fillChild n m time ∧ m.originalMf = some mf ∧ c = sys.build n m)
    (he : sys.core.extra.lookup mf = some e) (hfill : System.FillCase c (c.mfs mf) e time lines)
    (hcore : sys'.core = { c.core.complete mf e with lines }) :
    Completed sys.core sys'.core mf e := by
  have hc : c.tagArray.lines = sys.core.lines ∧ c.core.extra = sys.core.extra ∧
      c.core.missQueue = sys.core.missQueue ∧
      ∀ t, t ∈ sys.core.extra → c.core.mfs t = sys.core.mfs t := by
    rcases horigin with ⟨-, rfl⟩ | ⟨n, m, rfl, -, rfl⟩
    · exact ⟨rfl, rfl, rfl, fun _ _ => rfl⟩
    · exact ⟨rfl, rfl, rfl, fun t ht => System.build_mfs htracked hpromise.2.1 m ht⟩
  have hmfs : c.mfs mf = sys.core.mfs mf :=
    hc.2.2.2 mf (AList.lookup_isSome.1 (by rw [he]; rfl))
  cases hfill with
  | onFill hpolicy =>
      rw [hon] at hpolicy
      cases hpolicy
  | onMiss _ hi =>
      rw [hcore]
      refine ⟨?_, ?_, fun t ht => ?_, ?_⟩
      · rw [← hc.2.1]
        rfl
      · rw [← hc.2.2.1]
        rfl
      · have hbuilt : SameMasks sys.core c.core t := .of_eq (hc.2.2.2 t ht)
        exact (hbuilt.trans (.complete _ mf e)).trans (.of_eq rfl)
      · rw [← hc.1, ← hmfs]

/-- The return of a request takes a pin from a line, and nothing else. -/
theorem Core.unpin_pins (s : Core cfg) (mf : Token) (i : ℕ) :
    ∃ n, (s.unpin mf).lines i = { s.lines i with pendingResponseCount := n } := by
  unfold unpin
  split
  · exact ⟨_, rfl⟩
  · next idx _ =>
      by_cases hi : i = idx
      · subst hi
        exact ⟨_, Function.update_self _ _ _⟩
      · exact ⟨_, Function.update_of_ne hi _ _⟩

namespace Resident

variable {sys sys' : System cfg} {cls : CacheClass} {o : Op} {b : Obs}

/-- Nothing changes but pins, access times and the number of missing responses. -/
theorem of_same {s s' : Core cfg} (h : Resident s)
    (hextra : ∀ t e, s'.extra.lookup t = some e → ∃ e₀, s.extra.lookup t = some e₀ ∧
      e.cacheIndex = e₀.cacheIndex ∧ e.blockAddr = e₀.blockAddr ∧ SameMasks s s' t)
    (hlines : ∀ i, (∀ block, (s.lines i).BelongsTo block → (s'.lines i).BelongsTo block) ∧
      ∀ j, (s'.lines i).getStatus j = (s.lines i).getStatus j) : Resident s' where
  tagged i := by
    have hline := (hlines i).1 _ (h.tagged i)
    rwa [← hline.1] at hline
  housed := h.housed.of_lines fun i hi =>
    ⟨(CacheBlock.isInvalidLine_congr (hlines i).2).symm.trans hi,
      ((hlines i).1 _ (h.tagged i)).1⟩
  anchored := h.anchored.of_same hextra fun t e _ =>
    ⟨(hlines e.cacheIndex).1, fun hstatus => by rwa [(hlines e.cacheIndex).2]⟩

/-- The line keeps its block and its sectors. -/
theorem unpin_line (s : Core cfg) (mf : Token) (i : ℕ) :
    (∀ block, (s.lines i).BelongsTo block → ((s.unpin mf).lines i).BelongsTo block) ∧
      ((s.unpin mf).lines i).sectors = (s.lines i).sectors := by
  obtain ⟨n, hn⟩ := s.unpin_pins mf i
  rw [hn]
  exact ⟨fun _ hb => hb, rfl⟩

theorem unpin {s s₁ : Core cfg} (h : Resident s) (hlines : s₁.lines = s.lines)
    (hextra : s₁.extra = s.extra) (hmfs : s₁.mfs = s.mfs) (mf : Token) :
    Resident (s₁.unpin mf) := by
  refine h.of_same (fun t e he => ?_) fun i => ?_
  · simp only [Core.unpin_frame, hextra] at he
    exact ⟨e, he, rfl, rfl, .of_eq (by simp [hmfs])⟩
  · rw [← hlines]
    obtain ⟨hblock, hsectors⟩ := unpin_line s₁ mf i
    exact ⟨hblock, fun j => by rw [CacheBlock.getStatus, CacheBlock.sectorAt, hsectors]; rfl⟩

/-- An access that spares the fetches. -/
theorem access {c : Cache cfg} {mf : Token} {time : Time} {status : CacheRequestStatus}
    {s' : Core cfg} (h : Resident c.core) (hcfg : cfg.Checked) (hon : cfg.allocPolicy = .onMiss)
    (hcaller : ∀ n, mf ≠ .created n) (hcreated : ∀ n, .created n ∈ c.core.extra → n < c.created)
    (hspares : status ≠ .reservationFail → c.Spares (c.mfs mf).addr (c.mfs mf))
    (hcase : AccessCase c cls (c.mfs mf).addr mf time status s') : Resident s' where
  tagged := h.tagged.access hon hcase
  housed := h.housed.access hon h.tagged hcase
  anchored := h.anchored.access hcfg hon h.tagged hcaller hcreated hspares hcase

/-- Nothing is cached at the start, and nothing is fetched. -/
theorem init (mfs : Token → MemFetch) : Resident (System.init cfg mfs).core := by
  have hinvalid : ∀ i, ((System.init cfg mfs).core.lines i).isInvalidLine = true := fun i =>
    (CacheBlock.isInvalidLine_iff _).2 fun j =>
      congrArg SectorState.status (CacheBlock.sectorAt_init j)
  have hextra : ∀ t e, (System.init cfg mfs).core.extra.lookup t ≠ some e := by
    intro t e he
    cases he
  refine ⟨fun i => ⟨rfl, rfl⟩, ⟨fun i hi => ?_, fun i j hi => ?_⟩,
    fun t e he => absurd he (hextra t e), fun t e he => absurd he (hextra t e)⟩
  · rw [hinvalid i] at hi
    cases hi
  · rw [hinvalid i] at hi
    cases hi

/-- The state in which the object of a request was built. -/
theorem build (h : Resident sys.core) (htracked : Tracked sys.core sys.sent) {n : ℕ}
    (hnew : .caller n ∉ sys.held) (m : MemFetch) : Resident (sys.build n m).core := by
  refine h.of_same (fun t e he => ⟨e, he, rfl, rfl, .of_eq ?_⟩) fun i =>
    ⟨fun _ hb => hb, fun _ => rfl⟩
  have hlookup : sys.core.extra.lookup t = some e := he
  exact System.build_mfs htracked hnew m (AList.lookup_isSome.1 (by rw [hlookup]; rfl))

/-- A flush or an invalidation, when no fetch is under way. -/
theorem clear {s s' : Core cfg} (h : Resident s) (hextra : s'.extra = s.extra)
    (hnone : ∀ t, s.extra.lookup t = none) (hlines : ∀ i, SameTenant (s.lines i) (s'.lines i))
    (hlive : ∀ i, (s'.lines i).isInvalidLine = false → (s.lines i).isInvalidLine = false) :
    Resident s' where
  tagged := h.tagged.of_sameTenant hlines
  housed := h.housed.of_lines fun i hi => ⟨hlive i hi, (hlines i).tag⟩
  anchored := by
    have hempty : ∀ t e, s'.extra.lookup t ≠ some e := by
      intro t e he
      rw [hextra, hnone t] at he
      cases he
    exact ⟨fun t e he => absurd he (hempty t e), fun t e he => absurd he (hempty t e)⟩

/-- The response to a fetch. -/
theorem complete {s s' : Core cfg} (h : Resident s) {mf : Token} {e : ExtraMfFields}
    (he : s.extra.lookup mf = some e) (hdone : Completed s s' mf e) : Resident s' where
  tagged := by
    refine h.tagged.of_sameTenant fun j => ?_
    rw [hdone.lines]
    by_cases hj : j = e.cacheIndex
    · subst hj
      rw [Function.update_self]
      exact .fill _ _ _
    · rw [Function.update_of_ne hj]
      exact .refl _
  housed := h.housed.fill hdone.lines (h.anchored.sector mf e he)
  anchored := by
    refine h.anchored.of_same (fun t e' he' => ?_) fun t e' he' => ?_
    · obtain ⟨-, hbefore, hmasks⟩ := hdone.lookup he'
      exact ⟨e', hbefore, rfl, rfl, hmasks⟩
    · rw [hdone.lines]
      by_cases hidx : e'.cacheIndex = e.cacheIndex
      · rw [hidx, Function.update_self]
        refine ⟨fun block hb => (SameTenant.fill _ _ _).belongsTo hb, fun hstatus => ?_⟩
        rw [CacheBlock.getStatus_fill]
        split
        · split <;> simp
        · exact hstatus
      · rw [Function.update_of_ne hidx]
        exact ⟨fun _ hb => hb, id⟩

/-- **One step that spares the fetches keeps blocks in their sets and fetches with their lines.** -/
theorem step (h : Resident sys.core) (hcfg : cfg.Checked) (hon : cfg.allocPolicy = .onMiss)
    (htracked : Tracked sys.core sys.sent) (hpromise : sys.Promise o)
    (hquiet : sys.Quiet o)
    (hspares : ∀ n m time events status joined, o = .access n m time events →
      b = .access (.caller n) m status joined → status ≠ .reservationFail →
        (sys.build n m).Spares m.addr m)
    (hperform : sys.perform cls o = .ok (sys', b)) : Resident sys'.core := by
  have hkept : ∀ {s' : Core cfg}, s'.extra = sys.core.extra → s'.mfs = sys.core.mfs →
      ∀ t e, s'.extra.lookup t = some e → ∃ e₀, sys.core.extra.lookup t = some e₀ ∧
        e.cacheIndex = e₀.cacheIndex ∧ e.blockAddr = e₀.blockAddr ∧ SameMasks sys.core s' t := by
    intro s' hextra hmfs t e he
    rw [hextra] at he
    exact ⟨e, he, rfl, rfl, .of_eq (by rw [hmfs])⟩
  cases System.step_cases hpromise.suits hperform with
  | access n m time events status hcase hbelow =>
      have hm := sys.build_mfs_caller n m
      have hcase' := System.access_of_build hcase
      refine (h.build htracked hpromise m).access hcfg hon (by simp) (fun k hk => ?_)
        (fun hstatus => ?_) hcase'
      · obtain ⟨e, he⟩ := Option.isSome_iff_exists.1 (AList.lookup_isSome.2 hk)
        exact htracked.created k (htracked.mem_sent he)
      · rw [hm]
        exact hspares n m time events status _ rfl rfl hstatus
  | tick memportFull waiting done htick hcore hbelow =>
      rw [hcore]
      exact h.of_same (hkept rfl rfl) fun i => ⟨fun _ hb => hb, fun _ => rfl⟩
  | push memportFull waiting done htick mf rest hqueue hcore hbelow =>
      rw [hcore]
      exact h.of_same (hkept rfl rfl) fun i => ⟨fun _ hb => hb, fun _ => rfl⟩
  | wait n m time original horiginal e pendingRead he hcore hbelow =>
      rw [hcore]
      refine h.of_same (fun t e' he' => ?_) fun i => ⟨fun _ hb => hb, fun _ => rfl⟩
      have hmasks : ∀ t, t ∈ sys.core.extra → SameMasks sys.core { (sys.build n m).core with
          extra := sys.core.extra.insert original { e with pendingRead } } t :=
        fun t ht => .of_eq (System.build_mfs htracked hpromise.2.1 m ht)
      by_cases ht : t = original
      · subst ht
        rw [AList.lookup_insert] at he'
        cases he'
        exact ⟨e, he, rfl, rfl, hmasks t (AList.lookup_isSome.1 (by rw [he]; rfl))⟩
      · rw [AList.lookup_insert_ne ht] at he'
        exact ⟨e', he', rfl, rfl, hmasks t (AList.lookup_isSome.1 (by rw [he']; rfl))⟩
  | complete o c mf time horigin e he hentry lines hfill hcore hbelow =>
      exact h.complete he (System.completed hon htracked hpromise horigin he hfill hcore)
  | ready mf rest hqueue hpinned hcore hbelow =>
      rw [hcore]
      refine h.unpin ?_ ?_ ?_ mf <;> rfl
  | deliver mf a rest addresses hready hanswered hentry hpinned hcore hbelow =>
      rw [hcore]
      refine h.unpin ?_ ?_ ?_ mf <;>
        · unfold Core.deliver
          split <;> rfl
  | flush hcore hbelow =>
      rw [hcore]
      exact h.clear rfl (hquiet (Or.inl rfl)) (fun i => .flush _ i)
        fun i hi => sys.cache.tagArray.isInvalidLine_of_flush hi
  | invalidate hcore hbelow =>
      rw [hcore]
      exact h.clear rfl (hquiet (Or.inr rfl)) (fun i => .invalidate _ i)
        fun i hi => sys.cache.tagArray.isInvalidLine_of_invalidate hi
  | retire mf hcore hbelow =>
      rw [hcore]
      exact h

end Resident

/-! ### Pinned fetches -/

/-- With deferred responses, the request that fetches is pinned on the line that it will fill. -/
def PinnedFetches (s : Core cfg) : Prop :=
  ∀ t e, s.extra.lookup t = some e → s.pending.lookup t = some e.cacheIndex

namespace PinnedFetches

variable {sys sys' : System cfg} {cls : CacheClass} {o : Op} {b : Obs}

/-- A request that fetches waits in the cache. -/
theorem waits {s : Core cfg} {sent : List Token} (htracked : Tracked s sent) {t : Token}
    {e : ExtraMfFields} (he : s.extra.lookup t = some e) : t ∈ s.waiting := by
  have hwaits := htracked.waits t e he
  obtain ⟨l, hl⟩ := Option.isSome_iff_exists.1 (AList.lookup_isSome.2 (htracked.entry t e he).1)
  rw [hl] at hwaits
  exact List.mem_append_right _ (AList.mem_values.2 ⟨_, l, hl, hwaits⟩)

/-- With deferred responses, an access spares the fetches unless it evicts the sector of one. -/
theorem spares {c : Cache cfg} (h : PinnedFetches c.core) (hacc : Accounted c.core)
    {addr : NewAddrType} {m : MemFetch}
    (hevicts : ∀ p, c.Probes addr m p → p.status = .hit → m.isWrite = true →
      evictsOnWriteHit cfg m →
        ¬c.core.Fetches p.idx (cfg.sectorIndex m.accessSectorMask)) : c.Spares addr m := by
  refine fun p hp => ⟨?_, hevicts p hp⟩
  rintro ⟨hmiss, -⟩ i ⟨t, e, he, hidx, -⟩
  exact hacc.count_ne_zero (h t e he) (hidx ▸ TagArray.count_of_miss hp hmiss)

/-- A request that fetches is not returned. -/
theorem returned_ne {s : Core cfg} (htracked : Tracked sys.core sys.sent)
    (hacc : Accounted sys.core) (hs : s = sys.core) (hpromise : sys.Promise o)
    (hperform : sys.perform cls o = .ok (sys', b)) {t : Token} {e : ExtraMfFields}
    (he : s.extra.lookup t = some e) : b.returned.map Prod.fst ≠ some t := by
  subst hs
  intro hreturned
  cases System.step_cases hpromise.suits hperform with
  | ready mf rest hqueue =>
      cases hreturned
      rw [Delivered.extra_of_ready htracked hacc.nodup (by rw [hqueue]; exact List.mem_cons_self)]
        at he
      cases he
  | deliver mf a rest addresses hready hanswered hentry =>
      cases hreturned
      rw [Delivered.extra_of_answered htracked hacc.nodup hentry
        (by rw [hanswered]; exact List.mem_cons_self) List.mem_cons_self] at he
      cases he
  | _ => cases hreturned

/-- **One step keeps the fetches pinned on their lines.** -/
theorem step (h : PinnedFetches sys.core) (hdefer : cfg.deferHitResponse = true)
    (htracked : Tracked sys.core sys.sent) (hacc : Accounted sys.core)
    (hpromise : sys.Promise o) (hperform : sys.perform cls o = .ok (sys', b))
    (hkept : ∀ t ∈ sys.core.waiting, b.returned.map Prod.fst ≠ some t →
      sys'.core.pending.lookup t = sys.core.pending.lookup t) : PinnedFetches sys'.core := by
  intro t e he
  have hold : ∀ e₀, sys.core.extra.lookup t = some e₀ →
      sys'.core.pending.lookup t = some e₀.cacheIndex := fun e₀ he₀ =>
    (hkept t (waits htracked he₀) (returned_ne htracked hacc rfl hpromise hperform he₀)).trans
      (h t e₀ he₀)
  have hcases : System.StepCase cls sys sys' o b := System.step_cases hpromise.suits hperform
  rcases hcases.fetch_origin he with ⟨e₀, he₀, hidx, -⟩ | ⟨n, m, time, events, -, rfl, -⟩
  · rw [hidx]
    exact hold e₀ he₀
  · cases hcases with
    | access _ _ _ _ _ hcase =>
        rcases hcase.fetch_origin (by simp) he with he | ⟨p, hlaunched⟩
        · exact hold e he
        · rw [hlaunched.idx]
          exact hlaunched.pinned hdefer
    | complete _ _ _ _ horigin =>
        rcases horigin with ⟨ho, -⟩ | ⟨_, _, ho, -⟩ <;> cases ho

end PinnedFetches

end OpenCache
