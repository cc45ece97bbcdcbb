/-
Accesses to a sector cache that fetches on reads.

A write to such a cache sends no read: its bytes become dirty in their sector, which is `MODIFIED`
from then on and readable once all its bytes are dirty, and only the next read of a sector that is
not readable fetches the rest.  So a sector is written while a fetch for it is under way, and it is
fetched while it holds dirty bytes; what must not happen in between is that a byte which is not
dirty becomes readable, that a dirty byte is forgotten, or that a fill comes to a sector it does not
know how to leave.

* `OpenCache.CacheConfig.Lazy`, `OpenCache.CacheConfig.InSector` — such a cache, and a request
  inside one sector;
* `OpenCache.CacheBlock.Awaits` — a sector that a fill may come to;
* `OpenCache.LazyLine`, `OpenCache.AccessCase.lazyLine` — **what an access makes of its line**;
* `OpenCache.LazyQueue`, `OpenCache.AccessCase.lazyQueue` — what it puts into the miss queue;
* `OpenCache.LazyAccess`, `OpenCache.AccessCase.lazyAccess` — both, and the fetches under way.
-/

import OpenCache.Coverage
import OpenCache.QueueRoom
import OpenCache.SectorMisses

set_option relaxedAutoImplicit false
set_option autoImplicit false

namespace OpenCache

variable {cfg : CacheConfig}

theorem mem_sectorBytes_byteSector (x : Fin 128) : x ∈ sectorBytes (byteSector x) := by
  rw [mem_sectorBytes]
  unfold byteSector
  dsimp only
  omega

/-! ### Caches that fetch on reads -/

/-- A sector cache that fetches what its writes leave out when a read asks for it, allocates on
misses and defers its responses, and whose write hits stay in their lines. -/
structure CacheConfig.Lazy (cfg : CacheConfig) : Prop where
  sector : cfg.cacheType = .sector
  onMiss : cfg.allocPolicy = .onMiss
  onRead : cfg.writeAllocPolicy = .lazyFetchOnRead
  deferred : cfg.deferHitResponse = true
  policy : cfg.writePolicy = .writeBack ∨ cfg.writePolicy = .writeThrough

/-- A request inside one sector: its sector mask names the sector of its address, and its bytes lie
in the sector. -/
def CacheConfig.InSector (cfg : CacheConfig) (m : MemFetch) : Prop :=
  m.accessSectorMask = {cfg.addrSector m.addr} ∧
  m.accessByteMask ⊆ sectorBytes (cfg.addrSector m.addr)

instance (cfg : CacheConfig) (m : MemFetch) : Decidable (cfg.InSector m) := by
  unfold CacheConfig.InSector
  infer_instance

namespace CacheConfig

theorem Lazy.keepsHits (hlazy : cfg.Lazy) (m : MemFetch) : ¬evictsOnWriteHit cfg m := by
  rcases hlazy.policy with h | h <;> simp [evictsOnWriteHit, h]

theorem Lazy.sameSector_iff (hlazy : cfg.Lazy) {i j : Fin 4} : cfg.SameSector i j ↔ i = j := by
  simp [SameSector, hlazy.sector]

theorem InSector.matches {m : MemFetch} (h : cfg.InSector m) : cfg.Matches m := by
  intro hct
  rw [h.1, addrSector, hct]

theorem InSector.mask {m : MemFetch} (h : cfg.InSector m) :
    m.accessSectorMask = {cfg.sectorIndex m.accessSectorMask} := by
  rw [h.matches.sectorIndex]
  exact h.1

/-- The bytes of a request lie in its sector. -/
theorem InSector.byteSector {m : MemFetch} (h : cfg.InSector m) {x : Fin 128}
    (hx : x ∈ m.accessByteMask) : byteSector x = cfg.sectorIndex m.accessSectorMask := by
  have hmem := mem_sectorBytes.1 (h.2 hx)
  rw [h.matches.sectorIndex, Fin.ext_iff]
  unfold OpenCache.byteSector
  dsimp only
  omega

/-- A request for as many bytes as a sector has is for all of them. -/
theorem InSector.mem_of_card {m : MemFetch} (h : cfg.InSector m) (hlazy : cfg.Lazy)
    (hcfg : cfg.Checked) (hfull : m.accessByteMask.card = cfg.atomSz) {x : Fin 128}
    (hx : OpenCache.byteSector x = cfg.sectorIndex m.accessSectorMask) : x ∈ m.accessByteMask := by
  have hall : m.accessByteMask = sectorBytes (cfg.addrSector m.addr) := by
    refine Finset.eq_of_subset_of_card_le h.2 ?_
    rw [hfull, hcfg.sectorAtom hlazy.sector]
    generalize cfg.addrSector m.addr = i
    revert i
    decide
  rw [hall, mem_sectorBytes]
  rw [h.matches.sectorIndex, Fin.ext_iff] at hx
  unfold OpenCache.byteSector at hx
  dsimp only at hx
  omega

end CacheConfig

/-! ### Sectors that wait for a fill -/

namespace CacheBlock

variable {k : CacheType} {b b' : CacheBlock k} {i j : Fin 4} {x : Fin 128}

/-- A sector that a fill may come to: it is reserved, or it has been written in the meantime, and
the fill will leave it `MODIFIED`. -/
def Awaits (b : CacheBlock k) (i : Fin 4) : Prop :=
  b.getStatus i = .reserved ∨ b.getStatus i = .modified ∧ (b.sectorAt i).setModifiedOnFill = true

theorem Awaits.of_sector (h : b.Awaits i) (hsector : b'.sectorAt i = b.sectorAt i) :
    b'.Awaits i := by
  unfold Awaits getStatus
  rw [hsector]
  exact h

/-- What the tags find depends on the sector alone, if they find it. -/
theorem matchStatus_eq_hit_congr (hsector : b'.sectorAt i = b.sectorAt i) {isWrite : Bool} :
    b'.matchStatus i isWrite = some .hit ↔ b.matchStatus i isWrite = some .hit := by
  rw [matchStatus_eq_hit, matchStatus_eq_hit, isReadable, isReadable, getStatus, getStatus, hsector]

theorem setModifiedOnFill_marked (m : MemFetch) :
    ((b.marked m i).sectorAt i).setModifiedOnFill = (b.sectorAt i).setModifiedOnFill := by
  unfold marked setStatus
  rw [sectorAt_setByteMask, sectorAt_modifySector_self]

theorem setModifiedOnFill_readableUpdated (m : MemFetch) :
    ((b.readableUpdated m i).sectorAt i).setModifiedOnFill =
      (b.sectorAt i).setModifiedOnFill := by
  unfold readableUpdated
  split
  · rw [setMReadable, sectorAt_modifySector_self]
  · rfl

/-- A lazy write of a reserved sector asks the fill to leave the sector `MODIFIED`. -/
theorem setModifiedOnFill_lazyWritten (m : MemFetch) (atomSz : ℕ) :
    ((b.lazyWritten m i .hitReserved atomSz).sectorAt i).setModifiedOnFill = true := by
  have hset : ∀ b' : CacheBlock k,
      (((b'.setModifiedOnFill true i).putByteMaskOnFill true).sectorAt i).setModifiedOnFill =
        true := by
    intro b'
    change ((b'.setModifiedOnFill true i).sectorAt i).setModifiedOnFill = true
    rw [CacheBlock.setModifiedOnFill, sectorAt_modifySector_self]
  unfold lazyWritten
  simp only [if_true]
  rw [setModifiedOnFill_readableUpdated]
  split
  · rw [setMReadable, sectorAt_modifySector_self]
    exact hset _
  · rw [setReadableOnFill, sectorAt_modifySector_self, setMReadable, sectorAt_modifySector_self]
    exact hset _

/-- A readable sector that a write has left: it was readable before, or all its bytes are dirty. -/
theorem readable_readableUpdated {m : MemFetch} (hmask : m.accessSectorMask = {i})
    (hread : (b.readableUpdated m i).isReadable i = true) :
    b.isReadable i = true ∨ sectorBytes i ⊆ b.dirtyByteMask := by
  unfold readableUpdated at hread
  split at hread
  · next hcover =>
      obtain ⟨j, hj, hsub⟩ := hcover
      rw [hmask, Finset.mem_singleton] at hj
      exact Or.inr (hj ▸ hsub)
  · exact Or.inl hread

theorem setByteMaskOnFill_readableUpdated (m : MemFetch) :
    (b.readableUpdated m i).setByteMaskOnFill = b.setByteMaskOnFill := by
  unfold readableUpdated
  split <;> rfl

theorem setByteMaskOnFill_lazyWritten (m : MemFetch) (status : CacheRequestStatus) (atomSz : ℕ)
    (h : b.setByteMaskOnFill = true) :
    (b.lazyWritten m i status atomSz).setByteMaskOnFill = true := by
  unfold lazyWritten
  dsimp only
  rw [setByteMaskOnFill_readableUpdated]
  by_cases hs : status = .hitReserved
  · rw [if_pos hs]
    split <;> rfl
  · rw [if_neg hs]
    split <;> exact h

end CacheBlock

/-! ### The line of an access -/

section Access

variable {c : Cache cfg} {cls : CacheClass} {addr : NewAddrType} {mf : Token} {time : Time}
  {p : ProbeResult} {line : CacheBlock cfg.cacheType} {x : Fin 128}

/-- The line that an access finds or takes in a `SECTOR` cache: the dirty bytes of the previous
block are forgotten. -/
theorem dirtyByteMask_touched_of_sector (hk : cfg.cacheType = .sector)
    (hon : cfg.allocPolicy = .onMiss)
    (hs : p.status = .hitReserved ∨ p.status = .miss ∨ p.status = .sectorMiss) (m : MemFetch) :
    (c.touched addr m time p).dirtyByteMask =
      if p.status = .miss then ∅ else (c.tagArray.lines p.idx).dirtyByteMask := by
  have hallocate : ∀ (b : CacheBlock cfg.cacheType) (tag blockAddr : NewAddrType) (i : Fin 4),
      (b.allocate tag blockAddr time i).dirtyByteMask = ∅ := by
    rw [hk]
    rintro ⟨_, _, _, _, _, _, _, _, ⟨s⟩⟩ tag blockAddr i
    rfl
  unfold Cache.touched
  rcases hs with hs | hs | hs
  · rw [hs]
    rfl
  · rw [hs]
    simp only [TagArray.touchedLine, if_pos hon, if_true]
    exact hallocate _ _ _ _
  · rw [hs]
    simp only [TagArray.touchedLine, if_pos hon, reduceCtorEq, if_false]
    rfl

/-- The line that an access finds still knows what the fill will mark. -/
theorem setByteMaskOnFill_touched (hon : cfg.allocPolicy = .onMiss)
    (hs : p.status = .hit ∨ p.status = .hitReserved ∨ p.status = .sectorMiss) (m : MemFetch) :
    (c.touched addr m time p).setByteMaskOnFill = (c.tagArray.lines p.idx).setByteMaskOnFill := by
  unfold Cache.touched
  rcases hs with hs | hs | hs
  · rw [hs]
    rfl
  · rw [hs]
    rfl
  · rw [hs]
    simp only [TagArray.touchedLine, if_pos hon]
    rfl

/-- What a lazy cache makes of a line that it has found, or taken for the block of a request: the
bytes of a write become dirty, and its sector `MODIFIED`; bytes become readable only when they are
dirty; and unless the line is taken, it loses no byte that it covers, and forgets no fill. -/
structure LazyLine (cfg : CacheConfig) (m : MemFetch) (status : CacheRequestStatus)
    (b b' : CacheBlock cfg.cacheType) : Prop where
  dirty : b'.dirtyByteMask = (if status = .miss then ∅ else b.dirtyByteMask) ∪
    if m.isWrite = true then m.accessByteMask else ∅
  written : m.isWrite = true → b'.getStatus (cfg.sectorIndex m.accessSectorMask) = .modified
  hit : ∀ x, b'.matchStatus (byteSector x) false = some .hit →
    x ∈ b'.dirtyByteMask ∨ status ≠ .miss ∧ b.matchStatus (byteSector x) false = some .hit
  live : status ≠ .miss → ∀ j, b.getStatus j ≠ .invalid → b'.getStatus j ≠ .invalid
  keeps : status ≠ .miss → ∀ x, b.Keeps x False → b'.Keeps x False
  awaits : status ≠ .miss → ∀ j, b.Awaits j → b'.Awaits j

namespace LazyLine

variable {m : MemFetch} {status : CacheRequestStatus} {b b' b'' : CacheBlock cfg.cacheType}

/-- Pins do not matter. -/
theorem of_same (h : LazyLine cfg m status b b') (hsectors : ∀ j, b''.sectorAt j = b'.sectorAt j)
    (hdirty : b''.dirtyByteMask = b'.dirtyByteMask)
    (hflag : b''.setByteMaskOnFill = b'.setByteMaskOnFill) : LazyLine cfg m status b b'' := by
  have hstatus : ∀ j, b''.getStatus j = b'.getStatus j := fun j => by
    rw [CacheBlock.getStatus, hsectors]
    rfl
  refine ⟨?_, ?_, ?_, ?_, ?_, ?_⟩
  · rw [hdirty]
    exact h.dirty
  · rw [hstatus]
    exact h.written
  · intro x hx
    rw [CacheBlock.matchStatus_eq_hit_congr (hsectors _)] at hx
    rw [hdirty]
    exact h.hit x hx
  · intro hs j hj
    rw [hstatus]
    exact h.live hs j hj
  · exact fun hs x hx => (h.keeps hs x hx).of_sector (hsectors _) (by rw [hdirty])
      (fun hf => hflag ▸ hf)
  · exact fun hs j hj => (h.awaits hs j hj).of_sector (hsectors j)

end LazyLine

/-- A line that was found, and whose other sectors are as they were. -/
theorem LazyLine.of_found {m : MemFetch} {status : CacheRequestStatus} {i : Fin 4}
    {b b' : CacheBlock cfg.cacheType} (hi : cfg.sectorIndex m.accessSectorMask = i)
    (hs : status ≠ .miss) (hother : ∀ j ≠ i, b'.sectorAt j = b.sectorAt j)
    (hflag : b.setByteMaskOnFill = true → b'.setByteMaskOnFill = true)
    (hdirty : b'.dirtyByteMask = b.dirtyByteMask ∪ if m.isWrite = true then m.accessByteMask else ∅)
    (hwritten : m.isWrite = true → b'.getStatus i = .modified)
    (hhit : b'.matchStatus i false = some .hit →
      b.matchStatus i false = some .hit ∨ sectorBytes i ⊆ b'.dirtyByteMask)
    (hlive : b.getStatus i ≠ .invalid → b'.getStatus i ≠ .invalid)
    (hkeeps : ∀ x, byteSector x = i → b.Keeps x False → b'.Keeps x False)
    (hawaits : b.Awaits i → b'.Awaits i) : LazyLine cfg m status b b' := by
  have hgrows : b.dirtyByteMask ⊆ b'.dirtyByteMask := by
    rw [hdirty]
    exact Finset.subset_union_left
  refine ⟨?_, ?_, ?_, ?_, ?_, ?_⟩
  · rwa [if_neg hs]
  · rwa [hi]
  · intro x hx
    by_cases hxi : byteSector x = i
    · rw [hxi] at hx ⊢
      rcases hhit hx with hold | hall
      · exact Or.inr ⟨hs, hold⟩
      · exact Or.inl (hall (hxi ▸ mem_sectorBytes_byteSector x))
    · exact Or.inr ⟨hs, (CacheBlock.matchStatus_eq_hit_congr (hother _ hxi)).1 hx⟩
  · intro _ j hj
    by_cases hji : j = i
    · rw [hji] at hj ⊢
      exact hlive hj
    · rw [CacheBlock.getStatus, hother j hji]
      exact hj
  · intro _ x hx
    by_cases hxi : byteSector x = i
    · exact hkeeps x hxi hx
    · exact hx.of_sector (hother _ hxi) hgrows hflag
  · intro _ j hj
    by_cases hji : j = i
    · rw [hji] at hj ⊢
      exact hawaits hj
    · exact hj.of_sector (hother j hji)

/-- A hit of a read changes the access time only. -/
theorem LazyLine.read (b : CacheBlock cfg.cacheType) (time : Time) {m : MemFetch}
    (hread : m.isWrite = false) : LazyLine cfg m .hit b (b.setLastAccessTime time) := by
  refine .of_found rfl (by simp) (fun _ _ => rfl) id ?_ ?_ ?_ id ?_ id
  · simp [hread, CacheBlock.setLastAccessTime]
  · simp [hread]
  · have hsame : ∀ j, (b.setLastAccessTime time).sectorAt j = b.sectorAt j := fun _ => rfl
    exact fun h => Or.inl ((CacheBlock.matchStatus_eq_hit_congr (hsame _)).1 h)
  · exact fun x _ hx => hx.of_sector rfl subset_rfl id

/-- A hit of a write. -/
theorem LazyLine.writeHit (hlazy : cfg.Lazy) {m : MemFetch} (hm : cfg.InSector m)
    (hwrite : m.isWrite = true) {b : CacheBlock cfg.cacheType} (time : Time)
    (hmatch : b.matchStatus (cfg.sectorIndex m.accessSectorMask) true = some .hit) :
    LazyLine cfg m .hit b (((b.setLastAccessTime time).marked m
      (cfg.sectorIndex m.accessSectorMask)).readableUpdated m
        (cfg.sectorIndex m.accessSectorMask)) := by
  generalize hi : cfg.sectorIndex m.accessSectorMask = i at hmatch
  have hmask : m.accessSectorMask = {i} := hi ▸ hm.mask
  have hdirty : (((b.setLastAccessTime time).marked m i).readableUpdated m i).dirtyByteMask =
      b.dirtyByteMask ∪ m.accessByteMask := CacheBlock.dirtyByteMask_readableUpdated _ _ _
  have hown : (((b.setLastAccessTime time).marked m i).readableUpdated m i).getStatus i =
      .modified := by
    rw [CacheBlock.getStatus_readableUpdated, CacheBlock.getStatus_marked, if_pos (Or.inr rfl)]
  have hother : ∀ j ≠ i, (((b.setLastAccessTime time).marked m i).readableUpdated m i).sectorAt j =
      b.sectorAt j := by
    intro j hj
    have hne : ¬(cfg.cacheType = .normal ∨ i = j) := by simp [hlazy.sector, hj.symm]
    rw [CacheBlock.sectorAt_readableUpdated_other _ _ hne, CacheBlock.sectorAt_marked_other _ _ hne]
    rfl
  rw [CacheBlock.matchStatus_eq_hit] at hmatch
  refine .of_found hi (by simp) hother ?_ ?_ (fun _ => hown) ?_ ?_ ?_ ?_
  · rw [CacheBlock.setByteMaskOnFill_readableUpdated]
    exact id
  · rw [hdirty, if_pos hwrite]
  · intro hhit
    rw [CacheBlock.matchStatus_eq_hit, hown] at hhit
    have hread := (hhit.resolve_left (by simp)).2.resolve_left (by simp)
    rcases CacheBlock.readable_readableUpdated hmask hread with hold | hall
    · left
      have hreadable : b.isReadable i = true := by
        unfold CacheBlock.isReadable CacheBlock.marked CacheBlock.setStatus at hold
        rw [CacheBlock.sectorAt_setByteMask, CacheBlock.sectorAt_modifySector_self] at hold
        exact hold
      exact CacheBlock.matchStatus_eq_hit.2 (hmatch.imp id fun h => ⟨h.1, Or.inr hreadable⟩)
    · right
      rw [CacheBlock.dirtyByteMask_readableUpdated]
      exact hall
  · simp [hown]
  · intro x hxi hx
    refine .hitWritten m (Or.inr hxi.symm) (Finset.mem_union_left _ ?_)
    rcases hx with ⟨-, hx⟩ | ⟨-, -, hx⟩
    · exact hx
    · exact hx.resolve_right fun h => h.2
  · intro h
    refine Or.inr ⟨hown, ?_⟩
    rw [CacheBlock.setModifiedOnFill_readableUpdated, CacheBlock.setModifiedOnFill_marked]
    rcases h with h | h
    · rw [h] at hmatch
      simp at hmatch
    · exact h.2

/-- A line that was taken holds what a write has brought, and nothing else. -/
theorem LazyLine.of_taken {m : MemFetch} {status : CacheRequestStatus} {i : Fin 4}
    {b b' : CacheBlock cfg.cacheType} (hi : cfg.sectorIndex m.accessSectorMask = i)
    (hs : status = .miss) (hother : ∀ j ≠ i, b'.getStatus j = .invalid)
    (hdirty : b'.dirtyByteMask = if m.isWrite = true then m.accessByteMask else ∅)
    (hwritten : m.isWrite = true → b'.getStatus i = .modified)
    (hhit : b'.matchStatus i false = some .hit → sectorBytes i ⊆ b'.dirtyByteMask) :
    LazyLine cfg m status b b' := by
  refine ⟨?_, ?_, ?_, fun h => absurd hs h, fun h => absurd hs h, fun h => absurd hs h⟩
  · rw [if_pos hs, Finset.empty_union]
    exact hdirty
  · rwa [hi]
  · intro x hx
    by_cases hxi : byteSector x = i
    · rw [hxi] at hx
      exact Or.inl (hhit hx (hxi ▸ mem_sectorBytes_byteSector x))
    · rw [CacheBlock.matchStatus_eq_hit, hother _ hxi] at hx
      simp at hx

/-- A write that has missed, or has waited for a fetch. -/
theorem LazyLine.lazyWrite (hlazy : cfg.Lazy) (hcfg : cfg.Checked)
    (hp : c.Probes addr (c.mfs mf) p) (hm : cfg.InSector (c.mfs mf))
    (hwrite : (c.mfs mf).isWrite = true)
    (hs : p.status = .hitReserved ∨ p.status = .miss ∨ p.status = .sectorMiss)
    (hline : LineAfter c cls addr mf time p
      ((c.touched addr (c.mfs mf) time p).lazyWritten (c.mfs mf)
      (cfg.sectorIndex (c.mfs mf).accessSectorMask) p.status cfg.atomSz)) :
    LazyLine cfg (c.mfs mf) p.status (c.tagArray.lines p.idx)
      ((c.touched addr (c.mfs mf) time p).lazyWritten (c.mfs mf)
        (cfg.sectorIndex (c.mfs mf).accessSectorMask) p.status cfg.atomSz) := by
  have hon := hlazy.onMiss
  generalize hi : cfg.sectorIndex (c.mfs mf).accessSectorMask = i at hline
  have hne : ∀ {j}, j ≠ i →
      ¬cfg.SameSector (cfg.sectorIndex (c.mfs mf).accessSectorMask) j := fun hj =>
    hi ▸ hlazy.sameSector_iff.not.2 hj.symm
  have hdirty := (c.touched addr (c.mfs mf) time p).dirtyByteMask_lazyWritten (c.mfs mf) i p.status
    cfg.atomSz
  rw [dirtyByteMask_touched_of_sector hlazy.sector hon hs] at hdirty
  have hown : ((c.touched addr (c.mfs mf) time p).lazyWritten (c.mfs mf) i p.status
      cfg.atomSz).getStatus i = .modified := by
    rw [CacheBlock.getStatus_lazyWritten, CacheBlock.getStatus_marked, if_pos (Or.inr rfl)]
  -- a lazy write makes its sector readable when all its bytes are dirty
  have hhit : ((c.touched addr (c.mfs mf) time p).lazyWritten (c.mfs mf) i p.status
      cfg.atomSz).matchStatus i false = some .hit → sectorBytes i ⊆
        ((c.touched addr (c.mfs mf) time p).lazyWritten (c.mfs mf) i p.status
          cfg.atomSz).dirtyByteMask := by
    intro hhit
    rw [CacheBlock.matchStatus_eq_hit, hown] at hhit
    have hread := (hhit.resolve_left (by simp)).2.resolve_left (by simp)
    rw [CacheBlock.dirtyByteMask_lazyWritten]
    rcases (CacheBlock.isReadable_lazyWritten _ _ _ _ _).1 hread with hfull | ⟨j, hj, hall⟩
    · intro x hx
      refine Finset.mem_union_right _ (hm.mem_of_card hlazy hcfg hfull ?_)
      rw [hi]
      exact eq_of_mem_sectorBytes (mem_sectorBytes_byteSector x) hx
    · rw [hm.mask, hi, Finset.mem_singleton] at hj
      exact hj ▸ hall
  by_cases hmiss : p.status = .miss
  · refine .of_taken hi hmiss (fun j hj => ?_) ?_ (fun _ => hown) hhit
    · exact (hline.getStatus_other hon (hne hj)).trans (if_pos hmiss)
    · rw [hdirty, if_pos hmiss, if_pos hwrite, Finset.empty_union]
  · rw [if_neg hmiss] at hdirty
    refine .of_found hi hmiss (fun j hj => hline.sectorAt_other hon hmiss (hne hj))
      (fun hflag => ?_)
      ?_ (fun _ => hown) (fun h => Or.inr (hhit h)) ?_ ?_ ?_
    · refine CacheBlock.setByteMaskOnFill_lazyWritten _ _ _ ?_
      rwa [setByteMaskOnFill_touched hon (hline.found hmiss)]
    · rw [hdirty, if_pos hwrite]
    · simp [hown]
    · intro x hxi hx
      refine Or.inl ⟨hxi ▸ hown, ?_⟩
      rw [hdirty]
      rcases hx with ⟨-, hx⟩ | ⟨-, -, hx⟩
      · exact Finset.mem_union_left _ hx
      · exact Finset.mem_union_left _ (hx.resolve_right fun h => h.2)
    · intro h
      have hmatch := (hp.sectorIndex (hline.found hmiss)).2
      rw [hi, hwrite] at hmatch
      refine Or.inr ⟨hown, ?_⟩
      rcases hs with hs | hs | hs
      · rw [hs]
        exact CacheBlock.setModifiedOnFill_lazyWritten _ _
      · exact absurd hs hmiss
      · -- a write that misses its sector finds it invalid
        rw [hs, CacheBlock.matchStatus_eq_sectorMiss] at hmatch
        rcases h with h | h <;> simp [h] at hmatch

/-- A read that waits for a fetch. -/
theorem LazyLine.fetched (hlazy : cfg.Lazy) (hp : c.Probes addr (c.mfs mf) p)
    (hread : (c.mfs mf).isWrite = false)
    (hs : p.status = .hitReserved ∨ p.status = .miss ∨ p.status = .sectorMiss)
    (hline : LineAfter c cls addr mf time p (c.touched addr (c.mfs mf) time p)) :
    LazyLine cfg (c.mfs mf) p.status (c.tagArray.lines p.idx)
      (c.touched addr (c.mfs mf) time p) := by
  have hon := hlazy.onMiss
  generalize hi : cfg.sectorIndex (c.mfs mf).accessSectorMask = i
  have hne : ∀ {j}, j ≠ i →
      ¬cfg.SameSector (cfg.sectorIndex (c.mfs mf).accessSectorMask) j := fun hj =>
    hi ▸ hlazy.sameSector_iff.not.2 hj.symm
  have hown : (c.touched addr (c.mfs mf) time p).getStatus i = .reserved :=
    LineAfter.getStatus_touched_own hon hp hs (hlazy.sameSector_iff.2 hi)
  have hwrite : ¬(c.mfs mf).isWrite = true := by simp [hread]
  have hdirty := @dirtyByteMask_touched_of_sector _ c addr time p hlazy.sector hon hs (c.mfs mf)
  have hhit : (c.touched addr (c.mfs mf) time p).matchStatus i false ≠ some .hit := by
    rw [Ne, CacheBlock.matchStatus_eq_hit, hown]
    simp
  by_cases hmiss : p.status = .miss
  · refine .of_taken hi hmiss (fun j hj => ?_) ?_ (fun h => absurd h hwrite) fun h => absurd h hhit
    · exact (hline.getStatus_other hon (hne hj)).trans (if_pos hmiss)
    · rw [hdirty, if_pos hmiss, if_neg hwrite]
  · refine .of_found hi hmiss (fun j hj => hline.sectorAt_other hon hmiss (hne hj))
      (fun hflag => ?_)
      ?_ (fun h => absurd h hwrite) (fun h => absurd h hhit) ?_ ?_ fun _ => Or.inl hown
    · rwa [setByteMaskOnFill_touched hon (hline.found hmiss)]
    · rw [hdirty, if_neg hmiss, if_neg hwrite, Finset.union_empty]
    · simp [hown]
    · exact fun x _ hx => keeps_touched hon hp (hline.found hmiss) hx

/-- **The line of an access to a lazy cache.** -/
theorem LineAfter.lazyLine (hline : LineAfter c cls addr mf time p line) (hlazy : cfg.Lazy)
    (hcfg : cfg.Checked) (hp : c.Probes addr (c.mfs mf) p) (hm : cfg.InSector (c.mfs mf)) :
    LazyLine cfg (c.mfs mf) p.status (c.tagArray.lines p.idx) line := by
  have hafter := hline
  cases hline with
  | hit hs line forward heffect =>
      have hmatch := (hp.sectorIndex (Or.inl hs)).2
      rw [hs] at hmatch ⊢
      cases heffect with
      | read hread => exact .read _ time hread
      | write hwrite =>
          rw [hwrite] at hmatch
          exact .writeHit hlazy hm hwrite time hmatch
      | evict _ _ _ hevicts => exact absurd hevicts (hlazy.keepsHits _)
  | write hs hwrite line _ heffect =>
      cases heffect with
      | full hpolicy =>
          rw [hlazy.onRead] at hpolicy
          cases hpolicy
      | onRead => exact .lazyWrite hlazy hcfg hp hm hwrite hs hafter
  | fetch hs reader s written hfetcher =>
      cases hfetcher with
      | read hread => exact .fetched hlazy hp hread hs hafter
      | naive _ _ _ hpolicy =>
          rw [hlazy.onRead] at hpolicy
          cases hpolicy
      | fetchOnWrite _ _ _ hpolicy =>
          rw [hlazy.onRead] at hpolicy
          cases hpolicy

/-- **What an access to a lazy cache does to the lines**: it changes the line that the tags have
answered with. -/
theorem AccessCase.lazyLine {status : CacheRequestStatus} {s' : Core cfg}
    (hcase : AccessCase c cls addr mf time status s') (hlazy : cfg.Lazy) (hcfg : cfg.Checked)
    (htagged : Tagged c.core) (haccept : status ≠ .reservationFail)
    (hm : cfg.InSector (c.mfs mf)) :
    ∃ p b, c.Probes addr (c.mfs mf) p ∧ p.status ≠ .reservationFail ∧
      b.tag = cfg.blockAddr addr ∧
      LazyLine cfg (c.mfs mf) p.status (c.tagArray.lines p.idx) b ∧
      s'.lines = Function.update c.tagArray.lines p.idx b := by
  rcases hcase.line_after with ⟨-, hrefused | ⟨hpolicy, -⟩⟩ | ⟨p, line, hp, hline, hlines⟩
  · exact absurd hrefused haccept
  · rw [hlazy.onRead] at hpolicy
    cases hpolicy
  have hfail : p.status ≠ .reservationFail := by
    rcases hline.answered with h | h | h | h <;> simp [h]
  have htag := (hline.belongsTo hlazy.onMiss htagged hp).1
  have hafter := hline.lazyLine hlazy hcfg hp hm
  rcases hlines with hlines | hlines
  · exact ⟨p, line, hp, hfail, htag, hafter, hlines⟩
  · exact ⟨p, line.pin, hp, hfail, htag, hafter.of_same (fun _ => rfl) rfl rfl, hlines⟩

end Access

/-! ### The miss queue -/

/-- What an access to a lazy cache puts into the miss queue: the request itself, which is a write
that is sent through or a read that fetches its sector, and then the write-back of the victim. -/
structure LazyQueue (c : Cache cfg) (cls : CacheClass) (mf : Token) (p : ProbeResult) (sends : Bool)
    (s' : Core cfg) : Prop where
  queue : s'.missQueue = c.missQueue ++ ((if sends then [mf] else []) ++
    ((writebackOf cfg cls (c.mfs mf) p.status (c.tagArray.lines p.idx)).map fun _ =>
      Token.created c.created).toList)
  through : (c.mfs mf).isWrite = true → sends = decide (cfg.writePolicy = .writeThrough)
  isWrite : (s'.mfs mf).isWrite = (c.mfs mf).isWrite
  own : (c.mfs mf).isWrite = true → s'.mfs mf = c.mfs mf
  writeback : ∀ w ∈ writebackOf cfg cls (c.mfs mf) p.status (c.tagArray.lines p.idx),
    s'.mfs (.created c.created) = w
  others : ∀ t ≠ mf, t ≠ .created c.created → s'.mfs t = c.mfs t

namespace Core

variable (s : Core cfg)

/-- The request that the cache has created, if any. -/
theorem sendOwn_created (m : Option MemFetch) :
    (s.sendOwn m).missQueue = s.missQueue ++ (m.map fun _ => Token.created s.created).toList ∧
      (∀ w ∈ m, (s.sendOwn m).mfs (.created s.created) = w) ∧
      ∀ t ≠ .created s.created, (s.sendOwn m).mfs t = s.mfs t := by
  cases m with
  | none => exact ⟨(List.append_nil _).symm, fun w hw => (by cases hw), fun _ _ => rfl⟩
  | some m =>
      refine ⟨rfl, fun w hw => ?_, fun t ht => Function.update_of_ne ht _ _⟩
      obtain rfl := Option.some_inj.1 hw
      exact Function.update_self _ _ _

end Core

/-- What an access has put into the queue before the write-back. -/
theorem LazyQueue.of_sendOwn {c : Cache cfg} {cls : CacheClass} {mf : Token} {p : ProbeResult}
    {sends : Bool} {s : Core cfg} (hmf : ∀ k, mf ≠ .created k)
    (hqueue : s.missQueue = c.missQueue ++ if sends then [mf] else [])
    (hthrough : (c.mfs mf).isWrite = true → sends = decide (cfg.writePolicy = .writeThrough))
    (hisWrite : (s.mfs mf).isWrite = (c.mfs mf).isWrite)
    (hown : (c.mfs mf).isWrite = true → s.mfs mf = c.mfs mf)
    (hothers : ∀ t ≠ mf, s.mfs t = c.mfs t) (hcreated : s.created = c.created) :
    LazyQueue c cls mf p sends
      (s.sendOwn (writebackOf cfg cls (c.mfs mf) p.status (c.tagArray.lines p.idx))) := by
  obtain ⟨hsent, hwriteback, hleft⟩ :=
    s.sendOwn_created (writebackOf cfg cls (c.mfs mf) p.status (c.tagArray.lines p.idx))
  rw [hcreated] at hsent hwriteback hleft
  refine ⟨?_, hthrough, ?_, fun hwrite => ?_, hwriteback, fun t ht ht' => ?_⟩
  · rw [hsent, hqueue, List.append_assoc]
  · rw [hleft mf (hmf _)]
    exact hisWrite
  · rw [hleft mf (hmf _)]
    exact hown hwrite
  · rw [hleft t ht']
    exact hothers t ht

/-- **What an access to a lazy cache queues.** -/
theorem AccessCase.lazyQueue {c : Cache cfg} {cls : CacheClass} {addr : NewAddrType} {mf : Token}
    {time : Time} {status : CacheRequestStatus} {s' : Core cfg}
    (hcase : AccessCase c cls addr mf time status s') (hlazy : cfg.Lazy)
    (hmf : ∀ k, mf ≠ .created k) (haccept : status ≠ .reservationFail) :
    ∃ p sends, c.Probes addr (c.mfs mf) p ∧ LazyQueue c cls mf p sends s' := by
  cases hcase with
  | refused => exact absurd rfl haccept
  | hit p hp hs _ line forward heffect =>
      have hthrough : (c.mfs mf).isWrite = true →
          forward = decide (cfg.writePolicy = .writeThrough) := by
        intro hwrite
        cases heffect with
        | read hread => simp [hread] at hwrite
        | write => rfl
        | evict _ _ _ hevicts => exact absurd hevicts (hlazy.keepsHits _)
      have hnone : writebackOf cfg cls (c.mfs mf) p.status (c.tagArray.lines p.idx) = none :=
        writebackOf_eq_none cls _ (by simp [hs])
      refine ⟨p, forward, hp, ?_, hthrough, ?_, fun _ => ?_, ?_, fun t _ _ => ?_⟩
      · rw [hnone, (Core.respond_frame _ _ _).2.2.1]
        cases forward <;> simp [Core.enqueueIf, Core.enqueue, Core.setLine, Cache.core]
      · simp [Core.setLine, Cache.core]
      · simp [Core.setLine, Cache.core]
      · simp [hnone]
      · simp [Core.setLine, Cache.core]
  | forward _ _ _ _ _ _ hpolicy =>
      rw [hlazy.onRead] at hpolicy
      cases hpolicy
  | write p hp hs hwrite types hcls _ line forward heffect =>
      have hthrough : forward = decide (cfg.writePolicy = .writeThrough) := by
        cases heffect with
        | full hpolicy =>
            rw [hlazy.onRead] at hpolicy
            cases hpolicy
        | onRead => rfl
      refine ⟨p, forward, hp, .of_sendOwn hmf ?_ (fun _ => hthrough) ?_ (fun _ => ?_)
        (fun t _ => ?_) ?_⟩
      · cases forward <;> simp [Core.enqueueIf, Core.enqueue, Core.setLine, Cache.core]
      · simp [Core.setLine, Cache.core]
      · simp [Core.setLine, Cache.core]
      · simp [Core.setLine, Cache.core]
      · simp [Core.setLine, Cache.core]
  | fetch p hp hs _ reader s written hfetcher =>
      cases hfetcher with
      | read hread =>
          have hread' : (c.mfs mf).isWrite = false := hread
          obtain ⟨hqueue, -, hisWrite, hothers⟩ := (c.core.setLine p.idx
            (c.touched addr (c.mfs mf) time p)).miss_queue (cfg.mshrAddr (c.mfs mf).addr) mf p.idx
          refine ⟨p, (c.mshrs.data.lookup (cfg.mshrAddr (c.mfs mf).addr)).isNone, hp,
            .of_sendOwn hmf ?_ (fun hwrite => ?_) hisWrite (fun hwrite => ?_) hothers ?_⟩
          · refine hqueue.trans ?_
            cases h : c.mshrs.data.lookup (cfg.mshrAddr (c.mfs mf).addr) <;>
              simp [h, Core.setLine, Cache.core]
          · simp [hread'] at hwrite
          · simp [hread'] at hwrite
          · simp [Core.setLine, Cache.core]
      | naive _ _ _ hpolicy =>
          rw [hlazy.onRead] at hpolicy
          cases hpolicy
      | fetchOnWrite _ _ _ hpolicy =>
          rw [hlazy.onRead] at hpolicy
          cases hpolicy

/-! ### Accepted accesses -/

/-- A lazy cache fetches for reads only. -/
theorem AccessCase.lazyFetch {c : Cache cfg} {cls : CacheClass} {addr : NewAddrType} {mf : Token}
    {time : Time} {status : CacheRequestStatus} {s' : Core cfg}
    (hcase : AccessCase c cls addr mf time status s') (hlazy : cfg.Lazy) {t : Token}
    {e : ExtraMfFields} (he : s'.extra.lookup t = some e) :
    c.core.extra.lookup t = some e ∨ t = mf ∧ (c.mfs mf).isWrite = false := by
  cases hcase with
  | refused => exact Or.inl he
  | hit => exact Or.inl (by simpa [Core.setLine] using he)
  | forward => exact Or.inl he
  | write => exact Or.inl (by simpa [Core.setLine] using he)
  | fetch p hp hs _ reader s written hfetcher =>
      cases hfetcher with
      | read hread =>
          rw [(Core.sendOwn_frame _ _).2.2.2.1] at he
          exact (Core.extra_of_miss he).imp id fun h => ⟨h.2.1, hread⟩
      | naive _ _ _ hpolicy =>
          rw [hlazy.onRead] at hpolicy
          cases hpolicy
      | fetchOnWrite _ _ _ hpolicy =>
          rw [hlazy.onRead] at hpolicy
          cases hpolicy

/-- **What an accepted access to a lazy cache does**: to the line that the tags have answered with,
to the miss queue, and to the fetches under way. -/
structure LazyAccess (c : Cache cfg) (types : DataCacheTypes) (mf : Token) (p : ProbeResult)
    (b : CacheBlock cfg.cacheType) (sends : Bool) (s' : Core cfg) : Prop where
  inSector : cfg.InSector (c.mfs mf)
  probes : c.Probes (c.mfs mf).addr (c.mfs mf) p
  accepts : p.status ≠ .reservationFail
  tag : b.tag = cfg.blockAddr (c.mfs mf).addr
  line : LazyLine cfg (c.mfs mf) p.status (c.core.lines p.idx) b
  lines : s'.lines = Function.update c.core.lines p.idx b
  queue : LazyQueue c (.dataCache types) mf p sends s'
  caller : ∀ k, mf ≠ .created k
  unqueued : mf ∉ c.missQueue
  uncreated : .created c.created ∉ c.missQueue
  fetches : ∀ t e, s'.extra.lookup t = some e →
    c.core.extra.lookup t = some e ∧ SameMasks c.core s' t ∧ t ≠ mf ∧ t ≠ .created c.created ∨
      t = mf ∧ (c.mfs mf).isWrite = false ∧ mf ∈ s'.missQueue ∧ SameMasks c.core s' mf ∧
        e.cacheIndex = p.idx ∧ e.blockAddr = cfg.mshrAddr (c.mfs mf).addr ∧
        b.getStatus (cfg.sectorIndex (c.mfs mf).accessSectorMask) = .reserved

theorem AccessCase.lazyAccess {c : Cache cfg} {types : DataCacheTypes} {mf : Token} {time : Time}
    {status : CacheRequestStatus} {s' : Core cfg}
    (hcase : AccessCase c (.dataCache types) (c.mfs mf).addr mf time status s') (hlazy : cfg.Lazy)
    (hcfg : cfg.Checked) (htagged : Tagged c.core) (haccept : status ≠ .reservationFail)
    (hm : cfg.InSector (c.mfs mf)) (hmf : ∀ k, mf ≠ .created k)
    (hcreated : ∀ k, .created k ∈ c.core.extra ∨ .created k ∈ c.core.missQueue → k < c.created)
    (hnew : mf ∉ c.core.extra ∧ mf ∉ c.core.missQueue) :
    ∃ p b sends, LazyAccess c types mf p b sends s' := by
  obtain ⟨p, b, hp, hfail, htag, hline, hlines⟩ := hcase.lazyLine hlazy hcfg htagged haccept hm
  obtain ⟨p', sends, hp', hq⟩ := hcase.lazyQueue hlazy hmf haccept
  obtain rfl : p = p' := Except.ok.inj (hp.symm.trans hp')
  refine ⟨p, b, sends, hm, hp, hfail, htag, hline, hlines, hq, hmf, hnew.2,
    fun hmem => lt_irrefl _ (hcreated _ (Or.inr hmem)), fun t e he => ?_⟩
  rcases hcase.fetch_origin hmf he with hold | ⟨q, hl⟩
  · have hmem : t ∈ c.core.extra := AList.lookup_isSome.1 (Option.isSome_of_mem hold)
    refine Or.inl ⟨hold, hcase.sameMasks fun n hn => hcreated n (Or.inl (hn ▸ hmem)), ?_, ?_⟩
    · rintro rfl
      exact hnew.1 hmem
    · rintro rfl
      exact lt_irrefl _ (hcreated _ (Or.inl hmem))
  · obtain rfl : p = q := Except.ok.inj (hp.symm.trans hl.probes)
    have hold : t ∉ c.core.extra := by
      rcases hl.reader with rfl | rfl
      · exact hnew.1
      · exact fun hmem => lt_irrefl _ (hcreated _ (Or.inl hmem))
    rcases hcase.lazyFetch hlazy he with hlookup | ⟨rfl, hread⟩
    · exact absurd (AList.lookup_isSome.1 (Option.isSome_of_mem hlookup)) hold
    · refine Or.inr ⟨rfl, hread, hl.queued, ⟨hl.sectors, hl.bytes⟩, hl.idx, hl.block, ?_⟩
      have hstatus := hl.line (cfg.sectorIndex (c.mfs t).accessSectorMask)
      rw [hlines, Function.update_self] at hstatus
      rw [hstatus]
      exact LineAfter.getStatus_touched_own hlazy.onMiss hp hl.status (.refl _ _)

namespace LazyAccess

variable {c : Cache cfg} {types : DataCacheTypes} {mf : Token} {p : ProbeResult}
  {b : CacheBlock cfg.cacheType} {sends : Bool} {s' : Core cfg} {i : ℕ} {x : Fin 128}

/-- The line that the access finds belongs to its block. -/
theorem found (hacc : LazyAccess c types mf p b sends s') (hmiss : p.status ≠ .miss) :
    (c.core.lines p.idx).tag = cfg.blockAddr (c.mfs mf).addr := by
  obtain ⟨setIndex, -, hprobed⟩ := TagArray.probed_of_probe hacc.probes
  have hne := hprobed.ne_mshrHit
  have hfail := hacc.accepts
  refine (hacc.probes.holds ?_).1
  cases hs : p.status <;> simp_all

/-- No other line that is not invalid belongs to its block. -/
theorem other (hacc : LazyAccess c types mf p b sends s') (hhoused : Housed c.core)
    (hi : i ≠ p.idx) {j : Fin 4} (hlive : (c.core.lines i).getStatus j ≠ .invalid) :
    (c.core.lines i).tag ≠ cfg.blockAddr (c.mfs mf).addr := fun htag =>
  hi (hhoused.finds hacc.probes (CacheBlock.isInvalidLine_of_getStatus _ hlive) htag).1.symm

/-- Dirty bytes of the line: they were dirty, or the write has brought them. -/
theorem dirty_cases (hacc : LazyAccess c types mf p b sends s') (hx : x ∈ b.dirtyByteMask) :
    (c.mfs mf).isWrite = true ∧ x ∈ (c.mfs mf).accessByteMask ∨
      p.status ≠ .miss ∧ x ∈ (c.core.lines p.idx).dirtyByteMask := by
  rw [hacc.line.dirty, Finset.mem_union] at hx
  rcases hx with hx | hx
  · right
    split at hx
    · cases hx
    · next hmiss => exact ⟨hmiss, hx⟩
  · left
    split at hx
    · next hwrite => exact ⟨hwrite, hx⟩
    · cases hx

/-- The bytes of a write are dirty, in a modified sector. -/
theorem modified_of_written (hacc : LazyAccess c types mf p b sends s')
    (hwrite : (c.mfs mf).isWrite = true) (hx : x ∈ (c.mfs mf).accessByteMask) :
    b.getStatus (byteSector x) = .modified ∧ x ∈ b.dirtyByteMask := by
  refine ⟨?_, ?_⟩
  · rw [hacc.inSector.byteSector hx]
    exact hacc.line.written hwrite
  · rw [hacc.line.dirty, if_pos hwrite]
    exact Finset.mem_union_right _ hx

/-- The line keeps its dirty bytes, unless it is taken. -/
theorem dirty_subset (hacc : LazyAccess c types mf p b sends s') (hmiss : p.status ≠ .miss) :
    (c.core.lines p.idx).dirtyByteMask ⊆ b.dirtyByteMask := by
  rw [hacc.line.dirty, if_neg hmiss]
  exact Finset.subset_union_left

end LazyAccess

end OpenCache
