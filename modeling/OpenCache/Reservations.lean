/-
Reserved sectors and the fetches that will fill them.

The tags reserve a sector, the MSHR table remembers who waits for it, and the extra fields of the
request that fetches it remember the index of its line.  Nothing but this index joins the three.
They stay in step as long as every request names the sector that its address lies in, and no line
or sector is given up while its entry is in the table.

* `OpenCache.CacheConfig.addrSector`, `OpenCache.CacheConfig.Matches` — the sector of an address,
  and requests whose sector mask names it;
* `OpenCache.Cache.access_of_sectorMiss` — a sector is missing in sector caches only;
* `OpenCache.Backed` — the invariant: every entry has a line, and every reserved sector a fetch;
* `OpenCache.Backed.waits_for_fetch` — **a request that joins an entry without finding its sector
  waits for the fetch of that sector**;
* `OpenCache.Backed.step` — **one step that keeps the entries keeps the invariant**.
-/

import OpenCache.Residence
import OpenCache.QueueRoom

set_option relaxedAutoImplicit false
set_option autoImplicit false

namespace OpenCache

variable {cfg : CacheConfig}

/-! ### Sectors of addresses -/

namespace CacheConfig

/-- The sector of its block that an address lies in, as the blocks number their states. -/
def addrSector (cfg : CacheConfig) (addr : NewAddrType) : Fin 4 :=
  match cfg.cacheType with
  | .normal => 0
  | .sector => sectorOf addr

/-- The sector mask of a request names the sector that its address lies in. -/
def Matches (cfg : CacheConfig) (m : MemFetch) : Prop :=
  cfg.cacheType = .sector → m.accessSectorMask = {sectorOf m.addr}

instance (cfg : CacheConfig) (m : MemFetch) : Decidable (cfg.Matches m) := by
  unfold Matches
  infer_instance

theorem Matches.sectorIndex {m : MemFetch} (h : cfg.Matches m) :
    cfg.sectorIndex m.accessSectorMask = cfg.addrSector m.addr := by
  refine sectorIndex_eq ?_
  unfold getSectorIndex addrSector
  cases hct : cfg.cacheType with
  | normal => rfl
  | sector =>
      rw [h hct]
      have hindex : ∀ a : Fin 4, (if ({a} : Finset (Fin 4)).card = 1 then
          (.ok (if 0 ∈ ({a} : Finset (Fin 4)) then 0 else if 1 ∈ ({a} : Finset (Fin 4)) then 1
            else if 2 ∈ ({a} : Finset (Fin 4)) then 2 else 3) : Step (Fin 4))
          else .error .sectorIndex) = .ok a := by
        intro a
        rw [if_pos (Finset.card_singleton a)]
        revert a
        decide
      exact hindex _

theorem Checked.addrSector_mshrAddr (hcfg : cfg.Checked) (addr : NewAddrType) :
    cfg.addrSector (cfg.mshrAddr addr) = cfg.addrSector addr := by
  unfold addrSector
  cases hct : cfg.cacheType with
  | normal => rfl
  | sector => exact hcfg.sectorOf_mshrAddr hct addr

/-- The MSHR address of a request is known from its block and its sector. -/
theorem Checked.mshrAddr_eq (hcfg : cfg.Checked) {a b : NewAddrType}
    (hblock : cfg.blockAddr a = cfg.blockAddr b)
    (hsector : cfg.SameSector (cfg.addrSector a) (cfg.addrSector b)) :
    cfg.mshrAddr a = cfg.mshrAddr b := by
  cases hct : cfg.cacheType with
  | normal => exact (hcfg.mshrAddr_eq_iff_normal hct a b).2 hblock
  | sector =>
      refine (hcfg.mshrAddr_eq_iff_sector hct a b).2 ⟨hblock, ?_⟩
      rcases hsector with hn | heq
      · rw [hct] at hn
        cases hn
      · simpa only [addrSector, hct] using heq

end CacheConfig

/-! ### Missing sectors -/

/-- The tags accept a request whose sector is missing in a sector cache only. -/
theorem TagArray.access_of_sectorMiss {ta ta' : TagArray cfg} {addr : NewAddrType} {time : Time}
    {idx : ℕ} {m : MemFetch} {r : AccessResult} {p : ProbeResult}
    (hp : ta.probe addr idx m.accessSectorMask m.isWrite = .ok p) (hs : p.status = .sectorMiss)
    (h : ta.access addr time idx m = .ok (ta', r)) : cfg.cacheType = .sector := by
  obtain ⟨p', hp', h⟩ := bind_eq_ok.1 h
  have hsame : ta.probe addr idx m.accessSectorMask m.isWrite = .ok p' := by
    rw [← hp']
    refine (probe_congr ?_ ?_ _ _ _ _).symm <;> rfl
  rw [hp] at hsame
  cases hsame
  simp only [hs] at h
  obtain ⟨_, hsector, -⟩ := bind_eq_ok.1 h
  exact assertThat_eq_ok.1 hsector

namespace Cache

variable {c c' : Cache cfg} {mf : Token} {time : Time} {events events' : List CacheEvent}
  {p : ProbeResult}

/-- The read miss handler refuses a request whose sector is missing in a normal cache. -/
theorem sendReadRequest_of_sectorMiss {blockAddr : NewAddrType} {idx : ℕ} {readOnly wa : Bool}
    {r : SendResult}
    (hp : c.tagArray.probe blockAddr noIndex (c.mfs mf).accessSectorMask (c.mfs mf).isWrite = .ok p)
    (hs : p.status = .sectorMiss)
    (h : c.sendReadRequest blockAddr idx mf time events readOnly wa = .ok (c', r)) :
    r.doMiss = false ∨ cfg.cacheType = .sector := by
  have hidx : c.tagArray.probe blockAddr idx (c.mfs mf).accessSectorMask (c.mfs mf).isWrite =
      .ok p := TagArray.probe_idx hp (by simp [hs]) idx
  have haccept : ∀ a x, c.acceptMiss blockAddr a idx mf time readOnly = .ok x →
      cfg.cacheType = .sector := by
    intro a x hx
    obtain ⟨⟨ta, r⟩, htags, -⟩ := bind_eq_ok.1 hx
    unfold accessTags at htags
    split at htags
    · exact TagArray.access_of_sectorMiss hidx hs (TagArray.accessNoWriteback_eq_ok htags)
    · exact TagArray.access_of_sectorMiss hidx hs htags
  unfold sendReadRequest at h
  dsimp only at h
  split at h
  · obtain ⟨x, hx, -⟩ := bind_eq_ok.1 h
    exact Or.inr (haccept _ x hx)
  · split at h
    · obtain ⟨x, hx, -⟩ := bind_eq_ok.1 h
      exact Or.inr (haccept _ x hx)
    · split at h
      · cases h
        exact Or.inl rfl
      · split at h
        · cases h
          exact Or.inl rfl
        · cases h

/-- **A read whose sector is missing is accepted in a sector cache only.** -/
theorem access_of_sectorMiss {cls : CacheClass} {addr : NewAddrType} {status : CacheRequestStatus}
    (hp : c.Probes addr (c.mfs mf) p) (hs : p.status = .sectorMiss)
    (hread : (c.mfs mf).isWrite = false)
    (h : c.access cls addr mf time events = .ok (c', status, events'))
    (haccept : status ≠ .reservationFail) : cfg.cacheType = .sector := by
  -- the answer of the tags is the one that the handlers see
  have hsame : ∀ {q : ProbeResult}, ({ c with
      tagArray := { c.tagArray with lastFailReason := q.failReason } } : Cache cfg).Probes addr
        (c.mfs mf) q → q = p := by
    intro q hq
    have hq' : c.Probes addr (c.mfs mf) q := by
      refine Eq.trans ?_ hq
      refine (TagArray.probe_congr ?_ ?_ _ _ _ _).symm <;> rfl
    exact Except.ok.inj (hq'.symm.trans hp)
  cases cls with
  | readOnlyCache =>
      obtain ⟨_, -, h⟩ := bind_eq_ok.1 h
      obtain ⟨_, -, h⟩ := bind_eq_ok.1 h
      obtain ⟨_, -, h⟩ := bind_eq_ok.1 h
      obtain ⟨⟨c₁, q⟩, hprobe, h⟩ := bind_eq_ok.1 h
      obtain ⟨⟨c₂, status₂, events₂⟩, hhandled, h⟩ := bind_eq_ok.1 h
      cases h
      obtain ⟨rfl, hq⟩ := probeTags_eq_ok hprobe
      obtain rfl := hsame hq
      simp only [readOnlyTagProbe, hs, reduceCtorEq, if_false, ne_eq, not_false_eq_true,
        if_true] at hhandled
      split at hhandled
      · cases hhandled
        exact absurd rfl haccept
      · obtain ⟨⟨c₃, r⟩, hsend, hdone⟩ := bind_eq_ok.1 hhandled
        cases hdone
        refine (sendReadRequest_of_sectorMiss hq hs hsend).resolve_left fun hmiss => haccept ?_
        dsimp only
        rw [hmiss]
        rfl
  | dataCache types =>
      obtain ⟨_, -, h⟩ := bind_eq_ok.1 h
      obtain ⟨_, -, h⟩ := bind_eq_ok.1 h
      obtain ⟨⟨c₁, q⟩, hprobe, h⟩ := bind_eq_ok.1 h
      obtain ⟨⟨c₂, status₂, events₂⟩, hhandled, h⟩ := bind_eq_ok.1 h
      cases h
      obtain ⟨rfl, hq⟩ := probeTags_eq_ok hprobe
      obtain rfl := hsame hq
      simp only [processTagProbe, callHandler, hs, hread, reduceCtorEq, false_and, if_false, ne_eq,
        not_false_eq_true, if_true, Bool.false_eq_true] at hhandled
      obtain ⟨⟨c₃, status₃, events₃⟩, hmissed, hport⟩ := bind_eq_ok.1 hhandled
      obtain ⟨c₄, -, hport⟩ := bind_eq_ok.1 hport
      cases hport
      unfold rdMissBase at hmissed
      dsimp only at hmissed
      split at hmissed
      · cases hmissed
        exact absurd rfl haccept
      · obtain ⟨⟨c₅, r⟩, hsend, hdone⟩ := bind_eq_ok.1 hmissed
        refine (sendReadRequest_of_sectorMiss hq hs hsend).resolve_left fun hmiss => haccept ?_
        simp only [hmiss] at hdone
        cases hdone
        rfl

end Cache

/-! ### Flags of sectors -/

namespace CacheBlock

variable {k : CacheType} (b : CacheBlock k)

/-- A sector is readable, or the next fill makes it so. -/
def ReadableLater (i : Fin 4) : Prop :=
  (b.sectorAt i).readable = true ∨ (b.sectorAt i).setReadableOnFill = true

theorem sectorAt_modifySector_other {i j : Fin 4} (hj : ¬(k = .normal ∨ i = j))
    (f : SectorState → SectorState) : (b.modifySector i f).sectorAt j = b.sectorAt j := by
  rw [sectorAt_modifySector, if_neg hj]

/-- Writes and fetches leave the other sectors of their line. -/
theorem sectorAt_marked_other (m : MemFetch) {i j : Fin 4} (hj : ¬(k = .normal ∨ i = j)) :
    (b.marked m i).sectorAt j = b.sectorAt j :=
  b.sectorAt_modifySector_other hj _

theorem sectorAt_readableUpdated_other (m : MemFetch) {i j : Fin 4} (hj : ¬(k = .normal ∨ i = j)) :
    (b.readableUpdated m i).sectorAt j = b.sectorAt j := by
  unfold readableUpdated
  split
  · exact b.sectorAt_modifySector_other hj _
  · rfl

theorem sectorAt_fullWritten_other (m : MemFetch) {i j : Fin 4} (hj : ¬(k = .normal ∨ i = j))
    (status : CacheRequestStatus) : (b.fullWritten m i status).sectorAt j = b.sectorAt j := by
  unfold fullWritten
  split
  · exact ((b.marked m i).sectorAt_modifySector_other hj _).trans (b.sectorAt_marked_other m hj)
  · exact b.sectorAt_marked_other m hj

theorem sectorAt_lazyWritten_other (m : MemFetch) {i j : Fin 4} (hj : ¬(k = .normal ∨ i = j))
    (status : CacheRequestStatus) (atomSz : ℕ) :
    (b.lazyWritten m i status atomSz).sectorAt j = b.sectorAt j := by
  unfold lazyWritten
  dsimp only
  rw [sectorAt_readableUpdated_other _ m hj]
  have hmark := b.sectorAt_marked_other m hj
  have hflag : ∀ (b' : CacheBlock k) (f : SectorState → SectorState),
      b'.sectorAt j = b.sectorAt j → (b'.modifySector i f).sectorAt j = b.sectorAt j :=
    fun b' f hb' => (b'.sectorAt_modifySector_other hj f).trans hb'
  by_cases hs : status = .hitReserved
  · have hfill :
        ((((b.marked m i).setIgnoreOnFill true i).setModifiedOnFill true i).putByteMaskOnFill
        true).sectorAt j = b.sectorAt j := hflag _ _ (hflag _ _ hmark)
    rw [if_pos hs]
    split
    · exact hflag _ _ hfill
    · exact hflag _ _ (hflag _ _ hfill)
  · rw [if_neg hs]
    split <;> exact hflag _ _ hmark

theorem sectorAt_fill (i j : Fin 4) (byteMask : MemAccessByteMask) :
    (b.fill i byteMask).sectorAt j =
      if k = .normal ∨ i = j then fillSector k (b.sectorAt j) else b.sectorAt j := by
  rw [← sectorAt_modifySector]
  unfold fill
  dsimp only
  split <;> rfl

variable {b}

/-- The fill makes readable what it was asked to. -/
theorem ReadableLater.fill {i : Fin 4} (h : b.ReadableLater i) (byteMask : MemAccessByteMask) :
    (b.fill i byteMask).isReadable i = true := by
  rw [isReadable, sectorAt_fill, if_pos (Or.inr rfl)]
  rcases h with h | h
  · simp [fillSector, h]
  · simp [fillSector, h]

/-- An update of a sector that leaves it readable, now or after the fill. -/
theorem ReadableLater.modifySector {i j : Fin 4} (h : b.ReadableLater j)
    {f : SectorState → SectorState}
    (hf : ∀ s, s.readable = true ∨ s.setReadableOnFill = true →
      (f s).readable = true ∨ (f s).setReadableOnFill = true) :
    (b.modifySector i f).ReadableLater j := by
  unfold ReadableLater
  rw [sectorAt_modifySector]
  split
  · exact hf _ h
  · exact h

theorem ReadableLater.readableUpdated {i j : Fin 4} (h : b.ReadableLater j) (m : MemFetch) :
    (b.readableUpdated m i).ReadableLater j := by
  unfold CacheBlock.readableUpdated
  split
  · exact h.modifySector fun _ _ => Or.inl rfl
  · exact h

theorem ReadableLater.fullWritten {i j : Fin 4} (h : b.ReadableLater j) (m : MemFetch)
    (status : CacheRequestStatus) : (b.fullWritten m i status).ReadableLater j := by
  have hmark : (b.marked m i).ReadableLater j := h.modifySector fun _ hs => hs
  unfold CacheBlock.fullWritten
  split
  · exact hmark.modifySector fun _ hs => hs
  · exact hmark

/-- A lazy write over a reserved sector asks the fill to make it readable. -/
theorem ReadableLater.lazyWritten {i j : Fin 4} (h : b.ReadableLater j) (m : MemFetch)
    (atomSz : ℕ) : (b.lazyWritten m i .hitReserved atomSz).ReadableLater j := by
  have hmark : (b.marked m i).ReadableLater j := h.modifySector fun _ hs => hs
  have hignore : ((b.marked m i).setIgnoreOnFill true i).ReadableLater j :=
    hmark.modifySector fun _ hs => hs
  have hmodified : (((b.marked m i).setIgnoreOnFill true i).setModifiedOnFill true i).ReadableLater
      j := hignore.modifySector fun _ hs => hs
  have hfill : ((((b.marked m i).setIgnoreOnFill true i).setModifiedOnFill true i).putByteMaskOnFill
      true).ReadableLater j := hmodified
  unfold CacheBlock.lazyWritten
  simp only [if_true]
  split
  · exact (hfill.modifySector fun _ _ => Or.inl rfl).readableUpdated m
  · refine ReadableLater.readableUpdated ?_ m
    unfold setReadableOnFill setMReadable
    rw [modifySector_modifySector]
    exact hfill.modifySector fun _ _ => Or.inr rfl

end CacheBlock

/-! ### The line of an access -/

section Access

variable {c : Cache cfg} {cls : CacheClass} {addr : NewAddrType} {mf : Token} {time : Time}
  {status : CacheRequestStatus} {s' : Core cfg} {p : ProbeResult} {line : CacheBlock cfg.cacheType}

/-- A hit leaves what was readable, unless it evicts. -/
theorem HitEffect.isReadable {m : MemFetch} {i j : Fin 4} {b : CacheBlock cfg.cacheType}
    {forward : Bool} (h : HitEffect cfg cls m time i b line forward)
    (hb : b.isReadable j = true) : line.isReadable j = true := by
  cases h with
  | read => exact hb
  | write =>
      have hmark : ((b.setLastAccessTime time).marked m i).isReadable j = true := by
        unfold CacheBlock.isReadable CacheBlock.marked CacheBlock.setStatus
        rw [CacheBlock.sectorAt_setByteMask, CacheBlock.sectorAt_modifySector]
        split <;> exact hb
      unfold CacheBlock.readableUpdated
      split
      · unfold CacheBlock.isReadable CacheBlock.setMReadable
        rw [CacheBlock.sectorAt_modifySector]
        split
        · rfl
        · exact hmark
      · exact hmark
  | evict =>
      unfold CacheBlock.isReadable CacheBlock.setStatus
      rw [CacheBlock.sectorAt_modifySector]
      split <;> exact hb

theorem HitEffect.readableLater {m : MemFetch} {i j : Fin 4} {b : CacheBlock cfg.cacheType}
    {forward : Bool} (h : HitEffect cfg cls m time i b line forward)
    (hb : b.ReadableLater j) : line.ReadableLater j := by
  cases h with
  | read => exact hb
  | write =>
      have hmark : ((b.setLastAccessTime time).marked m i).ReadableLater j :=
        CacheBlock.ReadableLater.modifySector hb fun _ hs => hs
      exact hmark.readableUpdated m
  | evict => exact hb.modifySector fun _ hs => hs

/-- An access that takes no line leaves the other sectors of its line. -/
theorem LineAfter.sectorAt_other (h : LineAfter c cls addr mf time p line)
    (hon : cfg.allocPolicy = .onMiss) (hmiss : p.status ≠ .miss) {j : Fin 4}
    (hj : ¬cfg.SameSector (cfg.sectorIndex (c.mfs mf).accessSectorMask) j) :
    line.sectorAt j = (c.tagArray.lines p.idx).sectorAt j := by
  have htouched : (c.touched addr (c.mfs mf) time p).sectorAt j =
      (c.tagArray.lines p.idx).sectorAt j := by
    unfold Cache.touched
    rcases h.found hmiss with hs | hs | hs
    · rw [hs]
      rfl
    · rw [hs]
      rfl
    · rw [hs]
      simp only [TagArray.touchedLine, if_pos hon]
      exact CacheBlock.sectorAt_modifySector_other _ hj _
  cases h with
  | hit hs _ _ heffect =>
      cases heffect with
      | read => rfl
      | write =>
          rw [CacheBlock.sectorAt_readableUpdated_other _ _ hj,
            CacheBlock.sectorAt_marked_other _ _ hj]
          rfl
      | evict => exact CacheBlock.sectorAt_modifySector_other _ hj _
  | write hs _ _ _ heffect =>
      rw [← htouched]
      cases heffect with
      | full => exact CacheBlock.sectorAt_fullWritten_other _ _ hj _
      | onRead => exact CacheBlock.sectorAt_lazyWritten_other _ _ hj _ _
  | fetch hs _ _ _ hfetcher =>
      rw [← htouched]
      cases hfetcher with
      | read => rfl
      | naive => rfl
      | fetchOnWrite => exact CacheBlock.sectorAt_modifySector_other _ hj _

/-- The sector that an access to a sector cache has reserved, or found, will be readable. -/
theorem LineAfter.readableLater (h : LineAfter c cls addr mf time p line)
    (hsector : cfg.cacheType = .sector) (hon : cfg.allocPolicy = .onMiss)
    (hnew : line.getStatus (cfg.sectorIndex (c.mfs mf).accessSectorMask) = .reserved ∨
      p.status = .hit ∨ p.status = .hitReserved)
    (hold : p.status = .hit ∨ p.status = .hitReserved →
      (c.tagArray.lines p.idx).ReadableLater (cfg.sectorIndex (c.mfs mf).accessSectorMask)) :
    line.ReadableLater (cfg.sectorIndex (c.mfs mf).accessSectorMask) := by
  have htouched : p.status ≠ .hit → p.status = .hitReserved ∨ p.status = .miss ∨
      p.status = .sectorMiss → (c.touched addr (c.mfs mf) time p).ReadableLater
        (cfg.sectorIndex (c.mfs mf).accessSectorMask) := by
    intro hne hs
    unfold Cache.touched
    rcases hs with hs | hs | hs
    · rw [hs]
      exact hold (Or.inr hs)
    · rw [hs]
      simp only [TagArray.touchedLine, if_pos hon]
      left
      generalize c.tagArray.lines p.idx = b
      generalize cfg.sectorIndex (c.mfs mf).accessSectorMask = i
      revert b
      rw [hsector]
      rintro ⟨_, _, _, _, _, _, _, _, ⟨s⟩⟩
      simp [CacheBlock.allocate, CacheBlock.sectorAt, CacheBlock.reserveSector, SectorState.init]
    · rw [hs]
      simp only [TagArray.touchedLine, if_pos hon]
      left
      change (((c.tagArray.lines p.idx).modifySector _ CacheBlock.reserveSectorAgain).sectorAt
        _).readable = true
      rw [CacheBlock.sectorAt_modifySector_self]
      rfl
  cases h with
  | hit hs _ _ heffect => exact heffect.readableLater (hold (Or.inl hs))
  | write hs hwrite _ _ heffect =>
      have hne : p.status ≠ .hit := by rcases hs with hs | hs | hs <;> simp [hs]
      have hreserved : p.status = .hitReserved := by
        rcases hnew with hstatus | hhit | hreserved
        · rw [heffect.getStatus, if_pos (.refl _ _)] at hstatus
          cases hstatus
        · exact absurd hhit hne
        · exact hreserved
      cases heffect with
      | full => exact (htouched hne hs).fullWritten _ _
      | onRead =>
          rw [hreserved]
          exact (htouched hne hs).lazyWritten _ _
  | fetch hs _ _ _ hfetcher =>
      have hne : p.status ≠ .hit := by rcases hs with hs | hs | hs <;> simp [hs]
      cases hfetcher with
      | read => exact htouched hne hs
      | naive => exact htouched hne hs
      | fetchOnWrite => exact (htouched hne hs).modifySector fun _ hs => hs

/-! ### The entries after an access -/

/-- An access answers no fetch. -/
theorem AccessCase.answered_eq (hcase : AccessCase c cls addr mf time status s') :
    s'.answered = c.core.answered := by
  cases hcase with
  | refused => rfl
  | hit => simp [Core.setLine]
  | forward => rfl
  | write => simp [Core.setLine]
  | fetch _ _ _ _ _ _ _ hfetcher => simp [Core.setLine, hfetcher.frame.2.2.1]

/-- An entry that is new is that of the access, and its fetch is under way. -/
theorem AccessCase.entry_origin (hcase : AccessCase c cls addr mf time status s') {a : NewAddrType}
    (ha : a ∈ s'.entries) : a ∈ c.core.entries ∨
      a = cfg.mshrAddr (c.mfs mf).addr ∧ ∃ t e, s'.extra.lookup t = some e ∧ e.blockAddr = a := by
  cases hcase with
  | refused => exact Or.inl ha
  | hit => exact Or.inl (by simpa [Core.setLine] using ha)
  | forward => exact Or.inl ha
  | write => exact Or.inl (by simpa [Core.setLine] using ha)
  | fetch p hp hs _ reader s written hfetcher =>
      have hentries : s.entries = c.core.entries := hfetcher.frame.2.1
      simp only [Core.sendOwn_frame, Core.setLine, Core.miss_frame, Core.join, hentries,
        AList.mem_insert] at ha
      rcases ha with rfl | ha
      · cases hl : c.core.entries.lookup (cfg.mshrAddr (c.mfs mf).addr) with
        | some l => exact Or.inl (AList.lookup_isSome.1 (by rw [hl]; rfl))
        | none =>
            refine Or.inr ⟨rfl, reader,
              .new cfg (cfg.mshrAddr (c.mfs mf).addr) (s.mfs reader).addr p.idx
                (s.mfs reader).dataSize, ?_, rfl⟩
            simp only [Core.sendOwn_frame, Core.setLine, Core.miss_extra, hentries, hl]
            exact AList.lookup_insert _
      · exact Or.inl ha

/-- A sector that an access reserves is fetched, and has an entry afterwards. -/
theorem AccessCase.enters (hcase : AccessCase c cls addr mf time status s')
    (hp : c.Probes addr (c.mfs mf) p) (hs : p.status ≠ .hit)
    (hreserved : (s'.lines p.idx).getStatus (cfg.sectorIndex (c.mfs mf).accessSectorMask) =
      .reserved) :
    s'.lines p.idx = c.tagArray.lines p.idx ∨
      cfg.mshrAddr (c.mfs mf).addr ∈ s'.entries ∧ Cache.fetches cfg (c.mfs mf) = true := by
  have hsame : ∀ {q}, c.Probes addr (c.mfs mf) q → q = p := fun hq =>
    Except.ok.inj (hq.symm.trans hp)
  cases hcase with
  | refused => exact Or.inl rfl
  | hit q hq hhit =>
      rw [hsame hq] at hhit
      exact absurd hhit hs
  | forward => exact Or.inl rfl
  | write q hq _ _ _ _ _ line forward heffect =>
      obtain rfl := hsame hq
      simp only [Core.sendOwn_frame, Core.setLine_lines_self] at hreserved
      rw [heffect.getStatus, if_pos (.refl _ _)] at hreserved
      cases hreserved
  | fetch q _ _ _ reader s written hfetcher =>
      refine Or.inr ⟨?_, (hfetcher.queue hs).2.1⟩
      simp only [Core.sendOwn_frame, Core.setLine, Core.miss_frame, Core.join, AList.mem_insert,
        true_or]

/-- The line that an access leaves, pinned or not. -/
theorem LineAfter.exists_sectors (h : LineAfter c cls addr mf time p line)
    (hon : cfg.allocPolicy = .onMiss) (htagged : Tagged c.core) (hp : c.Probes addr (c.mfs mf) p)
    (hlines : s'.lines = Function.update c.tagArray.lines p.idx line ∨
      s'.lines = Function.update c.tagArray.lines p.idx line.pin) :
    ∃ b : CacheBlock cfg.cacheType, b.tag = cfg.blockAddr addr ∧
      (∀ j, b.sectorAt j = line.sectorAt j) ∧
        s'.lines = Function.update c.tagArray.lines p.idx b := by
  have hb := h.belongsTo hon htagged hp
  rcases hlines with hlines | hlines
  · exact ⟨line, hb.1, fun _ => rfl, hlines⟩
  · exact ⟨line.pin, hb.pin.1, fun _ => rfl, hlines⟩

end Access

/-- Flushes and invalidations reserve nothing. -/
theorem TagArray.reserved_of_flush (ta : TagArray cfg) {i : ℕ} {j : Fin 4}
    (h : (ta.flush.lines i).getStatus j = .reserved) : (ta.lines i).getStatus j = .reserved := by
  unfold TagArray.flush at h
  split at h
  · dsimp only at h
    split at h
    · rw [getStatus_invalidateLine] at h
      cases h
    · exact h
  · exact h

theorem TagArray.reserved_of_invalidate (ta : TagArray cfg) {i : ℕ} {j : Fin 4}
    (h : (ta.invalidate.lines i).getStatus j = .reserved) :
    (ta.lines i).getStatus j = .reserved := by
  unfold TagArray.invalidate at h
  dsimp only at h
  split at h
  · rw [getStatus_invalidateLine] at h
    cases h
  · exact h

/-! ### The invariant -/

/-- Every entry of the MSHR table has a line that holds its sector, readable once the fetch has been
answered, and every reserved sector has a fetch under way. -/
structure Backed (s : Core cfg) : Prop where
  aligned : ∀ a ∈ s.entries, cfg.mshrAddr a = a
  matched : ∀ t e, s.extra.lookup t = some e →
    cfg.sectorIndex (s.mfs t).accessSectorMask = cfg.addrSector e.blockAddr
  held : ∀ a ∈ s.entries, ∃ i, (s.lines i).tag = cfg.blockAddr a ∧
    (s.lines i).getStatus (cfg.addrSector a) ≠ .invalid
  settled : ∀ a ∈ s.answered, ∀ i, (s.lines i).tag = cfg.blockAddr a →
    (s.lines i).getStatus (cfg.addrSector a) ≠ .invalid →
      (s.lines i).getStatus (cfg.addrSector a) ≠ .reserved ∧
        (cfg.cacheType = .sector → (s.lines i).isReadable (cfg.addrSector a) = true)
  restored : cfg.cacheType = .sector → ∀ t e, s.extra.lookup t = some e →
    (s.lines e.cacheIndex).ReadableLater (cfg.addrSector e.blockAddr)
  reserved : ∀ i j, (s.lines i).getStatus j = .reserved → ∃ t e, s.extra.lookup t = some e ∧
    e.cacheIndex = i ∧ cfg.SameSector (cfg.addrSector e.blockAddr) j

/-- An access gives up no line and no sector of an entry: it takes no line that holds the block of
one, and evicts no sector that has one. -/
def Cache.KeepsEntries (c : Cache cfg) (addr : NewAddrType) (m : MemFetch) : Prop :=
  ∀ p, c.Probes addr m p →
    (takesLine cfg m p.status → (c.tagArray.lines p.idx).isInvalidLine = false →
      ∀ a ∈ c.core.entries, cfg.blockAddr a ≠ (c.tagArray.lines p.idx).tag) ∧
    (p.status = .hit → m.isWrite = true → evictsOnWriteHit cfg m →
      cfg.mshrAddr addr ∉ c.core.entries)

namespace Backed

variable {s s' : Core cfg}

/-- Nothing changes but pins, access times, and the number of missing responses; entries may go. -/
theorem of_same (h : Backed s) (hentries : ∀ a ∈ s'.entries, a ∈ s.entries)
    (hanswered : ∀ a ∈ s'.answered, a ∈ s.answered)
    (hextra : ∀ t e, s'.extra.lookup t = some e → ∃ e₀, s.extra.lookup t = some e₀ ∧
      e.cacheIndex = e₀.cacheIndex ∧ e.blockAddr = e₀.blockAddr ∧ SameMasks s s' t)
    (hstays : ∀ t e₀, s.extra.lookup t = some e₀ → ∃ e, s'.extra.lookup t = some e ∧
      e.cacheIndex = e₀.cacheIndex ∧ e.blockAddr = e₀.blockAddr)
    (hlines : ∀ i, (s'.lines i).tag = (s.lines i).tag ∧
      ∀ j, (s'.lines i).sectorAt j = (s.lines i).sectorAt j) : Backed s' := by
  have hstatus : ∀ i j, (s'.lines i).getStatus j = (s.lines i).getStatus j := fun i j =>
    congrArg SectorState.status ((hlines i).2 j)
  refine ⟨fun a ha => h.aligned a (hentries a ha), fun t e he => ?_, fun a ha => ?_,
    fun a ha i htag hstate => ?_, fun hsector t e he => ?_, fun i j hreserved => ?_⟩
  · obtain ⟨e₀, he₀, -, hblock, hmasks⟩ := hextra t e he
    rw [hmasks.sectors, hblock]
    exact h.matched t e₀ he₀
  · obtain ⟨i, htag, hstate⟩ := h.held a (hentries a ha)
    exact ⟨i, (hlines i).1.trans htag, by rwa [hstatus]⟩
  · rw [(hlines i).1] at htag
    rw [hstatus] at hstate ⊢
    rw [CacheBlock.isReadable, (hlines i).2]
    exact h.settled a (hanswered a ha) i htag hstate
  · obtain ⟨e₀, he₀, hidx, hblock, -⟩ := hextra t e he
    rw [CacheBlock.ReadableLater, (hlines e.cacheIndex).2, hidx, hblock]
    exact h.restored hsector t e₀ he₀
  · rw [hstatus] at hreserved
    obtain ⟨t, e₀, he₀, hidx, hsame⟩ := h.reserved i j hreserved
    obtain ⟨e, he, hidx', hblock⟩ := hstays t e₀ he₀
    exact ⟨t, e, he, hidx'.trans hidx, by rwa [hblock]⟩

/-! ### Requests that join an entry -/

section Join

variable {c : Cache cfg} {m : MemFetch} {p : ProbeResult} {sent : List Token}

/-- **The tags find the line of an entry.** -/
theorem locate (h : Backed c.core) (hcfg : cfg.Checked) (hresident : Resident c.core)
    (hp : c.Probes m.addr m p) (ha : cfg.mshrAddr m.addr ∈ c.core.entries) :
    (c.tagArray.lines p.idx).tag = cfg.blockAddr m.addr ∧
      (c.tagArray.lines p.idx).getStatus (cfg.addrSector m.addr) ≠ .invalid ∧
        (p.status = .hit ∨ p.status = .hitReserved ∨ p.status = .sectorMiss) := by
  obtain ⟨i, htag, hstate⟩ := h.held _ ha
  rw [hcfg.blockAddr_mshrAddr] at htag
  rw [hcfg.addrSector_mshrAddr] at hstate
  obtain ⟨hidx, hs⟩ := hresident.housed.finds hp
    (CacheBlock.isInvalidLine_of_getStatus _ hstate) htag
  subst hidx
  exact ⟨htag, hstate, hs⟩

/-- The entry of a request that is found reserved, or modified and not readable, is waiting for its
fetch, which will fill the sector that was found. -/
theorem waits_for_fetch (h : Backed c.core) (hcfg : cfg.Checked) (hresident : Resident c.core)
    (htracked : Tracked c.core sent) (hmatches : cfg.Matches m) (hp : c.Probes m.addr m p)
    (ha : cfg.mshrAddr m.addr ∈ c.core.entries) (hhit : p.status ≠ .hit)
    (hsector : p.status = .sectorMiss → m.isWrite = false → cfg.cacheType = .sector) :
    ∃ t e, c.core.extra.lookup t = some e ∧ e.blockAddr = cfg.mshrAddr m.addr ∧
      e.cacheIndex = p.idx := by
  obtain ⟨htag, hstate, hs⟩ := h.locate hcfg hresident hp ha
  obtain ⟨-, hmatch⟩ := hp.sectorIndex hs
  rw [hmatches.sectorIndex] at hmatch
  have hsettled := h.settled (cfg.mshrAddr m.addr)
  rw [hcfg.blockAddr_mshrAddr, hcfg.addrSector_mshrAddr] at hsettled
  have hwaits : cfg.mshrAddr m.addr ∉ c.core.answered := by
    intro hanswered
    obtain ⟨hreserved, hreadable⟩ := hsettled hanswered p.idx htag hstate
    rcases hs with hs | hs | hs
    · exact hhit hs
    · rw [hs, CacheBlock.matchStatus_eq_hitReserved] at hmatch
      exact hreserved hmatch
    · rw [hs, CacheBlock.matchStatus_eq_sectorMiss] at hmatch
      rcases hmatch with ⟨-, hread, hnot⟩ | ⟨hinvalid, -⟩
      · have hopen := hreadable (hsector hs hread)
        change (c.tagArray.lines p.idx).isReadable (cfg.addrSector m.addr) = true at hopen
        rw [hnot] at hopen
        cases hopen
      · exact hstate hinvalid
  obtain ⟨t, e, he, hblock⟩ := htracked.fetched _ ha hwaits
  refine ⟨t, e, he, hblock, ?_⟩
  refine hresident.housed.unique _ _ (CacheBlock.isInvalidLine_of_getStatus _
    (hresident.anchored.sector t e he)) (CacheBlock.isInvalidLine_of_getStatus _ hstate) ?_
  rw [(hresident.anchored.tenant t e he).1, hblock, hcfg.blockAddr_mshrAddr]
  exact htag.symm

/-- A request that is found reserved has an entry, and its fetch will fill the sector. -/
theorem fetch_of_hitReserved (h : Backed c.core) (hcfg : cfg.Checked) (hresident : Resident c.core)
    (htracked : Tracked c.core sent) (hmatches : cfg.Matches m) (hp : c.Probes m.addr m p)
    (hs : p.status = .hitReserved) :
    ∃ t e, c.core.extra.lookup t = some e ∧ e.blockAddr = cfg.mshrAddr m.addr ∧
      e.cacheIndex = p.idx := by
  obtain ⟨-, hmatch⟩ := hp.sectorIndex (Or.inr (Or.inl hs))
  rw [hs, CacheBlock.matchStatus_eq_hitReserved, hmatches.sectorIndex] at hmatch
  obtain ⟨t, e, he, hidx, hsame⟩ := h.reserved p.idx _ hmatch
  refine ⟨t, e, he, ?_, hidx⟩
  rw [← (htracked.fetching t e he).1.aligned]
  refine hcfg.mshrAddr_eq ?_ hsame
  rw [← (hresident.anchored.tenant t e he).1, hidx]
  exact (hp.holds (Or.inr (Or.inl hs))).1

end Join

/-! ### Accesses -/

section Access

variable {c : Cache cfg} {cls : CacheClass} {mf : Token} {time : Time}
  {status : CacheRequestStatus} {sent : List Token}

/-- An access that keeps the entries takes no line from one. -/
theorem spared (hkeeps : c.KeepsEntries (c.mfs mf).addr (c.mfs mf))
    (hon : cfg.allocPolicy = .onMiss)
    {p : ProbeResult} {line : CacheBlock cfg.cacheType} (hp : c.Probes (c.mfs mf).addr (c.mfs mf) p)
    (hline : LineAfter c cls (c.mfs mf).addr mf time p line) {a : NewAddrType}
    (ha : a ∈ c.core.entries) (htag : (c.tagArray.lines p.idx).tag = cfg.blockAddr a) {j : Fin 4}
    (hstate : (c.tagArray.lines p.idx).getStatus j ≠ .invalid) : p.status ≠ .miss := fun hmiss =>
  (hkeeps p hp).1 (hline.takesLine hon hmiss) (CacheBlock.isInvalidLine_of_getStatus _ hstate) a ha
    htag.symm

/-- A sector that has an entry, after an access that keeps the entries. -/
theorem held_of_access (h : Backed c.core) (hcfg : cfg.Checked) (hon : cfg.allocPolicy = .onMiss)
    (hresident : Resident c.core) (hmatches : cfg.Matches (c.mfs mf))
    (hkeeps : c.KeepsEntries (c.mfs mf).addr (c.mfs mf))
    (hcase : AccessCase c cls (c.mfs mf).addr mf time status s') {a : NewAddrType}
    (ha : a ∈ c.core.entries) :
    ∃ i, (s'.lines i).tag = cfg.blockAddr a ∧
      (s'.lines i).getStatus (cfg.addrSector a) ≠ .invalid := by
  obtain ⟨i, htag, hstate⟩ := h.held a ha
  obtain ⟨hblock, hstays⟩ := hcase.sector_stays hon hresident.tagged hstate
    fun p line hp hline hidx => by
      subst hidx
      have hmiss := spared hkeeps hon hp hline ha htag hstate
      refine ⟨hmiss, fun hs hwrite hevicts hsame => ?_⟩
      have hsameBlock : cfg.blockAddr (c.mfs mf).addr = cfg.blockAddr a :=
        (hp.holds (hline.found hmiss)).1.symm.trans htag
      rw [hmatches.sectorIndex] at hsame
      have hentry : cfg.mshrAddr (c.mfs mf).addr = a :=
        (hcfg.mshrAddr_eq hsameBlock hsame).trans (h.aligned a ha)
      exact (hkeeps p hp).2 hs hwrite hevicts (hentry ▸ ha)
  exact ⟨i, (hblock _ (hresident.tagged i)).1.trans htag, hstays⟩

/-- A sector whose fetch has been answered stays readable. -/
theorem settled_of_access (h : Backed c.core) (hcfg : cfg.Checked) (hon : cfg.allocPolicy = .onMiss)
    (hresident : Resident c.core) (htracked : Tracked c.core sent)
    (hmatches : cfg.Matches (c.mfs mf))
    (hkeeps : c.KeepsEntries (c.mfs mf).addr (c.mfs mf))
    (hsector : ∀ p, c.Probes (c.mfs mf).addr (c.mfs mf) p → p.status = .sectorMiss →
      (c.mfs mf).isWrite = false → cfg.cacheType = .sector)
    (hcase : AccessCase c cls (c.mfs mf).addr mf time status s') {a : NewAddrType}
    (ha : a ∈ c.core.answered) {i : ℕ} (htag : (s'.lines i).tag = cfg.blockAddr a)
    (hstate : (s'.lines i).getStatus (cfg.addrSector a) ≠ .invalid) :
    (s'.lines i).getStatus (cfg.addrSector a) ≠ .reserved ∧
      (cfg.cacheType = .sector → (s'.lines i).isReadable (cfg.addrSector a) = true) := by
  have hentry := htracked.answered a ha
  rcases hcase.line_after with ⟨hlines, -⟩ | ⟨p, line, hp, hline, hlines⟩
  · rw [hlines] at htag hstate ⊢
    exact h.settled a ha i htag hstate
  obtain ⟨b, hb, hsectors, hlines⟩ := hline.exists_sectors hon hresident.tagged hp hlines
  by_cases hi : i = p.idx
  · subst hi
    rw [hlines, Function.update_self] at htag hstate ⊢
    rw [CacheBlock.getStatus, hsectors] at hstate ⊢
    rw [CacheBlock.isReadable, hsectors]
    have hblock : cfg.blockAddr (c.mfs mf).addr = cfg.blockAddr a := hb.symm.trans htag
    by_cases hj : cfg.SameSector (cfg.sectorIndex (c.mfs mf).accessSectorMask) (cfg.addrSector a)
    · -- the request has the entry, and its sector can only be hit
      have hj' := hj
      rw [hmatches.sectorIndex] at hj'
      have hsame : cfg.mshrAddr (c.mfs mf).addr = a :=
        (hcfg.mshrAddr_eq hblock hj').trans (h.aligned a hentry)
      obtain ⟨hheld, hbefore, hs⟩ := h.locate hcfg hresident hp (hsame ▸ hentry)
      -- anything but a hit would wait for a fetch that is still under way
      have hhit : p.status = .hit := by
        by_contra hne
        obtain ⟨t, e, he, hfetch, -⟩ := h.waits_for_fetch hcfg hresident htracked hmatches hp
          (hsame ▸ hentry) hne (hsector p hp)
        exact (htracked.entry t e he).2 (by rwa [hfetch, hsame])
      have hsettled := h.settled a ha p.idx (hheld.trans hblock)
      rw [← hsame, hcfg.addrSector_mshrAddr] at hsettled ⊢
      obtain ⟨hreserved, hreadable⟩ := hsettled hbefore
      cases hline with
      | hit _ _ _ heffect =>
          refine ⟨?_, fun hct => heffect.isReadable (hreadable hct)⟩
          cases heffect with
          | read => exact hreserved
          | write =>
              change CacheBlock.getStatus _ _ ≠ _
              rw [CacheBlock.getStatus_readableUpdated, CacheBlock.getStatus_marked]
              split
              · simp
              · exact hreserved
          | evict hwrite _ _ hevicts =>
              exact absurd (hsame ▸ hentry) ((hkeeps p hp).2 hhit hwrite hevicts)
      | write hs => rcases hs with hs | hs | hs <;> simp [hhit] at hs
      | fetch hs => rcases hs with hs | hs | hs <;> simp [hhit] at hs
    -- an allocation clears the other sectors, and nothing else touches them
    · by_cases hmiss : p.status = .miss
      · have hcleared := hline.getStatus_other hon hj
        rw [if_pos hmiss] at hcleared
        exact absurd hcleared hstate
      · rw [hline.sectorAt_other hon hmiss hj] at hstate ⊢
        exact h.settled a ha p.idx ((hp.holds (hline.found hmiss)).1.trans hblock) hstate
  · rw [hlines, Function.update_of_ne hi] at htag hstate ⊢
    exact h.settled a ha i htag hstate

/-- A sector that is found reserved is not fetched again. -/
theorem ne_hitReserved (h : Backed c.core) (hcfg : cfg.Checked) (hresident : Resident c.core)
    (htracked : Tracked c.core sent) (hmatches : cfg.Matches (c.mfs mf))
    {p : ProbeResult} {t : Token}
    {e : ExtraMfFields} (hl : Launched c (c.mfs mf).addr mf time s' p t e) :
    p.status ≠ .hitReserved := by
  intro hs
  obtain ⟨t', e', he', hblock, -⟩ :=
    h.fetch_of_hitReserved hcfg hresident htracked hmatches hl.probes hs
  have hentry := (htracked.entry t' e' he').1
  rw [hblock, ← AList.lookup_isSome, hl.fresh] at hentry
  cases hentry

/-- A sector that is fetched will be readable, after an access that keeps the entries. -/
theorem restored_of_access (h : Backed c.core) (hcfg : cfg.Checked)
    (hon : cfg.allocPolicy = .onMiss) (hresident : Resident c.core) (htracked : Tracked c.core sent)
    (hmatches : cfg.Matches (c.mfs mf)) (hcaller : ∀ n, mf ≠ .created n)
    (hkeeps : c.KeepsEntries (c.mfs mf).addr (c.mfs mf))
    (hcase : AccessCase c cls (c.mfs mf).addr mf time status s') (hct : cfg.cacheType = .sector)
    {t : Token} {e : ExtraMfFields} (he : s'.extra.lookup t = some e) :
    (s'.lines e.cacheIndex).ReadableLater (cfg.addrSector e.blockAddr) := by
  rcases hcase.line_after with ⟨hlines, -⟩ | ⟨p, line, hp, hline, hlines⟩
  · rcases hcase.fetch_origin hcaller he with he' | ⟨p, hl⟩
    · rw [hlines]
      exact h.restored hct t e he'
    · -- the line was found reserved, and then the entry is not new
      have hreserved := hl.line (cfg.sectorIndex (c.mfs mf).accessSectorMask)
      rw [LineAfter.getStatus_touched_own hon hl.probes hl.status (.refl _ _), hlines] at hreserved
      exfalso
      have hs : p.status = .hitReserved := by
        obtain ⟨setIndex, -, hprobed⟩ := TagArray.probed_of_probe hl.probes
        rcases hl.status with hs | hs | hs
        · exact hs
        · have hcell := (hl.tenant _ (hresident.tagged.touched hon hl.probes hl.status time)).1
          rw [hlines] at hcell
          have habsent := hprobed.absent (Or.inl hs) p.idx (hprobed.miss hs).1
          rw [CacheConfig.tag_eq_blockAddr, CacheConfig.blockAddr_blockAddr] at habsent
          exact absurd ⟨hcell, CacheBlock.isInvalidLine_of_getStatus _ (by rw [hreserved]; simp)⟩
            habsent
        · obtain ⟨-, hmatch⟩ := hl.probes.sectorIndex (Or.inr (Or.inr hs))
          rw [CacheBlock.matchStatus_eq_hitReserved.2 hreserved, hs] at hmatch
          cases hmatch
      exact h.ne_hitReserved hcfg hresident htracked hmatches hl hs
  obtain ⟨b, hb, hsectors, hlines⟩ := hline.exists_sectors hon hresident.tagged hp hlines
  have hself : ∀ j, line.ReadableLater j → (s'.lines p.idx).ReadableLater j := fun j hj => by
    rwa [hlines, Function.update_self, CacheBlock.ReadableLater, hsectors]
  rcases hcase.fetch_origin hcaller he with he' | ⟨q, hl⟩
  · have hbefore := h.restored hct t e he'
    by_cases hi : e.cacheIndex = p.idx
    · have htenant := (hresident.anchored.tenant t e he').1
      have hstate := hresident.anchored.sector t e he'
      rw [h.matched t e he'] at hstate
      rw [hi] at htenant hstate hbefore ⊢
      have hmiss := spared hkeeps hon hp hline (htracked.entry t e he').1 htenant hstate
      refine hself _ ?_
      by_cases hj : cfg.SameSector (cfg.sectorIndex (c.mfs mf).accessSectorMask)
          (cfg.addrSector e.blockAddr)
      · have hsame : cfg.addrSector e.blockAddr = cfg.sectorIndex (c.mfs mf).accessSectorMask := by
          rcases hj with hn | heq
          · rw [hct] at hn
            cases hn
          · exact heq.symm
        rw [hsame] at hbefore hstate ⊢
        refine hline.readableLater hct hon ?_ fun _ => hbefore
        rcases hline.found hmiss with hs | hs | hs
        · exact Or.inr (Or.inl hs)
        · exact Or.inr (Or.inr hs)
        · -- a modified sector that is not readable is missing for reads only
          obtain ⟨-, hmatch⟩ := hp.sectorIndex (Or.inr (Or.inr hs))
          rw [hs, CacheBlock.matchStatus_eq_sectorMiss] at hmatch
          rcases hmatch with ⟨-, hread, -⟩ | ⟨hinvalid, -⟩
          · have hown := hline.getStatus_own hon hp (.refl _ _)
            generalize line.getStatus _ = after at hown ⊢
            cases hown with
            | read hhit =>
                rw [hs] at hhit
                cases hhit
            | evicted hhit =>
                rw [hs] at hhit
                cases hhit
            | written hwrite =>
                rw [hread] at hwrite
                cases hwrite
            | fetched => exact Or.inl rfl
          · exact absurd hinvalid hstate
      · rw [CacheBlock.ReadableLater, hline.sectorAt_other hon hmiss hj]
        exact hbefore
    · rw [hlines, Function.update_of_ne hi]
      exact hbefore
  -- the fetch is new: its sector was not reserved before, so nothing has to be kept
  · have hpq : q = p := Except.ok.inj (hl.probes.symm.trans hp)
    subst hpq
    rw [hl.idx, hl.block, hcfg.addrSector_mshrAddr, ← hmatches.sectorIndex]
    refine hself _ (hline.readableLater hct hon (Or.inl ?_) fun hs => ?_)
    · have hreserved := hl.line (cfg.sectorIndex (c.mfs mf).accessSectorMask)
      rw [LineAfter.getStatus_touched_own hon hl.probes hl.status (.refl _ _), hlines,
        Function.update_self, CacheBlock.getStatus, hsectors] at hreserved
      exact hreserved
    · have hne := h.ne_hitReserved hcfg hresident htracked hmatches hl
      rcases hl.status with hst | hst | hst <;> simp_all

/-- A sector that is reserved after an access that keeps the entries has a fetch under way. -/
theorem reserved_of_access (h : Backed c.core) (hcfg : cfg.Checked)
    (hon : cfg.allocPolicy = .onMiss) (hresident : Resident c.core) (htracked : Tracked c.core sent)
    (hmatches : cfg.Matches (c.mfs mf)) (hcaller : ∀ n, mf ≠ .created n) (hnew : mf ∉ c.core.extra)
    (hcreated : .created c.created ∉ c.core.extra)
    (hsector : ∀ p, c.Probes (c.mfs mf).addr (c.mfs mf) p → p.status = .sectorMiss →
      (c.mfs mf).isWrite = false → cfg.cacheType = .sector)
    (hcase : AccessCase c cls (c.mfs mf).addr mf time status s') {i : ℕ} {j : Fin 4}
    (hreserved : (s'.lines i).getStatus j = .reserved) :
    ∃ t e, s'.extra.lookup t = some e ∧ e.cacheIndex = i ∧
      cfg.SameSector (cfg.addrSector e.blockAddr) j := by
  have hold : (c.tagArray.lines i).getStatus j = .reserved →
      ∃ t e, s'.extra.lookup t = some e ∧ e.cacheIndex = i ∧
        cfg.SameSector (cfg.addrSector e.blockAddr) j := by
    intro hbefore
    obtain ⟨t, e, he, hidx, hsame⟩ := h.reserved i j hbefore
    exact ⟨t, e, hcase.fetch_stays hnew hcreated he, hidx, hsame⟩
  rcases hcase.line_after with ⟨hlines, -⟩ | ⟨p, line, hp, hline, hlines⟩
  · rw [hlines] at hreserved
    exact hold hreserved
  obtain ⟨b, hb, hsectors, hlines⟩ := hline.exists_sectors hon hresident.tagged hp hlines
  by_cases hi : i = p.idx
  · subst hi
    have hafter := hreserved
    rw [hlines, Function.update_self, CacheBlock.getStatus, hsectors] at hafter
    change line.getStatus j = .reserved at hafter
    by_cases hj : cfg.SameSector (cfg.sectorIndex (c.mfs mf).accessSectorMask) j
    · have hown := hline.getStatus_own hon hp hj
      rw [hafter] at hown
      generalize hbefore : (c.tagArray.lines p.idx).getStatus j = before at hown
      cases hown with
      | read => exact hold hbefore
      | fetched hs =>
          have hown : (s'.lines p.idx).getStatus (cfg.sectorIndex (c.mfs mf).accessSectorMask) =
              .reserved := by
            rcases hj with hn | rfl
            · rw [← hreserved]
              exact congrArg SectorState.status (CacheBlock.sectorAt_of_normal _ hn _ _)
            · exact hreserved
          rcases hcase.enters hp hs hown with hunchanged | ⟨hentry, -⟩
          · exact hold (hunchanged ▸ hreserved)
          · rw [hmatches.sectorIndex] at hj
            -- the request has joined an entry, whose fetch it waits for, or has sent its own
            by_cases hjoined : cfg.mshrAddr (c.mfs mf).addr ∈ c.core.entries
            · obtain ⟨t, e, he, hblock, hidx⟩ := h.waits_for_fetch hcfg hresident htracked hmatches
                hp hjoined hs (hsector p hp)
              refine ⟨t, e, hcase.fetch_stays hnew hcreated he, hidx, ?_⟩
              rwa [hblock, hcfg.addrSector_mshrAddr]
            · obtain ⟨-, t, e, he, hblock⟩ := (hcase.entry_origin hentry).resolve_left hjoined
              rcases hcase.fetch_origin hcaller he with he' | ⟨q, hl⟩
              · exact absurd (hblock ▸ (htracked.entry t e he').1) hjoined
              · obtain rfl : q = p := Except.ok.inj (hl.probes.symm.trans hp)
                refine ⟨t, e, he, hl.idx, ?_⟩
                rwa [hblock, hcfg.addrSector_mshrAddr]
    · by_cases hmiss : p.status = .miss
      · have hcleared := hline.getStatus_other hon hj
        rw [if_pos hmiss, hafter] at hcleared
        cases hcleared
      · rw [CacheBlock.getStatus, hline.sectorAt_other hon hmiss hj] at hafter
        exact hold hafter
  · rw [hlines, Function.update_of_ne hi] at hreserved
    exact hold hreserved

/-- **An access that keeps the entries keeps them backed.** -/
theorem access (h : Backed c.core) (hcfg : cfg.Checked) (hon : cfg.allocPolicy = .onMiss)
    (hresident : Resident c.core) (htracked : Tracked c.core sent)
    (hmatches : cfg.Matches (c.mfs mf)) (hcaller : ∀ n, mf ≠ .created n) (hnew : mf ∉ c.core.extra)
    (hcreated : ∀ n, .created n ∈ c.core.extra → n < c.created)
    (hkeeps : c.KeepsEntries (c.mfs mf).addr (c.mfs mf))
    (hsector : ∀ p, c.Probes (c.mfs mf).addr (c.mfs mf) p → p.status = .sectorMiss →
      (c.mfs mf).isWrite = false → cfg.cacheType = .sector)
    (hcase : AccessCase c cls (c.mfs mf).addr mf time status s') : Backed s' where
  aligned a ha := by
    rcases hcase.entry_origin ha with ha | ⟨rfl, -⟩
    · exact h.aligned a ha
    · exact cfg.mshrAddr_mshrAddr _
  matched t e he := by
    rcases hcase.fetch_origin hcaller he with he' | ⟨p, hl⟩
    · have hmasks : SameMasks c.core s' t := hcase.sameMasks fun n hn =>
        hcreated n (hn ▸ AList.lookup_isSome.1 (by rw [he']; rfl))
      rw [hmasks.sectors]
      exact h.matched t e he'
    · rw [hl.sectors, hl.block, hcfg.addrSector_mshrAddr]
      exact hmatches.sectorIndex
  held a ha := by
    rcases hcase.entry_origin ha with ha | ⟨rfl, t, e, he, hblock⟩
    · exact h.held_of_access hcfg hon hresident hmatches hkeeps hcase ha
    · rcases hcase.fetch_origin hcaller he with he' | ⟨p, hl⟩
      · have hentry := (htracked.entry t e he').1
        rw [hblock] at hentry
        exact h.held_of_access hcfg hon hresident hmatches hkeeps hcase hentry
      · refine ⟨p.idx, ?_, ?_⟩
        · rw [hcfg.blockAddr_mshrAddr]
          exact (hl.tenant _ (hresident.tagged.touched hon hl.probes hl.status time)).1
        · rw [hcfg.addrSector_mshrAddr, ← hmatches.sectorIndex, hl.line,
            LineAfter.getStatus_touched_own hon hl.probes hl.status (.refl _ _)]
          simp
  settled a ha i htag hstate := by
    rw [hcase.answered_eq] at ha
    exact h.settled_of_access hcfg hon hresident htracked hmatches hkeeps hsector
      hcase ha htag hstate
  restored hct t e he :=
    h.restored_of_access hcfg hon hresident htracked hmatches hcaller hkeeps hcase hct he
  reserved i j hreserved :=
    h.reserved_of_access hcfg hon hresident htracked hmatches hcaller hnew
      (fun hmem => lt_irrefl _ (hcreated _ hmem)) hsector hcase hreserved

end Access

/-! ### One step -/

/-- The response to a fetch. -/
theorem complete (h : Backed s) (hcfg : cfg.Checked) (hresident : Resident s) {sent : List Token}
    (htracked : Tracked s sent) {mf : Token} {e : ExtraMfFields} (he : s.extra.lookup mf = some e)
    (hdone : Completed s s' mf e) (hentries : s'.entries = s.entries)
    (hanswered : s'.answered = s.answered ++ [e.blockAddr]) : Backed s' := by
  have hsector := h.matched mf e he
  have hother : ∀ i ≠ e.cacheIndex, s'.lines i = s.lines i := fun i hi => by
    rw [hdone.lines, Function.update_of_ne hi]
  have hfilled : s'.lines e.cacheIndex = (s.lines e.cacheIndex).fill (cfg.addrSector e.blockAddr)
      (s.mfs mf).accessByteMask := by
    rw [hdone.lines, Function.update_self, hsector]
  have htag : ∀ i, (s'.lines i).tag = (s.lines i).tag := by
    intro i
    by_cases hi : i = e.cacheIndex
    · rw [hi, hfilled]
      exact (SameTenant.fill _ _ _).tag
    · rw [hother i hi]
  have hbefore : (s.lines e.cacheIndex).getStatus (cfg.addrSector e.blockAddr) ≠ .invalid := by
    rw [← hsector]
    exact hresident.anchored.sector mf e he
  have hlive : ∀ i j, (s.lines i).getStatus j ≠ .invalid → (s'.lines i).getStatus j ≠ .invalid := by
    intro i j hstate
    by_cases hi : i = e.cacheIndex
    · subst hi
      rw [hfilled, CacheBlock.getStatus_fill]
      split
      · split <;> simp
      · exact hstate
    · rwa [hother i hi]
  -- the other fetches are for other sectors
  have hapart : ∀ a ∈ s.entries, a ≠ e.blockAddr →
      (s.lines e.cacheIndex).tag = cfg.blockAddr a →
        ¬cfg.SameSector (cfg.addrSector e.blockAddr) (cfg.addrSector a) := by
    intro a ha hne hblock hsame
    rw [(hresident.anchored.tenant mf e he).1] at hblock
    refine hne ?_
    rw [← h.aligned a ha, ← (htracked.fetching mf e he).1.aligned]
    exact (hcfg.mshrAddr_eq hblock hsame).symm
  have hspared : ∀ {j}, ¬cfg.SameSector (cfg.addrSector e.blockAddr) j →
      (s'.lines e.cacheIndex).sectorAt j = (s.lines e.cacheIndex).sectorAt j := by
    intro j hj
    rw [hfilled, CacheBlock.sectorAt_fill, if_neg (show ¬(cfg.cacheType = .normal ∨ _) from hj)]
  refine ⟨fun a ha => ?_, fun t e' he' => ?_, fun a ha => ?_, fun a ha i hblock hstate => ?_,
    fun hct t e' he' => ?_, fun i j hreserved => ?_⟩
  · rw [hentries] at ha
    exact h.aligned a ha
  · obtain ⟨-, hold, hmasks⟩ := hdone.lookup he'
    rw [hmasks.sectors]
    exact h.matched t e' hold
  · rw [hentries] at ha
    obtain ⟨i, hblock, hstate⟩ := h.held a ha
    exact ⟨i, (htag i).trans hblock, hlive i _ hstate⟩
  · rw [htag] at hblock
    rw [hanswered, List.mem_append, List.mem_singleton] at ha
    rcases ha with ha | rfl
    · have hne : a ≠ e.blockAddr := fun heq => (htracked.entry mf e he).2 (heq ▸ ha)
      by_cases hi : i = e.cacheIndex
      · subst hi
        have hsector := hspared (hapart a (htracked.answered a ha) hne hblock)
        rw [CacheBlock.getStatus, hsector] at hstate ⊢
        rw [CacheBlock.isReadable, hsector]
        exact h.settled a ha _ hblock hstate
      · rw [hother i hi] at hstate ⊢
        exact h.settled a ha i hblock hstate
    · by_cases hi : i = e.cacheIndex
      · subst hi
        rw [hfilled]
        refine ⟨?_, fun hct => (h.restored hct mf e he).fill _⟩
        rw [CacheBlock.getStatus_fill, if_pos (Or.inr rfl)]
        split <;> simp
      · rw [hother i hi] at hstate
        refine absurd (hresident.housed.unique _ _ (CacheBlock.isInvalidLine_of_getStatus _ hstate)
          (CacheBlock.isInvalidLine_of_getStatus _ hbefore) ?_) hi
        rw [hblock, (hresident.anchored.tenant mf e he).1]
  · obtain ⟨hne, hold, -⟩ := hdone.lookup he'
    have hrestored := h.restored hct t e' hold
    by_cases hi : e'.cacheIndex = e.cacheIndex
    · have hblock := (hresident.anchored.tenant t e' hold).1
      rw [hi] at hblock hrestored ⊢
      have hdiffer : e'.blockAddr ≠ e.blockAddr := fun heq =>
        hne (htracked.unique t e' mf e hold he heq)
      rw [CacheBlock.ReadableLater,
        hspared (hapart _ (htracked.entry t e' hold).1 hdiffer hblock)]
      exact hrestored
    · rw [hother _ hi]
      exact hrestored
  · have hstays : ∀ t e₀, s.extra.lookup t = some e₀ → t ≠ mf → s'.extra.lookup t = some e₀ := by
      intro t e₀ he₀ hne
      rwa [hdone.extra, AList.lookup_erase_ne hne]
    by_cases hi : i = e.cacheIndex
    · subst hi
      by_cases hj : cfg.SameSector (cfg.addrSector e.blockAddr) j
      · rw [hfilled, CacheBlock.getStatus_fill,
          if_pos (show cfg.cacheType = .normal ∨ _ from hj)] at hreserved
        split at hreserved <;> cases hreserved
      · rw [CacheBlock.getStatus, hspared hj] at hreserved
        obtain ⟨t, e₀, he₀, hidx, hsame⟩ := h.reserved _ j hreserved
        refine ⟨t, e₀, hstays t e₀ he₀ ?_, hidx, hsame⟩
        rintro rfl
        rw [he] at he₀
        cases he₀
        exact hj hsame
    · rw [hother i hi] at hreserved
      obtain ⟨t, e₀, he₀, hidx, hsame⟩ := h.reserved i j hreserved
      refine ⟨t, e₀, hstays t e₀ he₀ ?_, hidx, hsame⟩
      rintro rfl
      rw [he] at he₀
      cases he₀
      exact hi hidx.symm

/-- Nothing is reserved at the start. -/
theorem init (mfs : Token → MemFetch) : Backed (System.init cfg mfs).core := by
  have hinvalid : ∀ i j, ((System.init cfg mfs).core.lines i).getStatus j = .invalid := fun i j =>
    congrArg SectorState.status (CacheBlock.sectorAt_init j)
  refine ⟨fun a ha => ?_, fun t e he => ?_, fun a ha => ?_, fun a ha => ?_, fun _ t e he => ?_,
    fun i j hreserved => ?_⟩
  · cases ha
  · cases he
  · cases ha
  · cases ha
  · cases he
  · rw [hinvalid] at hreserved
    cases hreserved

/-- A flush or an invalidation, when the MSHR table is empty. -/
theorem clear (h : Backed s) {sent : List Token} (htracked : Tracked s sent)
    (hempty : ∀ a, a ∉ s.entries) (hentries : s'.entries = s.entries)
    (hanswered : s'.answered = s.answered) (hextra : s'.extra = s.extra)
    (hlines : ∀ i j, (s'.lines i).getStatus j = .reserved → (s.lines i).getStatus j = .reserved) :
    Backed s' := by
  have hnone : ∀ t e, s.extra.lookup t ≠ some e := fun t e he =>
    hempty _ (htracked.entry t e he).1
  refine ⟨fun a ha => ?_, fun t e he => ?_, fun a ha => ?_, fun a ha => ?_, fun _ t e he => ?_,
    fun i j hreserved => ?_⟩
  · exact absurd (hentries ▸ ha) (hempty a)
  · exact absurd (hextra ▸ he) (hnone t e)
  · exact absurd (hentries ▸ ha) (hempty a)
  · exact absurd (htracked.answered a (hanswered ▸ ha)) (hempty a)
  · exact absurd (hextra ▸ he) (hnone t e)
  · obtain ⟨t, e, he, -⟩ := h.reserved i j (hlines i j hreserved)
    exact absurd he (hnone t e)

section Step

variable {sys sys' : System cfg} {cls : CacheClass} {o : Op} {b : Obs}

/-- The state in which the object of a request was built. -/
theorem build (h : Backed sys.core) (htracked : Tracked sys.core sys.sent) {n : ℕ}
    (hnew : .caller n ∉ sys.held) (m : MemFetch) : Backed (sys.build n m).core := by
  refine h.of_same (fun _ ha => ha) (fun _ ha => ha) (fun t e he => ⟨e, he, rfl, rfl, .of_eq ?_⟩)
    (fun t e he => ⟨e, he, rfl, rfl⟩) fun i => ⟨rfl, fun _ => rfl⟩
  have hlookup : sys.core.extra.lookup t = some e := he
  exact System.build_mfs htracked hnew m (AList.lookup_isSome.1 (by rw [hlookup]; rfl))

/-- The return of a request takes a pin from a line, and may release its entry. -/
theorem unpin {s₁ : Core cfg} (h : Backed s) (htagged : Tagged s) (hlines : s₁.lines = s.lines)
    (hextra : s₁.extra = s.extra) (hmfs : s₁.mfs = s.mfs)
    (hentries : ∀ a ∈ s₁.entries, a ∈ s.entries)
    (hanswered : ∀ a ∈ s₁.answered, a ∈ s.answered) (mf : Token) : Backed (s₁.unpin mf) := by
  refine h.of_same (fun a ha => hentries a (by simpa using ha))
    (fun a ha => hanswered a (by simpa using ha)) (fun t e he => ?_) (fun t e he => ?_) fun i => ?_
  · simp only [Core.unpin_frame, hextra] at he
    exact ⟨e, he, rfl, rfl, .of_eq (by simp [hmfs])⟩
  · exact ⟨e, by simpa [hextra] using he, rfl, rfl⟩
  · rw [← hlines]
    obtain ⟨hblock, hsectors⟩ := Resident.unpin_line s₁ mf i
    have hline : (s₁.lines i).BelongsTo (s₁.lines i).tag := by
      rw [hlines]
      exact htagged i
    exact ⟨(hblock _ hline).1, fun j => by rw [CacheBlock.sectorAt, hsectors]; rfl⟩

/-- A read whose sector is missing is accepted in a sector cache only. -/
theorem sector_of_perform {n : ℕ} {m : MemFetch} {time : Time} {events : List CacheEvent}
    {status : CacheRequestStatus} {joined : Option Token} {p : ProbeResult}
    (hperform : sys.perform cls (.access n m time events) =
      .ok (sys', .access (.caller n) m status joined))
    (haccept : status ≠ .reservationFail) (hp : (sys.build n m).Probes m.addr m p)
    (hs : p.status = .sectorMiss) (hread : m.isWrite = false) : cfg.cacheType = .sector := by
  obtain ⟨⟨c, status', events'⟩, haccess, hdone⟩ := bind_eq_ok.1 hperform
  cases hdone
  have hm := sys.build_mfs_caller n m
  rw [← hm] at hp hread
  exact Cache.access_of_sectorMiss (by simpa [hm] using hp) hs hread haccess haccept

/-- **One step that keeps the entries keeps them backed.** -/
theorem step (h : Backed sys.core) (hcfg : cfg.Checked) (hon : cfg.allocPolicy = .onMiss)
    (hresident : Resident sys.core) (htracked : Tracked sys.core sys.sent)
    (hpromise : sys.Promise o)
    (hquiet : o = .flush ∨ o = .invalidate → ∀ a, a ∉ sys.core.entries)
    (hkeeps : ∀ n m time events status joined, o = .access n m time events →
      b = .access (.caller n) m status joined → status ≠ .reservationFail →
        cfg.Matches m ∧ (sys.build n m).KeepsEntries m.addr m)
    (hperform : sys.perform cls o = .ok (sys', b)) : Backed sys'.core := by
  have hkept : ∀ {s' : Core cfg}, s'.entries = sys.core.entries → s'.answered = sys.core.answered →
      s'.extra = sys.core.extra → s'.mfs = sys.core.mfs → s'.lines = sys.core.lines →
      Backed s' := by
    intro s' hentries hanswered hextra hmfs hlines
    refine h.of_same (fun a ha => hentries ▸ ha) (fun a ha => hanswered ▸ ha)
      (fun t e he => ⟨e, hextra ▸ he, rfl, rfl, .of_eq (by rw [hmfs])⟩)
      (fun t e he => ⟨e, hextra.symm ▸ he, rfl, rfl⟩) fun i => ?_
    rw [hlines]
    exact ⟨rfl, fun _ => rfl⟩
  cases System.step_cases hpromise.suits hperform with
  | access n m time events status hcase hbelow =>
      have hbuilt := h.build htracked hpromise m
      by_cases hrefused : status = .reservationFail
      · subst hrefused
        rw [hcase.refused_eq]
        exact hbuilt
      · have hm := sys.build_mfs_caller n m
        have hcase' := System.access_of_build hcase
        obtain ⟨hmatches, hentries⟩ := hkeeps n m time events status _ rfl rfl hrefused
        have hwaits : ∀ {t}, t ∈ sys.core.extra → t ∈ sys.sent := by
          intro t ht
          obtain ⟨e, he⟩ := Option.isSome_iff_exists.1 (AList.lookup_isSome.2 ht)
          exact htracked.mem_sent he
        refine hbuilt.access hcfg hon (hresident.build htracked hpromise m)
          (htracked.build hpromise.answers) (by rwa [hm]) (by simp) (fun hmem => ?_)
          (fun k hk => htracked.created k (hwaits hk)) (by rwa [hm])
            (fun p hp hs hread => ?_) hcase'
        · exact hpromise (List.mem_append_right _ (hwaits hmem))
        · rw [hm] at hp hread
          exact sector_of_perform hperform hrefused hp hs hread
  | tick memportFull waiting done htick hcore hbelow =>
      rw [hcore]
      exact hkept rfl rfl rfl rfl rfl
  | push memportFull waiting done htick mf rest hqueue hcore hbelow =>
      rw [hcore]
      exact hkept rfl rfl rfl rfl rfl
  | wait n m time original horiginal e pendingRead he hcore hbelow =>
      have hmasks : ∀ t, t ∈ sys.core.extra → SameMasks sys.core { (sys.build n m).core with
          extra := sys.core.extra.insert original { e with pendingRead } } t :=
        fun t ht => .of_eq (System.build_mfs htracked hpromise.2.1 m ht)
      rw [hcore]
      refine h.of_same (fun _ ha => ha) (fun _ ha => ha) (fun t e' he' => ?_) (fun t e' he' => ?_)
        fun i => ⟨rfl, fun _ => rfl⟩
      · by_cases ht : t = original
        · subst ht
          rw [AList.lookup_insert] at he'
          cases he'
          exact ⟨e, he, rfl, rfl, hmasks t (AList.lookup_isSome.1 (by rw [he]; rfl))⟩
        · rw [AList.lookup_insert_ne ht] at he'
          exact ⟨e', he', rfl, rfl, hmasks t (AList.lookup_isSome.1 (by rw [he']; rfl))⟩
      · by_cases ht : t = original
        · subst ht
          rw [he] at he'
          cases he'
          exact ⟨_, AList.lookup_insert _, rfl, rfl⟩
        · exact ⟨e', (AList.lookup_insert_ne ht).trans he', rfl, rfl⟩
  | complete o c mf time horigin e he hentry lines hfill hcore hbelow =>
      have hframe : c.core.entries = sys.core.entries ∧ c.core.answered = sys.core.answered := by
        rcases horigin with ⟨-, rfl⟩ | ⟨n, m, -, -, rfl⟩ <;> exact ⟨rfl, rfl⟩
      refine h.complete hcfg hresident htracked he
        (System.completed hon htracked hpromise horigin he hfill hcore) ?_ ?_
      · rw [hcore]
        exact hframe.1
      · rw [hcore, ← hframe.2]
        rfl
  | ready mf rest hqueue hpinned hcore hbelow =>
      rw [hcore]
      refine h.unpin hresident.tagged ?_ ?_ ?_ ?_ ?_ mf
      · rfl
      · rfl
      · rfl
      · exact fun _ ha => ha
      · exact fun _ ha => ha
  | deliver mf a rest addresses hready hanswered hentry hpinned hcore hbelow =>
      rw [hcore]
      have hmem : a ∈ sys.core.entries := AList.lookup_isSome.1 (by rw [hentry]; rfl)
      unfold Core.deliver
      split
      · refine h.unpin hresident.tagged ?_ ?_ ?_ (fun b hb => ?_) (fun b hb => ?_) mf
        · rfl
        · rfl
        · rfl
        · exact (AList.mem_erase.1 hb).2
        · exact List.mem_of_mem_tail hb
      · refine h.unpin hresident.tagged ?_ ?_ ?_ (fun b hb => ?_) ?_ mf
        · rfl
        · rfl
        · rfl
        · rcases (AList.mem_insert _).1 hb with rfl | hb
          · exact hmem
          · exact hb
        · exact fun _ hb => hb
  | flush hcore hbelow =>
      rw [hcore]
      refine h.clear htracked (hquiet (Or.inl rfl)) rfl rfl rfl fun i j hreserved => ?_
      exact sys.cache.tagArray.reserved_of_flush hreserved
  | invalidate hcore hbelow =>
      rw [hcore]
      refine h.clear htracked (hquiet (Or.inr rfl)) rfl rfl rfl fun i j hreserved => ?_
      exact sys.cache.tagArray.reserved_of_invalidate hreserved
  | retire mf hcore hbelow =>
      rw [hcore]
      exact h

end Step

end Backed

end OpenCache
