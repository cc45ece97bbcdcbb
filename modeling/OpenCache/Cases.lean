/-
The case distinction over policies, probe answers and handlers, made once.

* `OpenCache.Cache.access_cases` — **every access that returns is one of the five cases** of
  `OpenCache.AccessCase`;
* `OpenCache.Cache.cycle_core`, `OpenCache.Cache.fillComplete_core`,
  `OpenCache.Cache.nextAccess_core` — what the other methods do to the core.
-/

import OpenCache.Core

set_option relaxedAutoImplicit false
set_option autoImplicit false

namespace OpenCache

namespace Cache

variable {cfg : CacheConfig}

/-! ### Lines -/

/-- A tag array that differs from that of `c` in one line and in counters. -/
theorem core_tagArray {c : Cache cfg} {ta : TagArray cfg} {idx : ℕ} {b : CacheBlock cfg.cacheType}
    (h : ta.lines = Function.update c.tagArray.lines idx b) :
    ({ c with tagArray := ta } : Cache cfg).core = c.core.setLine idx b := by
  simp only [core, Core.setLine, h]

theorem core_setBlock (c : Cache cfg) (idx : ℕ) (b : CacheBlock cfg.cacheType) :
    (c.setBlock idx b).core = c.core.setLine idx b := rfl

theorem markModified_core {c c' : Cache cfg} {m : MemFetch} {idx : ℕ}
    (h : c.markModified m idx = .ok c') :
    cfg.getSectorIndex m.accessSectorMask = .ok (cfg.sectorIndex m.accessSectorMask) ∧
      c'.core = c.core.setLine idx
        ((c.tagArray.lines idx).marked m (cfg.sectorIndex m.accessSectorMask)) := by
  obtain ⟨i, hi, h⟩ := bind_eq_ok.1 h
  rw [CacheConfig.sectorIndex_eq hi]
  cases h
  refine ⟨hi, ?_⟩
  split <;> rfl

/-- The loop of `update_m_readable` makes the sector of the request readable as soon as one of its
rounds finds all bytes dirty. -/
private theorem updateMReadable_core_aux {m : MemFetch} {idx : ℕ} (js : List (Fin 4))
    {c c' : Cache cfg} (h : js.foldlM (updateMReadableSector m idx) c = .ok c') :
    c'.core = c.core.setLine idx
      (if ∃ j ∈ js, j ∈ m.accessSectorMask ∧ sectorBytes j ⊆ (c.tagArray.lines idx).dirtyByteMask
        then (c.tagArray.lines idx).setMReadable true (cfg.sectorIndex m.accessSectorMask)
        else c.tagArray.lines idx) := by
  induction js generalizing c with
  | nil =>
      cases h
      simp [core, Core.setLine]
  | cons j js ih =>
      rw [List.foldlM_cons] at h
      obtain ⟨c₁, h₁, h⟩ := bind_eq_ok.1 h
      unfold updateMReadableSector at h₁
      split at h₁
      · next hj =>
          obtain ⟨i, hi, h₁⟩ := bind_eq_ok.1 h₁
          rw [← CacheConfig.sectorIndex_eq hi] at h₁
          cases h₁
          have hrec := ih h
          have hpos : ∃ j' ∈ j :: js, j' ∈ m.accessSectorMask ∧
              sectorBytes j' ⊆ (c.tagArray.lines idx).dirtyByteMask :=
            ⟨j, List.mem_cons_self, hj⟩
          rw [hrec, core_setBlock, Core.setLine_setLine, if_pos hpos]
          congr 1
          simp only [setBlock, TagArray.setLine, Function.update_self, getBlock]
          split
          · simp only [CacheBlock.setMReadable_setMReadable]
          · rfl
      · next hj =>
          cases h₁
          rw [ih h]
          congr 1
          have hj' : ¬(j ∈ m.accessSectorMask ∧
              sectorBytes j ⊆ (c.tagArray.lines idx).dirtyByteMask) := hj
          simp only [List.mem_cons, exists_eq_or_imp, hj', false_or]

theorem updateMReadable_core {c c' : Cache cfg} {m : MemFetch} {idx : ℕ}
    (h : c.updateMReadable m idx = .ok c') :
    c'.core = c.core.setLine idx
      ((c.tagArray.lines idx).readableUpdated m (cfg.sectorIndex m.accessSectorMask)) := by
  rw [updateMReadable_core_aux _ h]
  simp only [List.mem_finRange, true_and, CacheBlock.readableUpdated]

/-! ### The helpers that write into a line -/

/-- Nothing is different in `c'` but the lines, and the count of those that are dirty. -/
def WritesLines (c c' : Cache cfg) : Prop :=
  ∃ lines dirty, c' = { c with tagArray := { c.tagArray with lines, dirty } }

section WritesLines

variable {c c' c'' : Cache cfg} {m : MemFetch} {idx : ℕ}

theorem WritesLines.refl (c : Cache cfg) : c.WritesLines c := ⟨_, _, rfl⟩

theorem WritesLines.setBlock (c : Cache cfg) (idx : ℕ) (b : CacheBlock cfg.cacheType) :
    c.WritesLines (c.setBlock idx b) := ⟨_, _, rfl⟩

theorem WritesLines.trans (h : c.WritesLines c') (h' : c'.WritesLines c'') :
    c.WritesLines c'' := by
  obtain ⟨_, _, rfl⟩ := h
  obtain ⟨_, _, rfl⟩ := h'
  exact ⟨_, _, rfl⟩

theorem markModified_writesLines (h : c.markModified m idx = .ok c') : c.WritesLines c' := by
  obtain ⟨i, -, h⟩ := bind_eq_ok.1 h
  cases h
  split
  · exact .setBlock _ _ _
  · exact ⟨_, _, rfl⟩

theorem updateMReadable_writesLines (h : c.updateMReadable m idx = .ok c') :
    c.WritesLines c' := by
  unfold updateMReadable at h
  generalize List.finRange 4 = l at h
  induction l generalizing c with
  | nil =>
      cases h
      exact .refl _
  | cons i l ih =>
      rw [List.foldlM_cons] at h
      obtain ⟨c₁, h₁, h⟩ := bind_eq_ok.1 h
      refine WritesLines.trans ?_ (ih h)
      unfold updateMReadableSector at h₁
      split at h₁
      · obtain ⟨j, -, h₁⟩ := bind_eq_ok.1 h₁
        cases h₁
        exact .setBlock _ _ _
      · cases h₁
        exact .refl _

theorem ignoreOnFillIfReserved_writesLines {status : CacheRequestStatus}
    (h : c.ignoreOnFillIfReserved m idx status = .ok c') : c.WritesLines c' := by
  unfold ignoreOnFillIfReserved at h
  split at h
  · obtain ⟨i, -, h⟩ := bind_eq_ok.1 h
    cases h
    exact .setBlock _ _ _
  · cases h
    exact .refl _

end WritesLines

/-! ### The read miss handler -/

theorem enqueueHitResponse_core (c : Cache cfg) (mf : Token) (idx : ℕ) :
    (if cfg.deferHitResponse then c.enqueueHitResponse mf idx else c).core =
      c.core.respond mf idx := by
  unfold Core.respond
  split <;> rfl

/-- The part that both accepting branches of the read miss handler share: the line is touched, the
request joins the MSHR entry, and the line is pinned. -/
theorem acceptMiss_core {c c' : Cache cfg} {blockAddr a : NewAddrType} {idx : ℕ} {mf : Token}
    {time : Time} {readOnly : Bool} {r : AccessResult} {p : ProbeResult}
    (hp : c.tagArray.probe blockAddr noIndex (c.mfs mf).accessSectorMask (c.mfs mf).isWrite = .ok p)
    (hfail : p.status ≠ .reservationFail)
    (h : c.acceptMiss blockAddr a idx mf time readOnly = .ok (c', r)) :
    (p.status ≠ .miss ∨ cfg.allocPolicy = .onMiss →
      cfg.getSectorIndex (c.mfs mf).accessSectorMask =
        .ok (cfg.sectorIndex (c.mfs mf).accessSectorMask)) ∧
      r.idx = p.idx ∧ r.evicted = TagArray.evictedBy cfg p.status (c.tagArray.lines p.idx) ∧
      0 < cfg.mshrMaxMerge ∧
      c'.core = ((c.core.setLine p.idx (TagArray.touchedLine cfg blockAddr time
        (cfg.sectorIndex (c.mfs mf).accessSectorMask) p.status
          (c.tagArray.lines p.idx))).join a mf).pinMiss mf p.idx := by
  obtain ⟨⟨ta, r'⟩, hta, h⟩ := bind_eq_ok.1 h
  have hacc : c.tagArray.access blockAddr time idx (c.mfs mf) = .ok (ta, r') := by
    unfold accessTags at hta
    split at hta
    · exact TagArray.accessNoWriteback_eq_ok hta
    · exact hta
  obtain ⟨p', hp', hi, -, hidx, hev, hlines⟩ := TagArray.access_eq_ok hacc
  have hpp : p' = p := by
    rw [TagArray.probe_idx hp hfail idx] at hp'
    exact (Except.ok.inj hp').symm
  subst hpp
  obtain ⟨t, ht, h⟩ := bind_eq_ok.1 h
  obtain ⟨hdata, hresp, hmerge⟩ := MshrTable.add_eq_ok ht
  cases h
  refine ⟨fun h => hi h hfail, hidx, hev, Nat.zero_lt_of_lt hmerge, ?_⟩
  have hcore : ({ c with tagArray := ta, mshrs := t } : Cache cfg).core =
      (c.core.setLine p'.idx (TagArray.touchedLine cfg blockAddr time
        (cfg.sectorIndex (c.mfs mf).accessSectorMask) p'.status (c.tagArray.lines p'.idx))).join
          a mf := by
    simp only [core, Core.setLine, Core.join, hlines, hdata, hresp]
  rw [← hcore, hidx]
  unfold Core.pinMiss
  split <;> rfl

/-- The read miss handler, when it accepts the request. -/
theorem sendReadRequest_core {c c' : Cache cfg} {blockAddr : NewAddrType} {idx : ℕ} {mf : Token}
    {time : Time} {events : List CacheEvent} {readOnly wa : Bool} {r : SendResult}
    {p : ProbeResult}
    (hp : c.tagArray.probe blockAddr noIndex (c.mfs mf).accessSectorMask (c.mfs mf).isWrite = .ok p)
    (hfail : p.status ≠ .reservationFail)
    (h : c.sendReadRequest blockAddr idx mf time events readOnly wa = .ok (c', r)) :
    r.doMiss = false ∧ c'.core = c.core ∧ c.mshrs.full (cfg.mshrAddr (c.mfs mf).addr) = true ∨
      r.doMiss = true ∧
      (p.status ≠ .miss ∨ cfg.allocPolicy = .onMiss →
        cfg.getSectorIndex (c.mfs mf).accessSectorMask =
          .ok (cfg.sectorIndex (c.mfs mf).accessSectorMask)) ∧
      r.evicted = TagArray.evictedBy cfg p.status (c.tagArray.lines p.idx) ∧
      (∀ l, c.mshrs.data.lookup (cfg.mshrAddr (c.mfs mf).addr) = some l →
        l.length < cfg.mshrMaxMerge) ∧
      (c.mshrs.data.lookup (cfg.mshrAddr (c.mfs mf).addr) = none →
        c.mshrs.data.entries.length < cfg.mshrEntries ∧ 0 < cfg.mshrMaxMerge ∧
          c.missQueue.length < cfg.missQueueSize) ∧
      c'.core = (c.core.setLine p.idx (TagArray.touchedLine cfg blockAddr time
        (cfg.sectorIndex (c.mfs mf).accessSectorMask) p.status
          (c.tagArray.lines p.idx))).miss (cfg.mshrAddr (c.mfs mf).addr) mf p.idx := by
  unfold sendReadRequest at h
  dsimp only at h
  split at h
  · next hhit =>
      rw [Bool.and_eq_true, MshrTable.probe, Option.isSome_iff_exists] at hhit
      obtain ⟨⟨l, hl⟩, havail⟩ := hhit
      obtain ⟨⟨c₁, r₁⟩, h₁, h⟩ := bind_eq_ok.1 h
      obtain ⟨hi, -, hev, -, hcore⟩ := acceptMiss_core hp hfail h₁
      cases h
      refine Or.inr ⟨rfl, hi, hev, ?_, ?_, ?_⟩
      · intro l' hl'
        have hle : ¬cfg.mshrMaxMerge ≤ l'.length := by
          simpa [MshrTable.full, hl'] using havail
        omega
      · intro hnone
        rw [hl] at hnone
        cases hnone
      · refine hcore.trans (@Core.miss_of_some _ _ _ l ?_ mf p.idx).symm
        exact hl
  · next hhit =>
      split at h
      · next hnew =>
          rw [Bool.and_eq_true, Bool.and_eq_true, MshrTable.probe, Bool.not_eq_true',
            Option.isSome_eq_false_iff, Option.isNone_iff_eq_none, decide_eq_true_iff] at hnew
          obtain ⟨⟨hnone, havail⟩, hroom⟩ := hnew
          obtain ⟨⟨c₁, r₁⟩, h₁, h⟩ := bind_eq_ok.1 h
          obtain ⟨hi, hidx, hev, hmerge, hcore⟩ := acceptMiss_core hp hfail h₁
          cases h
          refine Or.inr ⟨rfl, hi, hev, ?_, ?_, ?_⟩
          · intro l hl
            rw [hnone] at hl
            cases hl
          · intro _
            have hle : ¬cfg.mshrEntries ≤ c.mshrs.data.entries.length := by
              simpa [MshrTable.full, hnone] using havail
            exact ⟨by omega, hmerge, hroom⟩
          · refine Eq.trans ?_ (Core.miss_of_none hnone mf p.idx).symm
            rw [← hcore, hidx]
            have hmfs : c₁.core.mfs = c.core.mfs := by simp [hcore, Core.join, Core.setLine]
            change c₁.mfs = c.mfs at hmfs
            simp only [core, Core.launch, hmfs]
      · split at h
        · next hfull =>
            cases h
            exact Or.inl ⟨rfl, rfl, by simpa using (Bool.and_eq_true_iff.1 hfull).2⟩
        · split at h
          · next hfull =>
              cases h
              exact Or.inl ⟨rfl, rfl, by simpa using (Bool.and_eq_true_iff.1 hfull).2⟩
          · cases h

/-! ### Write hits -/

theorem writeHit_core {c c' c₁ c₂ : Cache cfg} {ta : TagArray cfg} {addr : NewAddrType} {idx : ℕ}
    {m : MemFetch} {time : Time} {r : AccessResult} {p : ProbeResult}
    (hp : c.Probes addr m p) (hhit : p.status = .hit)
    (hta : c.tagArray.accessNoWriteback (cfg.blockAddr addr) time idx m = .ok (ta, r))
    (h₁ : ({ c with tagArray := ta } : Cache cfg).markModified m r.idx = .ok c₁)
    (h₂ : c₁.updateMReadable m r.idx = .ok c₂) (hc' : c'.core = c₂.core) :
    cfg.getSectorIndex m.accessSectorMask = .ok (cfg.sectorIndex m.accessSectorMask) ∧
      c'.core = c.core.setLine p.idx ((((c.tagArray.lines p.idx).setLastAccessTime time).marked m
        (cfg.sectorIndex m.accessSectorMask)).readableUpdated m
          (cfg.sectorIndex m.accessSectorMask)) := by
  obtain ⟨p', hp', -, -, hidx, -, hlines⟩ :=
    TagArray.access_eq_ok (TagArray.accessNoWriteback_eq_ok hta)
  have hpp : p' = p := by
    rw [TagArray.probe_idx hp (by simp [hhit]) idx] at hp'
    exact (Except.ok.inj hp').symm
  subst hpp
  rw [hidx] at h₁ h₂
  obtain ⟨hi, hc₁⟩ := markModified_core h₁
  refine ⟨hi, ?_⟩
  have hline₁ : c₁.tagArray.lines p'.idx =
      ((c.tagArray.lines p'.idx).setLastAccessTime time).marked m
        (cfg.sectorIndex m.accessSectorMask) := by
    have := congrArg (fun s => s.lines p'.idx) hc₁
    simpa [core, hlines, TagArray.touchedLine, hhit] using this
  rw [hc', updateMReadable_core h₂, hline₁, hc₁, core_tagArray hlines]
  simp

/-- What a hit handler does, before the response is queued. -/
inductive HitHandled (c : Cache cfg) (cls : CacheClass) (mf : Token) (time : Time)
    (p : ProbeResult) : CacheRequestStatus → Core cfg → Prop
  | refused : HitHandled c cls mf time p .reservationFail c.core
  | done (line : CacheBlock cfg.cacheType) (forward : Bool)
      (heffect : HitEffect cfg cls (c.mfs mf) time (cfg.sectorIndex (c.mfs mf).accessSectorMask)
        (c.tagArray.lines p.idx) line forward)
      (hroom : forward = true → c.missQueueFull 0 = false) :
      HitHandled c cls mf time p .hit ((c.core.setLine p.idx line).enqueueIf forward mf)

section Hits

variable {c c' : Cache cfg} {addr : NewAddrType} {mf : Token} {time : Time}
  {events events' : List CacheEvent} {status : CacheRequestStatus} {p : ProbeResult}

theorem wrHitWb_handled (types : DataCacheTypes) (hp : c.Probes addr (c.mfs mf) p)
    (hhit : p.status = .hit) (hwrite : (c.mfs mf).isWrite = true)
    (hpolicy : ¬evictsOnWriteHit cfg (c.mfs mf)) (hwt : cfg.writePolicy ≠ .writeThrough)
    (h : c.wrHitWb addr p.idx mf time events = .ok (c', status, events')) :
    HitHandled c (.dataCache types) mf time p status c'.core := by
  obtain ⟨⟨ta, r⟩, hta, h⟩ := bind_eq_ok.1 h
  obtain ⟨c₁, h₁, h⟩ := bind_eq_ok.1 h
  obtain ⟨c₂, h₂, h⟩ := bind_eq_ok.1 h
  cases h
  obtain ⟨hi, hcore⟩ := writeHit_core hp hhit hta h₁ h₂ rfl
  have heffect : HitEffect cfg (.dataCache types) (c.mfs mf) time _ (c.tagArray.lines p.idx) _ _ :=
    .write hwrite types rfl hpolicy hi
  rw [decide_eq_false hwt] at heffect
  rw [hcore]
  exact .done _ _ heffect (by simp)

theorem wrHitWt_handled (types : DataCacheTypes) (hp : c.Probes addr (c.mfs mf) p)
    (hhit : p.status = .hit) (hwrite : (c.mfs mf).isWrite = true)
    (hwt : cfg.writePolicy = .writeThrough)
    (h : c.wrHitWt addr p.idx mf time events = .ok (c', status, events')) :
    HitHandled c (.dataCache types) mf time p status c'.core := by
  unfold wrHitWt at h
  dsimp only at h
  split at h
  · cases h
    exact .refused
  · next hroom =>
      obtain ⟨⟨ta, r⟩, hta, h⟩ := bind_eq_ok.1 h
      obtain ⟨c₁, h₁, h⟩ := bind_eq_ok.1 h
      obtain ⟨c₂, h₂, h⟩ := bind_eq_ok.1 h
      cases h
      obtain ⟨hi, hcore⟩ := writeHit_core hp hhit hta h₁ h₂ rfl
      have hpolicy : ¬evictsOnWriteHit cfg (c.mfs mf) := by simp [evictsOnWriteHit, hwt]
      have heffect :
          HitEffect cfg (.dataCache types) (c.mfs mf) time _ (c.tagArray.lines p.idx) _ _ :=
        .write hwrite types rfl hpolicy hi
      rw [decide_eq_true hwt] at heffect
      have hdone : HitHandled c (.dataCache types) mf time p .hit _ :=
        .done _ _ heffect (by simpa using hroom)
      rw [← hcore] at hdone
      exact hdone

theorem wrHitWe_handled (types : DataCacheTypes) (hwrite : (c.mfs mf).isWrite = true)
    (hpolicy : evictsOnWriteHit cfg (c.mfs mf))
    (h : c.wrHitWe p.idx mf events = .ok (c', status, events')) :
    HitHandled c (.dataCache types) mf time p status c'.core := by
  unfold wrHitWe at h
  dsimp only at h
  split at h
  · cases h
    exact .refused
  · next hroom =>
      obtain ⟨i, hi, h⟩ := bind_eq_ok.1 h
      cases h
      have hi' := hi
      rw [← CacheConfig.sectorIndex_eq hi] at hi'
      rw [← CacheConfig.sectorIndex_eq hi]
      have hdone : HitHandled c (.dataCache types) mf time p .hit _ :=
        .done _ _ (.evict hwrite types rfl hpolicy hi') (by simpa using hroom)
      exact hdone

theorem wrHit_handled (types : DataCacheTypes) (hp : c.Probes addr (c.mfs mf) p)
    (hhit : p.status = .hit) (hwrite : (c.mfs mf).isWrite = true)
    (h : c.wrHit addr p.idx mf time events = .ok (c', status, events')) :
    HitHandled c (.dataCache types) mf time p status c'.core := by
  unfold wrHit at h
  split at h
  · cases h
  · next hw =>
      exact wrHitWb_handled types hp hhit hwrite (by simp [evictsOnWriteHit, hw]) (by simp [hw]) h
  · next hw => exact wrHitWt_handled types hp hhit hwrite hw h
  · next hw => exact wrHitWe_handled types hwrite (Or.inl hw) h
  · next hw =>
      unfold wrHitGlobalWeLocalWb at h
      split at h
      · next hg => exact wrHitWe_handled types hwrite (Or.inr ⟨hw, hg⟩) h
      · next hg =>
          exact wrHitWb_handled types hp hhit hwrite (by simp [evictsOnWriteHit, hw, hg])
            (by simp [hw]) h

theorem rdHitBase_handled {cls : CacheClass} (hp : c.Probes addr (c.mfs mf) p)
    (hhit : p.status = .hit) (hread : (c.mfs mf).isWrite = false)
    (h : c.rdHitBase addr p.idx mf time events = .ok (c', status, events')) :
    HitHandled c cls mf time p status c'.core := by
  obtain ⟨⟨ta, r⟩, hta, h⟩ := bind_eq_ok.1 h
  cases h
  obtain ⟨p', hp', -, -, hidx, -, hlines⟩ :=
    TagArray.access_eq_ok (TagArray.accessNoWriteback_eq_ok hta)
  have hpp : p' = p := by
    rw [TagArray.probe_idx hp (by simp [hhit]) p.idx] at hp'
    exact (Except.ok.inj hp').symm
  subst hpp
  rw [core_tagArray hlines]
  simp only [TagArray.touchedLine, hhit]
  exact .done _ _ (.read hread) (by simp)

end Hits

/-! ### Misses -/

theorem sendWriteback_core (c : Cache cfg) (types : DataCacheTypes) (m : MemFetch)
    (evicted : Option EvictedBlockInfo) (request : EvictedBlockInfo → CacheEvent)
    (events : List CacheEvent) {p : ProbeResult} {b : CacheBlock cfg.cacheType}
    (hev : evicted = TagArray.evictedBy cfg p.status b) :
    (c.sendWriteback types m evicted request events).1.core =
      c.core.sendOwn (writebackOf cfg (.dataCache types) m p.status b) := by
  subst hev
  unfold sendWriteback writebackOf
  cases TagArray.evictedBy cfg p.status b with
  | none => simp [Core.sendOwn]
  | some e =>
      dsimp only
      split
      · rfl
      · rfl

section Misses

variable {c c' : Cache cfg} {addr : NewAddrType} {mf : Token} {time : Time}
  {events events' : List CacheEvent} {status : CacheRequestStatus} {p : ProbeResult}

theorem rdMissBase_cases (types : DataCacheTypes) (hp : c.Probes addr (c.mfs mf) p)
    (hs : p.status = .hitReserved ∨ p.status = .miss ∨ p.status = .sectorMiss)
    (hread : (c.mfs mf).isWrite = false)
    (h : c.rdMissBase types addr p.idx mf time events = .ok (c', status, events')) :
    AccessCase c (.dataCache types) addr mf time status c'.core := by
  have hfail : p.status ≠ .reservationFail := by rcases hs with hs | hs | hs <;> simp [hs]
  unfold rdMissBase at h
  dsimp only at h
  split at h
  · cases h
    exact .refused
  · next hqueue =>
      obtain ⟨⟨c₁, r⟩, h₁, h⟩ := bind_eq_ok.1 h
      rcases sendReadRequest_core hp hfail h₁ with
        ⟨hdo, hcore, -⟩ | ⟨hdo, hi, hev, hjoin, hnew, hcore⟩
      · simp only [hdo] at h
        cases h
        rw [hcore]
        exact .refused
      · simp only [hdo, if_true] at h
        cases h
        rw [sendWriteback_core _ _ _ _ _ _ hev, hcore]
        have hroom : c.missQueue.length + 1 < cfg.missQueueSize := by
          simpa [missQueueFull] using hqueue
        have hcase : AccessCase c (.dataCache types) addr mf time .miss _ :=
          .fetch p hp hs hi mf c.core id (.read hread) hjoin hnew fun _ _ => hroom
        simp only [id, Core.setLine_self] at hcase
        exact hcase

theorem wrMissNoWa_cases (types : DataCacheTypes) (hp : c.Probes addr (c.mfs mf) p)
    (hs : p.status ≠ .hit) (hwrite : (c.mfs mf).isWrite = true)
    (hpolicy : cfg.writeAllocPolicy = .noWriteAllocate)
    (h : c.wrMissNoWa mf events = .ok (c', status, events')) :
    AccessCase c (.dataCache types) addr mf time status c'.core := by
  unfold wrMissNoWa at h
  split at h
  · cases h
    exact .refused
  · next hroom =>
      cases h
      exact .forward p hp hs hwrite types rfl hpolicy (by simpa using hroom)

/-- What the handlers that fetch know when they go on. -/
theorem fetchRefused_eq_false {numMiss : ℕ} {a : NewAddrType}
    (h : c.fetchRefused numMiss a = false) :
    c.missQueue.length + numMiss < cfg.missQueueSize ∧ c.mshrs.full a = false := by
  simp only [fetchRefused, missQueueFull, Bool.or_eq_false_iff, decide_eq_false_iff_not,
    not_le] at h
  refine ⟨h.1, ?_⟩
  by_contra hfull
  rw [Bool.not_eq_false] at hfull
  simp [hfull] at h

/-- The read miss handler called for the read that a write allocates, in a cache `c₀` that still
has the tags and the MSHRs of `c`. -/
theorem sendAllocated_core {c₀ c₁ : Cache cfg} {n : Token} {type : MemAccessType}
    {original : Option Token} {r : SendResult}
    (h : c₀.sendReadRequest (cfg.blockAddr addr) p.idx n time events false true = .ok (c₁, r))
    (hp : c.Probes addr (c.mfs mf) p)
    (hs : p.status = .hitReserved ∨ p.status = .miss ∨ p.status = .sectorMiss)
    (hwrite : (c.mfs mf).isWrite = true)
    (hm : c₀.mfs n = MemFetch.new type (c.mfs mf).addr cfg.atomSz false (c.mfs mf).accessByteMask
      (c.mfs mf).accessSectorMask (c.mfs mf).streamID none original)
    (htags : c₀.tagArray = c.tagArray) (hmshrs : c₀.mshrs = c.mshrs)
    (hroom : c.mshrs.full (cfg.mshrAddr (c.mfs mf).addr) = false) :
    r.doMiss = true ∧
      (p.status ≠ .miss ∨ cfg.allocPolicy = .onMiss →
        cfg.getSectorIndex (c.mfs mf).accessSectorMask =
          .ok (cfg.sectorIndex (c.mfs mf).accessSectorMask)) ∧
      r.evicted = TagArray.evictedBy cfg p.status (c.tagArray.lines p.idx) ∧
      (∀ l, c.mshrs.data.lookup (cfg.mshrAddr (c.mfs mf).addr) = some l →
        l.length < cfg.mshrMaxMerge) ∧
      (c.mshrs.data.lookup (cfg.mshrAddr (c.mfs mf).addr) = none →
        c.mshrs.data.entries.length < cfg.mshrEntries ∧ 0 < cfg.mshrMaxMerge ∧
          c₀.missQueue.length < cfg.missQueueSize) ∧
      c₁.core = (c₀.core.setLine p.idx (c.touched addr (c.mfs mf) time p)).miss
        (cfg.mshrAddr (c.mfs mf).addr) n p.idx := by
  have hmask : (c₀.mfs n).accessSectorMask = (c.mfs mf).accessSectorMask := by
    rw [hm]
    exact (c.mfs mf).memAccessSectorMask_self
  have haddr : (c₀.mfs n).addr = (c.mfs mf).addr := by rw [hm]; rfl
  have hread : (c₀.mfs n).isWrite = false := by rw [hm]; rfl
  have hp₀ : c₀.tagArray.probe (cfg.blockAddr addr) noIndex (c₀.mfs n).accessSectorMask
      (c₀.mfs n).isWrite = .ok p := by
    rw [htags, hmask, hread]
    rw [Probes, hwrite] at hp
    exact TagArray.probe_read_of_write hp (by rcases hs with hs | hs | hs <;> simp [hs])
  have hfail : p.status ≠ .reservationFail := by rcases hs with hs | hs | hs <;> simp [hs]
  have hsend := sendReadRequest_core hp₀ hfail h
  rw [hmask, haddr, htags, hmshrs, hroom] at hsend
  rcases hsend with ⟨-, -, hfull⟩ | hsend
  · cases hfull
  · exact hsend

theorem wrMissWaNaive_cases (types : DataCacheTypes) (hp : c.Probes addr (c.mfs mf) p)
    (hs : p.status = .hitReserved ∨ p.status = .miss ∨ p.status = .sectorMiss)
    (hwrite : (c.mfs mf).isWrite = true) (hpolicy : cfg.writeAllocPolicy = .writeAllocate)
    (h : c.wrMissWaNaive types addr p.idx mf time events p.status = .ok (c', status, events')) :
    AccessCase c (.dataCache types) addr mf time status c'.core := by
  unfold wrMissWaNaive at h
  dsimp only at h
  split at h
  · obtain ⟨reason, -, h⟩ := bind_eq_ok.1 h
    cases h
    exact .refused
  · next hrefused =>
      obtain ⟨hqueue, hroom⟩ := fetchRefused_eq_false (by simpa using hrefused)
      obtain ⟨⟨c₁, r⟩, h₁, h⟩ := bind_eq_ok.1 h
      obtain ⟨hdo, hi, hev, hjoin, hnew, hcore⟩ :=
        sendAllocated_core h₁ hp hs hwrite (Function.update_self _ _ _) rfl rfl hroom
      -- the write itself has taken one place
      have hqueued : (c.core.enqueue mf).missQueue.length + 1 < cfg.missQueueSize := by
        rw [Core.enqueue, List.length_append, List.length_singleton]
        exact hqueue
      simp only [hdo, if_true] at h
      obtain ⟨_, -, h⟩ := bind_eq_ok.1 h
      cases h
      rw [sendWriteback_core _ _ _ _ _ _ hev, hcore]
      have hcase : AccessCase c (.dataCache types) addr mf time .miss _ :=
        .fetch p hp hs hi _ _ id (.naive hwrite types rfl hpolicy) hjoin hnew fun _ _ => hqueued
      simp only [id, Core.setLine_self] at hcase
      exact hcase

theorem wrMissWaFetchOnWritePartial_cases (types : DataCacheTypes)
    (hp : c.Probes addr (c.mfs mf) p)
    (hs : p.status = .hitReserved ∨ p.status = .miss ∨ p.status = .sectorMiss)
    (hwrite : (c.mfs mf).isWrite = true) (hpolicy : cfg.writeAllocPolicy = .fetchOnWrite)
    (hbytes : (c.mfs mf).accessByteMask.card ≠ cfg.atomSz)
    (h : c.wrMissWaFetchOnWritePartial types addr p.idx mf time events =
      .ok (c', status, events')) :
    AccessCase c (.dataCache types) addr mf time status c'.core := by
  unfold wrMissWaFetchOnWritePartial at h
  dsimp only at h
  split at h
  · obtain ⟨reason, -, h⟩ := bind_eq_ok.1 h
    cases h
    exact .refused
  · next hrefused =>
      split at h
      · cases h
        exact .refused
      · obtain ⟨hqueue, hroom⟩ := fetchRefused_eq_false (by simpa using hrefused)
        obtain ⟨⟨c₁, r⟩, h₁, h⟩ := bind_eq_ok.1 h
        obtain ⟨hdo, hi, hev, hjoin, hnew, hcore⟩ :=
          sendAllocated_core h₁ hp hs hwrite (Function.update_self _ _ _) rfl rfl hroom
        obtain ⟨i, hi', h⟩ := bind_eq_ok.1 h
        have hi'' := hi'
        rw [← CacheConfig.sectorIndex_eq hi'] at hi'' h
        simp only [hdo, if_true] at h
        cases h
        rw [sendWriteback_core _ _ _ _ _ _ hev, core_setBlock]
        have hcase : AccessCase c (.dataCache types) addr mf time .miss _ :=
          .fetch p hp hs hi _ _ _ (.fetchOnWrite hwrite types rfl hpolicy hbytes hi'') hjoin hnew
            fun _ _ => hqueue
        have hline : ∀ s : Core cfg, c₁.core = s →
            ((c₁.getBlock p.idx).setModifiedOnFill true
              (cfg.sectorIndex (c.mfs mf).accessSectorMask)).putByteMaskOnFill true =
            (s.lines p.idx).writtenOnFill (cfg.sectorIndex (c.mfs mf).accessSectorMask) := by
          rintro s rfl
          rfl
        rw [hline _ hcore, hcore]
        exact hcase

/-- The line after a write miss that fetches nothing: it is touched, then marked. -/
theorem writeMiss_core {ta : TagArray cfg} {r : AccessResult} {c₁ c₂ : Cache cfg}
    (hp : c.Probes addr (c.mfs mf) p)
    (hs : p.status = .hitReserved ∨ p.status = .miss ∨ p.status = .sectorMiss)
    (hta : c.tagArray.access (cfg.blockAddr addr) time p.idx (c.mfs mf) = .ok (ta, r))
    (h : ({ c₁ with tagArray := ta } : Cache cfg).markModified (c.mfs mf) r.idx = .ok c₂)
    (hc₁ : c₁.tagArray = c.tagArray) :
    r.status = p.status ∧ r.idx = p.idx ∧
      r.evicted = TagArray.evictedBy cfg p.status (c.tagArray.lines p.idx) ∧
      cfg.getSectorIndex (c.mfs mf).accessSectorMask =
        .ok (cfg.sectorIndex (c.mfs mf).accessSectorMask) ∧
      c₂.core = c₁.core.setLine p.idx ((c.touched addr (c.mfs mf) time p).marked (c.mfs mf)
        (cfg.sectorIndex (c.mfs mf).accessSectorMask)) := by
  obtain ⟨p', hp', -, hstatus, hidx, hev, hlines⟩ := TagArray.access_eq_ok hta
  have hpp : p' = p := by
    rw [TagArray.probe_idx hp (by rcases hs with hs | hs | hs <;> simp [hs]) p.idx] at hp'
    exact (Except.ok.inj hp').symm
  subst hpp
  rw [hidx] at h
  obtain ⟨hi, hcore⟩ := markModified_core h
  refine ⟨hstatus, hidx, hev, hi, ?_⟩
  rw [← hc₁] at hlines
  rw [hcore, core_tagArray hlines, Core.setLine_setLine]
  simp only [hlines, Function.update_self, hc₁]
  rfl

theorem wrMissWaFetchOnWriteFull_cases (types : DataCacheTypes) (hp : c.Probes addr (c.mfs mf) p)
    (hs : p.status = .hitReserved ∨ p.status = .miss ∨ p.status = .sectorMiss)
    (hwrite : (c.mfs mf).isWrite = true) (hpolicy : cfg.writeAllocPolicy = .fetchOnWrite)
    (hfull : (c.mfs mf).accessByteMask.card = cfg.atomSz)
    (h : c.wrMissWaFetchOnWriteFull types addr p.idx mf time events = .ok (c', status, events')) :
    AccessCase c (.dataCache types) addr mf time status c'.core := by
  unfold wrMissWaFetchOnWriteFull at h
  dsimp only at h
  split at h
  · cases h
    exact .refused
  · next hroom =>
      obtain ⟨⟨ta, r⟩, hta, h⟩ := bind_eq_ok.1 h
      obtain ⟨_, -, h⟩ := bind_eq_ok.1 h
      obtain ⟨c₁, h₁, h⟩ := bind_eq_ok.1 h
      obtain ⟨hstatus, hidx, hev, hi, hcore⟩ := writeMiss_core hp hs hta h₁ rfl
      have hne : r.status ≠ .reservationFail := by
        rw [hstatus]
        rcases hs with hs | hs | hs <;> simp [hs]
      obtain ⟨c₂, h₂, h⟩ := bind_eq_ok.1 h
      have hcore₂ : c₂.core = c.core.setLine p.idx ((c.touched addr (c.mfs mf) time p).fullWritten
          (c.mfs mf) (cfg.sectorIndex (c.mfs mf).accessSectorMask) p.status) := by
        have hline : c₁.getBlock p.idx = c₁.core.lines p.idx := rfl
        rw [ignoreOnFillIfReserved, hstatus, hidx] at h₂
        unfold CacheBlock.fullWritten
        split at h₂
        · next hr =>
            obtain ⟨i, hi', h₂⟩ := bind_eq_ok.1 h₂
            rw [← CacheConfig.sectorIndex_eq hi'] at h₂
            cases h₂
            rw [if_pos hr, core_setBlock, hline, hcore, Core.setLine_setLine,
              Core.setLine_lines_self]
        · next hr =>
            cases h₂
            rw [if_neg hr, hcore]
      simp only [hne, ne_eq, not_false_eq_true, if_true] at h
      cases h
      rw [sendWriteback_core _ _ _ _ _ _ hev, hcore₂]
      exact .write p hp hs hwrite types rfl hi _ false (.full hpolicy hfull) (by simpa using hroom)

theorem wrMissWaLazyFetchOnRead_cases (types : DataCacheTypes) (hp : c.Probes addr (c.mfs mf) p)
    (hs : p.status = .hitReserved ∨ p.status = .miss ∨ p.status = .sectorMiss)
    (hwrite : (c.mfs mf).isWrite = true) (hpolicy : cfg.writeAllocPolicy = .lazyFetchOnRead)
    (h : c.wrMissWaLazyFetchOnRead types addr p.idx mf time events = .ok (c', status, events')) :
    AccessCase c (.dataCache types) addr mf time status c'.core := by
  unfold wrMissWaLazyFetchOnRead at h
  dsimp only at h
  split at h
  · cases h
    exact .refused
  · next hroom =>
      -- the cache after the write has been forwarded, if it is
      obtain ⟨c₀, events₀, hc₀, htags, hcore₀⟩ : ∃ (c₀ : Cache cfg) (events₀ : List CacheEvent),
          (if cfg.writePolicy = .writeThrough then
            c.sendWriteRequest mf (CacheEvent.ofType .writeRequestSent) events
            else (c, events)) = (c₀, events₀) ∧ c₀.tagArray = c.tagArray ∧
          c₀.core = c.core.enqueueIf (decide (cfg.writePolicy = .writeThrough)) mf := by
        by_cases hwt : cfg.writePolicy = .writeThrough
        · exact ⟨_, _, if_pos hwt, rfl, by simp [hwt, Core.enqueueIf]; rfl⟩
        · exact ⟨_, _, if_neg hwt, rfl, by simp [hwt, Core.enqueueIf]⟩
      simp only [hc₀, htags] at h
      obtain ⟨⟨ta, r⟩, hta, h⟩ := bind_eq_ok.1 h
      obtain ⟨_, -, h⟩ := bind_eq_ok.1 h
      obtain ⟨c₁, h₁, h⟩ := bind_eq_ok.1 h
      obtain ⟨hstatus, hidx, hev, hi, hcore⟩ := writeMiss_core hp hs hta h₁ htags
      have hne : r.status ≠ .reservationFail := by
        rw [hstatus]
        rcases hs with hs | hs | hs <;> simp [hs]
      obtain ⟨i, hi', h⟩ := bind_eq_ok.1 h
      rw [← CacheConfig.sectorIndex_eq hi'] at h
      obtain ⟨c₂, h₂, h⟩ := bind_eq_ok.1 h
      simp only [hne, ne_eq, not_false_eq_true, if_true] at h
      cases h
      have hblock : c₁.getBlock p.idx = (c.touched addr (c.mfs mf) time p).marked (c.mfs mf)
          (cfg.sectorIndex (c.mfs mf).accessSectorMask) := by
        change c₁.core.lines p.idx = _
        rw [hcore, Core.setLine_lines_self]
      rw [hidx, hstatus] at h₂
      have hcore₂ : c₂.core = c₀.core.setLine p.idx ((c.touched addr (c.mfs mf) time p).lazyWritten
          (c.mfs mf) (cfg.sectorIndex (c.mfs mf).accessSectorMask) p.status cfg.atomSz) := by
        rw [updateMReadable_core h₂, core_setBlock, Core.setLine_setLine, hcore,
          Core.setLine_setLine]
        simp only [setBlock, TagArray.setLine, Function.update_self, hblock]
        rfl
      rw [sendWriteback_core _ _ _ _ _ _ hev, hcore₂, hcore₀]
      exact .write p hp hs hwrite types rfl hi _ _ (.onRead hpolicy) (by simpa using hroom)

theorem wrMiss_cases (types : DataCacheTypes) (hp : c.Probes addr (c.mfs mf) p)
    (hs : p.status ≠ .hit) (hfail : p.status = .reservationFail →
      cfg.writeAllocPolicy = .noWriteAllocate) (hwrite : (c.mfs mf).isWrite = true)
    (h : c.wrMiss types addr p.idx mf time events p.status = .ok (c', status, events')) :
    AccessCase c (.dataCache types) addr mf time status c'.core := by
  have hs' : cfg.writeAllocPolicy ≠ .noWriteAllocate →
      p.status = .hitReserved ∨ p.status = .miss ∨ p.status = .sectorMiss := by
    intro hne
    obtain ⟨setIndex, -, hprobed⟩ := TagArray.probed_of_probe hp
    cases hst : p.status with
    | hit => exact absurd hst hs
    | hitReserved => exact Or.inl rfl
    | miss => exact Or.inr (Or.inl rfl)
    | reservationFail => exact absurd (hfail hst) hne
    | sectorMiss => exact Or.inr (Or.inr rfl)
    | mshrHit => exact absurd hst hprobed.ne_mshrHit
  unfold wrMiss at h
  split at h
  · next hw => exact wrMissNoWa_cases types hp hs hwrite hw h
  · next hw => exact wrMissWaNaive_cases types hp (hs' (by simp [hw])) hwrite hw h
  · next hw =>
      unfold wrMissWaFetchOnWrite at h
      split at h
      · next hfull =>
          exact wrMissWaFetchOnWriteFull_cases types hp (hs' (by simp [hw])) hwrite hw hfull h
      · next hpart =>
          exact wrMissWaFetchOnWritePartial_cases types hp (hs' (by simp [hw])) hwrite hw hpart h
  · next hw => exact wrMissWaLazyFetchOnRead_cases types hp (hs' (by simp [hw])) hwrite hw h

end Misses

/-! ### The entry points -/

theorem useDataPort_core {c c' : Cache cfg} {m : MemFetch} {outcome : CacheRequestStatus}
    {events : List CacheEvent} (h : c.useDataPort m outcome events = .ok c') :
    c'.core = c.core := by
  unfold useDataPort at h
  split at h
  · cases h
    rfl
  · split at h <;> cases h <;> rfl
  · split at h <;> cases h <;> rfl
  · cases h
    rfl
  · cases h
    rfl
  · cases h

theorem countAccess_core (c : Cache cfg) (m : MemFetch) (probe access : CacheRequestStatus) :
    (c.countAccess m probe access).core = c.core := rfl

section Entry

variable {c c' : Cache cfg} {addr : NewAddrType} {mf : Token} {time : Time}
  {events events' : List CacheEvent} {status : CacheRequestStatus} {p : ProbeResult}

/-- A hit handler and the response that is queued after it make a hit. -/
theorem accessCase_of_handled {cls : CacheClass} {s : Core cfg}
    (hp : c.Probes addr (c.mfs mf) p) (hhit : p.status = .hit)
    (hqueue : cfg.deferHitResponse = true → c.hitResponseQueueFull = false)
    (h : HitHandled c cls mf time p status s) :
    AccessCase c cls addr mf time status (if status = .hit then s.respond mf p.idx else s) := by
  cases h with
  | refused => exact .refused
  | done line forward heffect hroom => exact .hit p hp hhit hqueue line forward heffect hroom

/-- On a hit, the handlers of a data cache do what a hit handler does. -/
theorem callHandler_handled (types : DataCacheTypes) (hp : c.Probes addr (c.mfs mf) p)
    (hhit : p.status = .hit)
    (h : c.callHandler types (c.mfs mf).isWrite p.status addr p.idx mf time events =
      .ok (c', status, events')) :
    HitHandled c (.dataCache types) mf time p status c'.core := by
  unfold callHandler at h
  split at h
  · next hwrite =>
      exact wrHit_handled types hp hhit hwrite h
  · next hread =>
      exact rdHitBase_handled hp hhit (by simpa using hread) h

/-- On a miss, the handlers of a data cache do one of the five cases. -/
theorem callHandler_cases (types : DataCacheTypes) (hp : c.Probes addr (c.mfs mf) p)
    (hs : p.status ≠ .hit)
    (h : c.callHandler types (c.mfs mf).isWrite p.status addr p.idx mf time events =
      .ok (c', status, events')) :
    AccessCase c (.dataCache types) addr mf time status c'.core := by
  have hfail : ∀ {d : Cache cfg}, p.status = .reservationFail → d.core = c.core →
      AccessCase c (.dataCache types) addr mf time p.status d.core := by
    intro d hf hd
    rw [hf, hd]
    exact .refused
  unfold callHandler at h
  split at h
  · next hwrite =>
      split at h
      · next hor =>
          refine wrMiss_cases types hp hs (fun hf => hor.resolve_left ?_) hwrite h
          simp [hf]
      · next hnor =>
          cases h
          exact hfail (by simpa using (not_or.1 hnor).1) rfl
  · next hread =>
      split at h
      · next hne =>
          refine rdMissBase_cases types hp ?_ (by simpa using hread) h
          obtain ⟨setIndex, -, hprobed⟩ := TagArray.probed_of_probe hp
          have := hprobed.ne_mshrHit
          cases hst : p.status <;> simp_all
      · next hnne =>
          cases h
          exact hfail (by simpa using hnne) rfl

theorem processTagProbe_cases (types : DataCacheTypes) (hp : c.Probes addr (c.mfs mf) p)
    (h : c.processTagProbe types (c.mfs mf).isWrite p.status addr p.idx mf time events =
      .ok (c', status, events')) :
    AccessCase c (.dataCache types) addr mf time status c'.core := by
  unfold processTagProbe at h
  dsimp only at h
  split at h
  · obtain ⟨c₁, h₁, h⟩ := bind_eq_ok.1 h
    cases h
    rw [useDataPort_core h₁]
    exact .refused
  · next hqueue =>
      obtain ⟨⟨c₁, status₁, events₁⟩, h₁, h⟩ := bind_eq_ok.1 h
      obtain ⟨c₂, h₂, h⟩ := bind_eq_ok.1 h
      cases h
      rw [useDataPort_core h₂]
      by_cases hhit : p.status = .hit
      · have hcase := accessCase_of_handled hp hhit (fun hd => by simpa [hhit, hd] using hqueue)
          (callHandler_handled types hp hhit h₁)
        by_cases hst : status₁ = .hit
        · simp only [hst, if_true] at hcase
          simp only [hhit, hst, true_and, and_true]
          rw [enqueueHitResponse_core]
          exact hcase
        · simp only [hst, if_false] at hcase
          simp only [hst, and_false, if_false]
          exact hcase
      · simp only [hhit, false_and, if_false]
        exact callHandler_cases types hp hhit h₁

theorem readOnlyTagProbe_cases (hp : c.Probes addr (c.mfs mf) p)
    (hread : (c.mfs mf).isWrite = false)
    (h : c.readOnlyTagProbe p addr mf time events = .ok (c', status, events')) :
    AccessCase c .readOnlyCache addr mf time status c'.core := by
  unfold readOnlyTagProbe at h
  dsimp only at h
  split at h
  · next hhit =>
      split at h
      · cases h
        exact .refused
      · next hqueue =>
          obtain ⟨⟨ta, r⟩, hta, h'⟩ := bind_eq_ok.1 h
          obtain ⟨p', hp', -, hstatus, hidx, -, hlines⟩ :=
            TagArray.access_eq_ok (TagArray.accessNoWriteback_eq_ok hta)
          have hpp : p' = p := by
            rw [TagArray.probe_idx hp (by simp [hhit]) p.idx] at hp'
            exact (Except.ok.inj hp').symm
          subst hpp
          have hcase : AccessCase c .readOnlyCache addr mf time .hit _ :=
            .hit p' hp hhit (fun hd => by simpa [hd] using hqueue) _ false (.read hread) (by simp)
          have hcore := core_tagArray hlines
          simp only [TagArray.touchedLine, hhit] at hcore
          simp only [hstatus, hhit, decide_true, Bool.and_true, hidx] at h'
          simp only [Core.enqueueIf, Bool.false_eq_true, if_false] at hcase
          rw [← hcore, ← enqueueHitResponse_core] at hcase
          split at h'
          · next hd =>
              rw [if_pos hd] at hcase
              cases h'
              exact hcase
          · next hd =>
              rw [if_neg hd] at hcase
              cases h'
              exact hcase
  · next hhit =>
      split at h
      · next hfail =>
          have hs : p.status = .hitReserved ∨ p.status = .miss ∨ p.status = .sectorMiss := by
            obtain ⟨setIndex, -, hprobed⟩ := TagArray.probed_of_probe hp
            have := hprobed.ne_mshrHit
            cases hst : p.status <;> simp_all
          split at h
          · cases h
            exact .refused
          · obtain ⟨⟨c₁, r⟩, h₁, h⟩ := bind_eq_ok.1 h
            rcases sendReadRequest_core hp hfail h₁ with
              ⟨hdo, hcore, -⟩ | ⟨hdo, hi, -, hjoin, hnew, hcore⟩
            · simp only [hdo] at h
              cases h
              rw [hcore]
              exact .refused
            · simp only [hdo, if_true] at h
              cases h
              have hcase : AccessCase c .readOnlyCache addr mf time .miss _ :=
                .fetch p hp hs hi mf c.core id (.read hread) hjoin hnew (by simp)
              simp only [id, Core.setLine_self] at hcase
              rw [hcore]
              exact hcase
      · cases h
        exact .refused

/-- The five cases do not depend on the reason that the last probe left behind. -/
theorem accessCase_of_lastFailReason {cls : CacheClass} {s : Core cfg}
    {reason : CacheReservationFailReason}
    (h : AccessCase { c with tagArray := { c.tagArray with lastFailReason := reason } } cls addr mf
      time status s) :
    AccessCase c cls addr mf time status s := by
  have hprobes : ∀ {p : ProbeResult} {m : MemFetch},
      ({ c with tagArray := { c.tagArray with lastFailReason := reason } } : Cache cfg).Probes addr
        m p → c.Probes addr m p := by
    intro p m h
    refine Eq.trans ?_ h
    refine (TagArray.probe_congr ?_ ?_ _ _ _ _).symm <;> rfl
  cases h with
  | refused => exact .refused
  | hit p hp hst hqueue line forward heffect hroom =>
      exact .hit p (hprobes hp) hst hqueue line forward heffect hroom
  | forward p hp hst hwrite types hcls hpolicy hroom =>
      exact .forward p (hprobes hp) hst hwrite types hcls hpolicy hroom
  | write p hp hst hwrite types hcls hi line forward heffect hroom =>
      exact .write p (hprobes hp) hst hwrite types hcls hi line forward heffect hroom
  | fetch p hp hst hi reader s written hfetcher hjoin hnew hroom =>
      exact .fetch p (hprobes hp) hst hi reader s written hfetcher hjoin hnew hroom

theorem probeTags_eq_ok {c₁ : Cache cfg} {m : MemFetch} (h : c.probeTags addr m = .ok (c₁, p)) :
    c₁ = { c with tagArray := { c.tagArray with lastFailReason := p.failReason } } ∧
      c₁.Probes addr m p := by
  obtain ⟨p', hp, h⟩ := bind_eq_ok.1 h
  cases h
  refine ⟨rfl, ?_⟩
  refine Eq.trans ?_ hp
  refine TagArray.probe_congr ?_ ?_ _ _ _ _ <;> rfl

theorem probes_of_probeTags {c₁ : Cache cfg} {m : MemFetch} (h : c.probeTags addr m = .ok (c₁, p)) :
    c.Probes addr m p := by
  obtain ⟨p', hp, h⟩ := bind_eq_ok.1 h
  cases h
  exact hp

/-- **Every access that returns is one of the five cases.** -/
theorem access_cases {cls : CacheClass}
    (h : c.access cls addr mf time events = .ok (c', status, events')) :
    AccessCase c cls addr mf time status c'.core := by
  cases cls with
  | readOnlyCache =>
      obtain ⟨_, -, h⟩ := bind_eq_ok.1 h
      obtain ⟨_, -, h⟩ := bind_eq_ok.1 h
      obtain ⟨_, hread, h⟩ := bind_eq_ok.1 h
      obtain ⟨⟨c₁, p⟩, h₁, h⟩ := bind_eq_ok.1 h
      obtain ⟨⟨c₂, status₂, events₂⟩, h₂, h⟩ := bind_eq_ok.1 h
      cases h
      obtain ⟨rfl, hp⟩ := probeTags_eq_ok h₁
      have hcase := readOnlyTagProbe_cases hp (assertThat_eq_ok.1 hread) h₂
      rw [countAccess_core]
      exact accessCase_of_lastFailReason hcase
  | dataCache types =>
      obtain ⟨_, -, h⟩ := bind_eq_ok.1 h
      obtain ⟨_, -, h⟩ := bind_eq_ok.1 h
      obtain ⟨⟨c₁, p⟩, h₁, h⟩ := bind_eq_ok.1 h
      obtain ⟨⟨c₂, status₂, events₂⟩, h₂, h⟩ := bind_eq_ok.1 h
      cases h
      obtain ⟨rfl, hp⟩ := probeTags_eq_ok h₁
      have hcase := processTagProbe_cases types hp h₂
      rw [countAccess_core]
      exact accessCase_of_lastFailReason hcase

end Entry

/-! ### The other methods -/

/-- The requests whose delay ends leave the hit response queue; none is lost. -/
theorem tickHitResponses_perm {q waiting : List DelayedResponseEntry} {done : List Token}
    (h : tickHitResponses q = .ok (waiting, done)) :
    (q.map DelayedResponseEntry.mf).Perm (waiting.map DelayedResponseEntry.mf ++ done) := by
  induction q generalizing waiting done with
  | nil =>
      cases h
      exact List.Perm.refl _
  | cons e rest ih =>
      obtain ⟨_, -, h⟩ := bind_eq_ok.1 h
      obtain ⟨⟨waiting', done'⟩, hrest, h⟩ := bind_eq_ok.1 h
      have hperm := ih hrest
      dsimp only at h
      split at h
      · cases h
        rw [List.map_cons]
        exact (hperm.cons _).trans List.perm_middle.symm
      · cases h
        rw [List.map_cons, List.map_cons, List.cons_append]
        exact hperm.cons _

theorem cycle_core {c c' : Cache cfg} {memportFull : Bool} {pushed : Option Token}
    (h : c.cycle memportFull = .ok (c', pushed)) :
    ∃ waiting done, tickHitResponses c.core.hitQueue = .ok (waiting, done) ∧
      (pushed = none ∧ c'.core = c.core.tick waiting done ∨
        ∃ mf rest, c.core.missQueue = mf :: rest ∧ pushed = some mf ∧
          c'.core = { c.core.tick waiting done with missQueue := rest }) := by
  obtain ⟨⟨waiting, done⟩, htick, h⟩ := bind_eq_ok.1 h
  refine ⟨waiting, done, htick, ?_⟩
  cases h
  cases hq : c.missQueue with
  | nil =>
      refine Or.inl ⟨rfl, ?_⟩
      simp [core, Core.tick, replenishPortBandwidth, hq]
  | cons mf rest =>
      cases memportFull with
      | true =>
          refine Or.inl ⟨rfl, ?_⟩
          simp [core, Core.tick, replenishPortBandwidth, hq]
      | false => exact Or.inr ⟨mf, rest, hq, rfl, rfl⟩

/-- The response to a request is complete: the line it was fetched for is filled, the request gets
back what was rewritten in it, and its MSHR entry is ready. -/
theorem fillComplete_core {c c' : Cache cfg} {mf : Token} {time : Time}
    (h : c.fillComplete mf time = .ok c') :
    ∃ e, c.core.extra.lookup mf = some e ∧ (c.core.entries.lookup e.blockAddr).isSome = true ∧
      (cfg.allocPolicy = .onMiss ∧
          cfg.getSectorIndex (c.mfs mf).accessSectorMask =
            .ok (cfg.sectorIndex (c.mfs mf).accessSectorMask) ∧
          c'.core = (c.core.complete mf e).setLine e.cacheIndex
            ((c.tagArray.lines e.cacheIndex).fill (cfg.sectorIndex (c.mfs mf).accessSectorMask)
              (c.mfs mf).accessByteMask) ∨
        cfg.allocPolicy = .onFill ∧
          ∃ ta, c.tagArray.fillAddr e.blockAddr time (c.mfs mf).accessSectorMask
              (c.mfs mf).accessByteMask (c.mfs mf).isWrite = .ok ta ∧
            c'.core = { c.core.complete mf e with lines := ta.lines }) := by
  unfold fillComplete at h
  split at h
  · cases h
  · next e he =>
      refine ⟨e, he, ?_⟩
      obtain ⟨_, -, h⟩ := bind_eq_ok.1 h
      simp only [Function.update_self] at h
      split at h
      · next hon =>
          obtain ⟨ta, hta, h⟩ := bind_eq_ok.1 h
          obtain ⟨t, ht, h⟩ := bind_eq_ok.1 h
          obtain ⟨hsome, hdata, hresp⟩ := MshrTable.markReady_eq_ok ht
          obtain ⟨hi, hlines⟩ := TagArray.fillIndex_eq_ok hta
          cases h
          refine ⟨hsome, Or.inl ⟨hon, hi, ?_⟩⟩
          simp only [core, Core.complete, Core.setLine, useFillPort, hlines, hdata, hresp]
      · next hon =>
          obtain ⟨ta, hta, h⟩ := bind_eq_ok.1 h
          obtain ⟨t, ht, h⟩ := bind_eq_ok.1 h
          obtain ⟨hsome, hdata, hresp⟩ := MshrTable.markReady_eq_ok ht
          cases h
          refine ⟨hsome, Or.inr ⟨hon, ta, hta, ?_⟩⟩
          simp only [core, Core.complete, useFillPort, hdata, hresp]
      · cases h

theorem unpinResponse_core {c c' : Cache cfg} {mf : Token} (h : c.unpinResponse mf = .ok c') :
    c'.core = c.core.unpin mf ∧ ∀ idx, c.core.pending.lookup mf = some idx →
      0 < (c.core.lines idx).pendingResponseCount := by
  unfold unpinResponse at h
  unfold Core.unpin
  cases hpending : c.core.pending.lookup mf with
  | none =>
      have hpending' : c.pendingResponseIndices.lookup mf = none := hpending
      rw [hpending'] at h
      cases h
      simp
  | some idx =>
      have hpending' : c.pendingResponseIndices.lookup mf = some idx := hpending
      rw [hpending'] at h
      obtain ⟨block, hblock, h⟩ := bind_eq_ok.1 h
      obtain ⟨_, hpos, hblock⟩ := bind_eq_ok.1 hblock
      cases hblock
      cases h
      refine ⟨rfl, ?_⟩
      rintro idx' ⟨⟩
      exact assertThat_eq_ok.1 hpos

theorem nextAccess_core {c c' : Cache cfg} {mf : Token} (h : c.nextAccess = .ok (c', mf)) :
    (∀ idx, c.core.pending.lookup mf = some idx →
      0 < (c.core.lines idx).pendingResponseCount) ∧
    ((∃ rest, c.core.readyQueue = mf :: rest ∧
        c'.core = ({ c.core with readyQueue := rest } : Core cfg).unpin mf) ∨
      c.core.readyQueue = [] ∧ ∃ a others rest, c.core.answered = a :: others ∧
        c.core.entries.lookup a = some (mf :: rest) ∧
        c'.core = (c.core.deliver a rest).unpin mf) := by
  obtain ⟨_, -, h⟩ := bind_eq_ok.1 h
  split at h
  · next mf' rest hq =>
      obtain ⟨c₁, h₁, h⟩ := bind_eq_ok.1 h
      cases h
      obtain ⟨hcore, hpos⟩ := unpinResponse_core h₁
      exact ⟨hpos, Or.inl ⟨rest, hq, hcore⟩⟩
  · next hq =>
      obtain ⟨⟨t, mf'⟩, ht, h⟩ := bind_eq_ok.1 h
      obtain ⟨c₁, h₁, h⟩ := bind_eq_ok.1 h
      cases h
      obtain ⟨hcore, hpos⟩ := unpinResponse_core h₁
      obtain ⟨a, others, rest, hcur, hlookup, hor⟩ := MshrTable.nextAccess_eq_ok ht
      refine ⟨hpos, Or.inr ⟨hq, a, others, rest, hcur, hlookup, ?_⟩⟩
      rw [hcore]
      congr 1
      unfold Core.deliver
      rcases hor with ⟨hrest, hdata, hresp⟩ | ⟨hrest, hdata, hresp⟩
      · simp only [if_pos hrest, core, hdata, hresp, hcur, List.tail_cons]
      · simp only [if_neg hrest, core, hdata, hresp]

end Cache

end OpenCache
