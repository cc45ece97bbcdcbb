/-
The dirty count of the tag array.

`m_dirty` is kept by hand: a line is counted when it gets its first `MODIFIED` sector and discounted
when it is evicted, when its last such sector is reserved again, and by a flush or an invalidation.
Two paths forget to discount: a write hit that evicts, and a fill of a sector that a full write has
made `MODIFIED` while it was reserved.

* `OpenCache.TagArray.DirtyExact` — the count is right;
* `OpenCache.Cache.access_dirtyExact`, `OpenCache.Cache.fill_dirtyExact` — an access and a fill keep
  it right, unless they clean the last `MODIFIED` sector of a line;
* `OpenCache.dirty_count_exact` — **the count is right in every run without such steps**;
* `OpenCache.dirty_count_drifts` — a run in which it is not.
-/

import OpenCache.System
import OpenCache.Census
import Mathlib.Data.BitVec

set_option relaxedAutoImplicit false
set_option autoImplicit false

namespace OpenCache

open Census

variable {cfg : CacheConfig}

/-! ### The lines that are counted -/

namespace CacheBlock

variable {k : CacheType} {b b' : CacheBlock k}

/-- Whether a line is modified depends on the states of its sectors only. -/
theorem isModifiedLine_congr (h : ∀ i, b'.getStatus i = b.getStatus i) :
    b'.isModifiedLine = b.isModifiedLine := by
  rw [Bool.eq_iff_iff, isModifiedLine_iff, isModifiedLine_iff]
  simp only [h]

/-- An update of a sector that keeps its state. -/
theorem isModifiedLine_modifySector {i : Fin 4} {f : SectorState → SectorState}
    (hf : ∀ s, (f s).status = s.status) :
    (b.modifySector i f).isModifiedLine = b.isModifiedLine := by
  refine isModifiedLine_congr fun j => ?_
  rw [getStatus, sectorAt_modifySector]
  split
  · exact hf _
  · rfl

theorem isModifiedLine_writtenOnFill (i : Fin 4) :
    (b.writtenOnFill i).isModifiedLine = b.isModifiedLine := by
  calc (b.writtenOnFill i).isModifiedLine = (b.setModifiedOnFill true i).isModifiedLine :=
        isModifiedLine_congr fun _ => rfl
    _ = b.isModifiedLine := isModifiedLine_modifySector fun _ => rfl

theorem isModifiedLine_marked (m : MemFetch) (i : Fin 4) :
    (b.marked m i).isModifiedLine = true := by
  refine (isModifiedLine_iff _).2 ⟨i, ?_⟩
  simp [marked, getStatus, setStatus]

theorem isModifiedLine_init : (init k).isModifiedLine = false := by
  rw [Bool.eq_false_iff]
  intro h
  obtain ⟨i, hi⟩ := (isModifiedLine_iff _).1 h
  rw [getStatus, sectorAt, init] at hi
  dsimp only at hi
  rw [BlockSectors.get_init] at hi
  cases hi

/-- A line that has just been allocated is not modified. -/
theorem isModifiedLine_allocate (tag blockAddr : NewAddrType) (time : Time) (i : Fin 4) :
    (b.allocate tag blockAddr time i).isModifiedLine = false := by
  rcases b with ⟨_, _, _, _, _, _, _, _, ⟨s⟩ | ⟨s⟩⟩
  · rfl
  · rw [Bool.eq_false_iff]
    intro h
    obtain ⟨j, hj⟩ := (isModifiedLine_iff _).1 h
    rw [getStatus, sectorAt, allocate] at hj
    dsimp only at hj
    rw [BlockSectors.get_modify] at hj
    split at hj
    · cases hj
    · rw [BlockSectors.get_init] at hj
      cases hj

/-- A sector that is reserved again is not modified until its fill. -/
theorem isModifiedLine_reserveSectorAgain {i : Fin 4}
    (h : (b.modifySector i reserveSectorAgain).isModifiedLine = true) :
    b.isModifiedLine = true := by
  obtain ⟨j, hj⟩ := (isModifiedLine_iff _).1 h
  rw [getStatus, sectorAt_modifySector] at hj
  split at hj
  · cases hj
  · exact (isModifiedLine_iff _).2 ⟨j, hj⟩

end CacheBlock

namespace TagArray

/-- The dirty count is the number of lines with a `MODIFIED` sector. -/
def DirtyExact (ta : TagArray cfg) : Prop :=
  ta.dirty = BitVec.ofNat 32 (census CacheBlock.isModifiedLine cfg.getNumLines ta.lines)

namespace DirtyExact

variable {ta ta' : TagArray cfg} {idx : ℕ} {b : CacheBlock cfg.cacheType}

/-- The lines stay as modified as they were, and so does the count. -/
theorem of_same (h : ta.DirtyExact)
    (hlines : ∀ i, (ta'.lines i).isModifiedLine = (ta.lines i).isModifiedLine)
    (hdirty : ta'.dirty = ta.dirty) : ta'.DirtyExact := by
  rw [DirtyExact, hdirty, census_congr fun i _ => hlines i]
  exact h

/-- One line changes, and stays as modified as it was. -/
theorem of_line (h : ta.DirtyExact) (hlines : ta'.lines = Function.update ta.lines idx b)
    (hline : b.isModifiedLine = (ta.lines idx).isModifiedLine) (hdirty : ta'.dirty = ta.dirty) :
    ta'.DirtyExact := by
  refine h.of_same (fun i => ?_) hdirty
  rw [hlines]
  by_cases hi : i = idx
  · subst hi
    rw [Function.update_self]
    exact hline
  · rw [Function.update_of_ne hi]

/-- One line changes, and the count follows it. -/
theorem of_update (h : ta.DirtyExact) (hidx : idx < cfg.getNumLines)
    (hlines : ta'.lines = Function.update ta.lines idx b)
    (hdirty : ta'.dirty + BitVec.ofNat 32 (ta.lines idx).isModifiedLine.toNat =
      ta.dirty + BitVec.ofNat 32 b.isModifiedLine.toNat) : ta'.DirtyExact := by
  have hcount := congrArg (BitVec.ofNat 32)
    (@census_update _ CacheBlock.isModifiedLine cfg.getNumLines ta.lines idx hidx b)
  rw [BitVec.ofNat_add, BitVec.ofNat_add] at hcount
  rw [DirtyExact] at h
  rw [h, ← hcount] at hdirty
  rw [DirtyExact, hlines]
  exact (BitVec.add_left_inj _).1 hdirty

/-- A line is replaced by one that is not modified unless the old one was, and the count follows. -/
theorem discount (h : ta.DirtyExact) (hidx : idx < cfg.getNumLines)
    (hnew : b.isModifiedLine = true → (ta.lines idx).isModifiedLine = true) :
    ((if (ta.lines idx).isModifiedLine && !b.isModifiedLine then
      { ta with dirty := ta.dirty - 1 } else ta).setLine idx b).DirtyExact := by
  split
  · next hboth =>
      rw [Bool.and_eq_true, Bool.not_eq_true'] at hboth
      refine h.of_update hidx rfl ?_
      rw [hboth.1, hboth.2]
      simp [setLine]
  · next hboth =>
      refine h.of_line rfl ?_ rfl
      rw [Bool.eq_iff_iff]
      refine ⟨hnew, fun hold => ?_⟩
      by_contra hne
      refine hboth ?_
      rw [Bool.and_eq_true, Bool.not_eq_true']
      exact ⟨hold, Bool.eq_false_iff.2 hne⟩

end DirtyExact

/-- The index of a way lies below the number of lines. -/
theorem lt_of_mem_waysOf {addr : NewAddrType} {setIndex j : ℕ}
    (hset : cfg.setIndex addr = .ok setIndex) (hj : j ∈ waysOf cfg setIndex) :
    j < cfg.getNumLines := by
  obtain ⟨i, -, h⟩ := bind_eq_ok.1 hset
  obtain ⟨_, hlt, h⟩ := bind_eq_ok.1 h
  cases h
  have hset : i.toNat < cfg.nset := assertThat_eq_ok.1 hlt
  obtain ⟨way, hway, rfl⟩ := List.mem_map.1 hj
  have hassoc : way < cfg.assoc := List.mem_range.1 hway
  have hmul : (i.toNat + 1) * cfg.assoc ≤ cfg.nset * cfg.assoc := Nat.mul_le_mul_right _ hset
  rw [CacheConfig.getNumLines]
  rw [Nat.add_one_mul] at hmul
  omega

/-- The index that a probe answers with, unless it refuses. -/
theorem idx_lt_of_probe {ta : TagArray cfg} {addr : NewAddrType} {idx : ℕ}
    {mask : MemAccessSectorMask} {isWrite : Bool} {p : ProbeResult}
    (h : ta.probe addr idx mask isWrite = .ok p) (hfail : p.status ≠ .reservationFail) :
    p.idx < cfg.getNumLines := by
  obtain ⟨setIndex, hset, hprobed⟩ := probed_of_probe h
  refine lt_of_mem_waysOf hset ?_
  cases hs : p.status with
  | hit => exact (hprobed.found (Or.inl hs)).1
  | hitReserved => exact (hprobed.found (Or.inr (Or.inl hs))).1
  | sectorMiss => exact (hprobed.found (Or.inr (Or.inr hs))).1
  | miss => exact (hprobed.miss hs).1
  | reservationFail => exact absurd hs hfail
  | mshrHit => exact absurd hs hprobed.ne_mshrHit

/-- An access keeps the dirty count right. -/
theorem DirtyExact.access {ta ta' : TagArray cfg} {addr : NewAddrType} {time : Time} {idx : ℕ}
    {mf : MemFetch} {r : AccessResult} (hexact : ta.DirtyExact)
    (h : ta.access addr time idx mf = .ok (ta', r)) : ta'.DirtyExact := by
  obtain ⟨p, hp', h⟩ := bind_eq_ok.1 h
  have hp : ta.probe addr idx mf.accessSectorMask mf.isWrite = .ok p := by
    rw [← hp']
    refine (probe_congr ?_ ?_ _ _ _ _).symm <;> rfl
  have htime : ∀ b : CacheBlock cfg.cacheType,
      (b.setLastAccessTime time).isModifiedLine = b.isModifiedLine :=
    fun b => CacheBlock.isModifiedLine_congr fun _ => rfl
  obtain ⟨setIndex, -, hprobed⟩ := probed_of_probe hp
  cases hs : p.status with
  | hit =>
      simp only [hs] at h
      cases h
      exact hexact.of_line rfl (htime _) rfl
  | hitReserved =>
      simp only [hs] at h
      cases h
      exact hexact.of_line rfl (htime _) rfl
  | miss =>
      have hidx := idx_lt_of_probe hp (by simp [hs])
      simp only [hs] at h
      split at h
      · obtain ⟨i, -, h⟩ := bind_eq_ok.1 h
        have hnew := @CacheBlock.isModifiedLine_allocate _ (ta.lines p.idx) (cfg.tag addr)
          (cfg.blockAddr addr) time i
        split at h
        · next hold =>
            cases h
            refine hexact.of_update hidx rfl ?_
            rw [hold, hnew]
            simp [setLine]
        · next hold =>
            cases h
            exact hexact.of_line rfl (hnew.trans (Bool.eq_false_iff.2 hold).symm) rfl
      · cases h
        exact hexact.of_same (fun _ => rfl) rfl
  | reservationFail =>
      simp only [hs] at h
      cases h
      exact hexact.of_same (fun _ => rfl) rfl
  | sectorMiss =>
      have hidx := idx_lt_of_probe hp (by simp [hs])
      simp only [hs] at h
      obtain ⟨_, -, h⟩ := bind_eq_ok.1 h
      split at h
      · obtain ⟨i, -, h⟩ := bind_eq_ok.1 h
        obtain ⟨new, hnew, h⟩ := bind_eq_ok.1 h
        obtain ⟨_, -, hnew⟩ := bind_eq_ok.1 hnew
        -- a sector is reserved again, which can only end the dirtiness of its line
        have hreserved : new.isModifiedLine = true → (ta.lines p.idx).isModifiedLine = true := by
          intro hm
          rw [← Except.ok.inj hnew] at hm
          exact CacheBlock.isModifiedLine_reserveSectorAgain ((htime _).symm.trans hm)
        cases h
        have hcounted : ({ ta with
            accesses := ta.accesses + 1, isUsed := true, lastFailReason := p.failReason
            sectorMiss := ta.sectorMiss + 1 } : TagArray cfg).DirtyExact :=
          hexact.of_same (fun _ => rfl) rfl
        exact hcounted.discount hidx hreserved
      · cases h
        exact hexact.of_same (fun _ => rfl) rfl
  | mshrHit => exact absurd hs hprobed.ne_mshrHit

/-- A fill turns the last `MODIFIED` sector of a line into a clean one. -/
def cleansLine (b : CacheBlock cfg.cacheType) (i : Fin 4) (byteMask : MemAccessByteMask) : Bool :=
  b.isModifiedLine && !(b.fill i byteMask).isModifiedLine

/-- A fill keeps the dirty count right, unless it cleans the last `MODIFIED` sector of the line. -/
theorem DirtyExact.fillLine {ta : TagArray cfg} {idx : ℕ} {i : Fin 4}
    {byteMask : MemAccessByteMask} (hexact : ta.DirtyExact) (hidx : idx < cfg.getNumLines)
    (hclean : cleansLine (ta.lines idx) i byteMask = false) :
    (ta.fillLine idx i byteMask).DirtyExact := by
  have hkeep : (ta.lines idx).isModifiedLine = true →
      ((ta.lines idx).fill i byteMask).isModifiedLine = true := by
    intro hold
    simpa [cleansLine, hold] using hclean
  have hlines := fillLine_lines ta idx i byteMask
  unfold TagArray.fillLine at hlines ⊢
  dsimp only at hlines ⊢
  split
  · next hboth =>
      rw [if_pos hboth] at hlines
      rw [Bool.and_eq_true, Bool.not_eq_true'] at hboth
      refine hexact.of_update hidx hlines ?_
      rw [hboth.1, hboth.2]
      simp [setLine, incDirty]
  · next hboth =>
      rw [if_neg hboth] at hlines
      refine hexact.of_line hlines ?_ rfl
      rw [Bool.eq_iff_iff]
      refine ⟨fun hnew => ?_, hkeep⟩
      by_contra hold
      refine hboth ?_
      rw [Bool.and_eq_true, Bool.not_eq_true']
      exact ⟨hnew, Bool.eq_false_iff.2 hold⟩

/-- A fill by address makes no line modified before it fills it. -/
theorem isModifiedLine_fillTarget {addr : NewAddrType} {time : Time} {i : Fin 4}
    {status : CacheRequestStatus} {b : CacheBlock cfg.cacheType}
    (h : (fillTarget cfg addr time i status b).isModifiedLine = true) :
    b.isModifiedLine = true := by
  cases status with
  | miss =>
      rw [fillTarget, CacheBlock.isModifiedLine_allocate] at h
      cases h
  | sectorMiss =>
      have hreserved : (fillTarget cfg addr time i .sectorMiss b).isModifiedLine =
          (b.modifySector i CacheBlock.reserveSectorAgain).isModifiedLine :=
        CacheBlock.isModifiedLine_congr fun _ => rfl
      exact CacheBlock.isModifiedLine_reserveSectorAgain (hreserved.symm.trans h)
  | _ => exact h

/-- A fill by address keeps the dirty count right, unless it cleans the last `MODIFIED` sector of
the line it has found. -/
theorem DirtyExact.fillAddr {ta ta' : TagArray cfg} {addr : NewAddrType} {time : Time}
    {mask : MemAccessSectorMask} {byteMask : MemAccessByteMask} {isWrite : Bool}
    (hexact : ta.DirtyExact)
    (hclean : ∀ p, ta.probe addr 0 mask isWrite = .ok p → p.status ≠ .reservationFail →
      cleansLine (fillTarget cfg addr time (cfg.sectorIndex mask) p.status (ta.lines p.idx))
        (cfg.sectorIndex mask) byteMask = false)
    (h : ta.fillAddr addr time mask byteMask isWrite = .ok ta') : ta'.DirtyExact := by
  obtain ⟨p, hp, h⟩ := bind_eq_ok.1 h
  have hprobed : ({ ta with lastFailReason := p.failReason } : TagArray cfg).DirtyExact :=
    hexact.of_same (fun _ => rfl) rfl
  split at h
  · cases h
    exact hprobed
  · next hfail =>
      obtain ⟨i, hi, h⟩ := bind_eq_ok.1 h
      obtain ⟨new, hnew, h⟩ := bind_eq_ok.1 h
      have hidx := idx_lt_of_probe hp hfail
      have htarget := allocateForFill_eq_ok hnew
      have hmodified : new.isModifiedLine = true → (ta.lines p.idx).isModifiedLine = true := by
        rw [htarget]
        exact isModifiedLine_fillTarget
      have hset := hprobed.discount hidx hmodified
      have hkeep := hclean p hp hfail
      rw [CacheConfig.sectorIndex_eq hi, ← htarget] at hkeep
      cases h
      refine hset.fillLine hidx ?_
      rwa [show ∀ ta : TagArray cfg, (ta.setLine p.idx new).lines p.idx = new from
        fun ta => Function.update_self _ _ _]

theorem isModifiedLine_invalidateLine (b : CacheBlock cfg.cacheType) :
    (invalidateLine b).isModifiedLine = false := by
  rw [Bool.eq_false_iff]
  intro h
  obtain ⟨i, hi⟩ := (CacheBlock.isModifiedLine_iff _).1 h
  rw [getStatus_invalidateLine] at hi
  cases hi

theorem DirtyExact.flush {ta : TagArray cfg} (h : ta.DirtyExact) : ta.flush.DirtyExact := by
  unfold TagArray.flush
  split
  · refine (congrArg (BitVec.ofNat 32) (census_eq_zero fun i hi => ?_)).symm
    dsimp only
    split
    · exact isModifiedLine_invalidateLine _
    · next hclean => exact Bool.eq_false_iff.2 fun hm => hclean ⟨hi, hm⟩
  · exact h

theorem dirtyExact_invalidate (ta : TagArray cfg) : ta.invalidate.DirtyExact := by
  refine (congrArg (BitVec.ofNat 32) (census_eq_zero fun i hi => ?_)).symm
  simp only [TagArray.invalidate, if_pos hi]
  exact isModifiedLine_invalidateLine _

end TagArray

/-! ### The handlers -/

namespace Cache

open Raises

/-- The results of a step whose cache has the right dirty count. -/
abbrev CountsDirty (x : Step (Handled cfg)) : Prop := Ensures (fun r => r.1.tagArray.DirtyExact) x

variable {c : Cache cfg}

theorem setBlock_dirtyExact (h : c.tagArray.DirtyExact) (idx : ℕ) {b : CacheBlock cfg.cacheType}
    (hb : b.isModifiedLine = (c.getBlock idx).isModifiedLine) :
    (c.setBlock idx b).tagArray.DirtyExact :=
  h.of_line rfl hb rfl

theorem pinResponse_dirtyExact (h : c.tagArray.DirtyExact) (mf : Token) (idx : ℕ) :
    (c.pinResponse mf idx).tagArray.DirtyExact :=
  setBlock_dirtyExact h idx (CacheBlock.isModifiedLine_congr fun _ => rfl)

theorem sendWriteback_dirtyExact (h : c.tagArray.DirtyExact) (types : DataCacheTypes) (m : MemFetch)
    (evicted : Option EvictedBlockInfo) (request : EvictedBlockInfo → CacheEvent)
    (events : List CacheEvent) :
    (c.sendWriteback types m evicted request events).1.tagArray.DirtyExact := by
  unfold sendWriteback
  cases evicted with
  | none => exact h
  | some e =>
      dsimp only
      split <;> exact h

theorem markModified_dirtyExact (h : c.tagArray.DirtyExact) (m : MemFetch) {idx : ℕ}
    (hidx : idx < cfg.getNumLines) :
    Ensures (fun c' => c'.tagArray.DirtyExact) (c.markModified m idx) := by
  refine .bind fun i _ => .ok ?_
  have hmarked := @CacheBlock.isModifiedLine_marked _ (c.getBlock idx) m i
  split
  · next hold => exact h.of_line rfl (hmarked.trans hold.symm) rfl
  · next hold =>
      have hnew : ((c.getBlock idx).setStatus .modified i |>.setByteMask
        m.accessByteMask).isModifiedLine = true := hmarked
      refine h.of_update hidx rfl ?_
      rw [hnew, show (c.tagArray.lines idx).isModifiedLine = false from Bool.eq_false_iff.2 hold]
      simp [setBlock, TagArray.setLine, TagArray.incDirty]

theorem updateMReadable_dirtyExact (h : c.tagArray.DirtyExact) (m : MemFetch) (idx : ℕ) :
    Ensures (fun c' => c'.tagArray.DirtyExact) (c.updateMReadable m idx) := by
  unfold updateMReadable
  induction List.finRange 4 generalizing c with
  | nil => exact .ok h
  | cons i rest ih =>
      rw [List.foldlM_cons]
      refine .bind fun c₁ hc₁ => ih ?_
      unfold updateMReadableSector at hc₁
      split at hc₁
      · obtain ⟨j, -, hc₁⟩ := bind_eq_ok.1 hc₁
        cases hc₁
        exact setBlock_dirtyExact h idx (CacheBlock.isModifiedLine_modifySector fun _ => rfl)
      · cases hc₁
        exact h

theorem acceptMiss_dirtyExact (h : c.tagArray.DirtyExact) (blockAddr a : NewAddrType) (idx : ℕ)
    (mf : Token) (time : Time) (readOnly : Bool) :
    Ensures (fun r => r.1.tagArray.DirtyExact) (c.acceptMiss blockAddr a idx mf time readOnly) := by
  refine .bind fun r hr => .bind fun mshrs _ => .ok ?_
  obtain ⟨ta, r⟩ := r
  have hta : ta.DirtyExact := by
    unfold accessTags at hr
    split at hr
    · exact h.access (TagArray.accessNoWriteback_eq_ok hr)
    · exact h.access hr
  dsimp only
  split
  · exact pinResponse_dirtyExact hta mf r.idx
  · exact hta

theorem sendReadRequest_dirtyExact (h : c.tagArray.DirtyExact) (blockAddr : NewAddrType) (idx : ℕ)
    (mf : Token) (time : Time) (events : List CacheEvent) (readOnly wa : Bool) :
    Ensures (fun r => r.1.tagArray.DirtyExact)
      (c.sendReadRequest blockAddr idx mf time events readOnly wa) := by
  have haccept := acceptMiss_dirtyExact h blockAddr (cfg.mshrAddr (c.mfs mf).addr) idx mf time
    readOnly
  unfold sendReadRequest
  dsimp only
  exact .ite (fun _ => .bind fun r hr => .ok (haccept r hr)) fun _ =>
    .ite (fun _ => .bind fun r hr => .ok (haccept r hr)) fun _ =>
      .ite (fun _ => .ok h) fun _ => .ite (fun _ => .ok h) fun _ => .error _

section Handlers

variable {addr : NewAddrType} {mf : Token} {p : ProbeResult} (hp : c.Probes addr (c.mfs mf) p)
  (hfail : p.status ≠ .reservationFail) (h : c.tagArray.DirtyExact)

include hp hfail h

/-- After a probe that is no refusal, an access to the tags counts right, and finds a line. -/
theorem access_probed_dirtyExact {idx : ℕ} {time : Time} {ta : TagArray cfg} {r : AccessResult}
    (ha : c.tagArray.access (cfg.blockAddr addr) time idx (c.mfs mf) = .ok (ta, r)) :
    ta.DirtyExact ∧ r.idx < cfg.getNumLines := by
  refine ⟨h.access ha, ?_⟩
  obtain ⟨p', hp', -, -, hidx, -⟩ := TagArray.access_eq_ok ha
  rw [TagArray.probe_idx hp hfail idx] at hp'
  rw [hidx, ← Except.ok.inj hp']
  exact TagArray.idx_lt_of_probe hp hfail

/-- The writes into a line that has been found. -/
theorem writeLine_dirtyExact {idx : ℕ} {time : Time} {ta : TagArray cfg} {r : AccessResult}
    (ha : c.tagArray.accessNoWriteback (cfg.blockAddr addr) time idx (c.mfs mf) = .ok (ta, r))
    {c₁ c₂ : Cache cfg}
    (h₁ : ({ c with tagArray := ta } : Cache cfg).markModified (c.mfs mf) r.idx = .ok c₁)
    (h₂ : c₁.updateMReadable (c.mfs mf) r.idx = .ok c₂) : c₂.tagArray.DirtyExact := by
  obtain ⟨hta, hidx⟩ := access_probed_dirtyExact hp hfail h (TagArray.accessNoWriteback_eq_ok ha)
  have hmarked : c₁.tagArray.DirtyExact := markModified_dirtyExact hta (c.mfs mf) hidx c₁ h₁
  exact updateMReadable_dirtyExact hmarked (c.mfs mf) r.idx c₂ h₂

theorem wrHitWb_dirtyExact (idx : ℕ) (time : Time) (events : List CacheEvent) :
    CountsDirty (c.wrHitWb addr idx mf time events) :=
  .bind fun _ ha => .bind fun _ h₁ => .bind fun _ h₂ =>
    .ok (writeLine_dirtyExact hp hfail h ha h₁ h₂)

theorem wrHitWt_dirtyExact (idx : ℕ) (time : Time) (events : List CacheEvent) :
    CountsDirty (c.wrHitWt addr idx mf time events) := by
  refine .ite (fun _ => .ok h) fun _ => .bind fun _ ha => .bind fun _ h₁ => .bind fun c₂ h₂ => ?_
  have hwritten : c₂.tagArray.DirtyExact := writeLine_dirtyExact hp hfail h ha h₁ h₂
  exact .ok hwritten

omit hp hfail in
/-- A write hit that evicts keeps the count right if it leaves a `MODIFIED` sector or finds none. -/
theorem wrHitWe_dirtyExact {idx : ℕ}
    (hkeep : c.missQueueFull 0 = false → (c.getBlock idx).isModifiedLine = true →
      ((c.getBlock idx).setStatus .invalid
        (cfg.sectorIndex (c.mfs mf).accessSectorMask)).isModifiedLine = true)
    (events : List CacheEvent) : CountsDirty (c.wrHitWe idx mf events) := by
  refine .ite (fun _ => .ok h) fun hroom => .bind fun i hi => .ok ?_
  rw [← CacheConfig.sectorIndex_eq hi]
  refine h.of_line rfl ?_ rfl
  rw [Bool.eq_iff_iff]
  refine ⟨fun hnew => ?_, hkeep (by simpa using hroom)⟩
  obtain ⟨j, hj⟩ := (CacheBlock.isModifiedLine_iff _).1 hnew
  rw [CacheBlock.getStatus, CacheBlock.setStatus, CacheBlock.sectorAt_modifySector] at hj
  split at hj
  · cases hj
  · exact (CacheBlock.isModifiedLine_iff _).2 ⟨j, hj⟩

theorem wrHit_dirtyExact {idx : ℕ}
    (hkeep : evictsOnWriteHit cfg (c.mfs mf) → c.missQueueFull 0 = false →
      (c.getBlock idx).isModifiedLine = true → ((c.getBlock idx).setStatus .invalid
        (cfg.sectorIndex (c.mfs mf).accessSectorMask)).isModifiedLine = true)
    (time : Time) (events : List CacheEvent) :
    CountsDirty (c.wrHit addr idx mf time events) := by
  unfold wrHit
  split
  · exact .error _
  · exact wrHitWb_dirtyExact hp hfail h idx time events
  · exact wrHitWt_dirtyExact hp hfail h idx time events
  · next hpolicy => exact wrHitWe_dirtyExact h (hkeep (Or.inl hpolicy)) events
  · next hpolicy =>
      exact .ite (fun hg => wrHitWe_dirtyExact h (hkeep (Or.inr ⟨hpolicy, hg⟩)) events) fun _ =>
        wrHitWb_dirtyExact hp hfail h idx time events

omit hp hfail in
theorem rdMissBase_dirtyExact (types : DataCacheTypes) (idx : ℕ) (time : Time)
    (events : List CacheEvent) : CountsDirty (c.rdMissBase types addr idx mf time events) := by
  refine .ite (fun _ => .ok h) fun _ => .bind fun r hr => ?_
  have hr' := sendReadRequest_dirtyExact h _ _ _ _ _ _ _ r hr
  exact .ite (fun _ => .ok (sendWriteback_dirtyExact hr' types _ _ _ _)) fun _ => .ok hr'

omit hp hfail in
theorem wrMissWaNaive_dirtyExact (types : DataCacheTypes) (idx : ℕ) (time : Time)
    (events : List CacheEvent) (status : CacheRequestStatus) :
    CountsDirty (c.wrMissWaNaive types addr idx mf time events status) := by
  refine .ite (fun _ => .bind fun _ _ => .ok h) fun _ => .bind fun r hr => ?_
  have hr' : r.1.tagArray.DirtyExact := sendReadRequest_dirtyExact (by exact h) _ _ _ _ _ _ _ r hr
  exact .ite (fun _ => .bind fun _ _ => .ok (sendWriteback_dirtyExact hr' types _ _ _ _))
    fun _ => .ok hr'

omit hp hfail in
theorem wrMissWaFetchOnWritePartial_dirtyExact (types : DataCacheTypes) (idx : ℕ) (time : Time)
    (events : List CacheEvent) :
    CountsDirty (c.wrMissWaFetchOnWritePartial types addr idx mf time events) := by
  refine .ite (fun _ => .bind fun _ _ => .ok h) fun _ => .ite (fun _ => .ok h) fun _ =>
    .bind fun r hr => .bind fun i _ => ?_
  have hr' : r.1.tagArray.DirtyExact := sendReadRequest_dirtyExact (by exact h) _ _ _ _ _ _ _ r hr
  have hflag : (r.1.setBlock idx (((r.1.getBlock idx).setModifiedOnFill true i).putByteMaskOnFill
      true)).tagArray.DirtyExact :=
    setBlock_dirtyExact hr' idx (CacheBlock.isModifiedLine_writtenOnFill i)
  exact .ite (fun _ => .ok (sendWriteback_dirtyExact hflag types _ _ _ _)) fun _ => .ok hflag

theorem wrMissWaFetchOnWriteFull_dirtyExact (types : DataCacheTypes) (idx : ℕ) (time : Time)
    (events : List CacheEvent) :
    CountsDirty (c.wrMissWaFetchOnWriteFull types addr idx mf time events) := by
  refine .ite (fun _ => .ok h) fun _ => .bind fun a ha => .bind fun _ _ => .bind fun c₁ h₁ =>
    .bind fun c₂ h₂ => ?_
  obtain ⟨hta, hidx⟩ := access_probed_dirtyExact hp hfail h ha
  have hmarked : c₁.tagArray.DirtyExact := markModified_dirtyExact hta _ hidx c₁ h₁
  have hignored : c₂.tagArray.DirtyExact := by
    unfold ignoreOnFillIfReserved at h₂
    split at h₂
    · obtain ⟨i, -, h₂⟩ := bind_eq_ok.1 h₂
      cases h₂
      exact setBlock_dirtyExact hmarked _ (CacheBlock.isModifiedLine_modifySector fun _ => rfl)
    · cases h₂
      exact hmarked
  exact .ite (fun _ => .ok (sendWriteback_dirtyExact hignored types _ _ _ _)) fun _ => .ok hignored

theorem wrMissWaLazyFetchOnRead_dirtyExact (types : DataCacheTypes) (idx : ℕ) (time : Time)
    (events : List CacheEvent) :
    CountsDirty (c.wrMissWaLazyFetchOnRead types addr idx mf time events) := by
  unfold wrMissWaLazyFetchOnRead
  refine .ite (fun _ => .ok h) fun _ => ?_
  split
  next c₀ events₀ hc₀ =>
  have hta₀ : c₀.tagArray = c.tagArray := by
    split at hc₀ <;> cases hc₀ <;> rfl
  rw [hta₀]
  refine .bind fun a ha => .bind fun _ _ => .bind fun c₁ h₁ => .bind fun i _ =>
    .bind fun c₂ h₂ => ?_
  obtain ⟨hta, hidx⟩ := access_probed_dirtyExact hp hfail h ha
  have hmarked : c₁.tagArray.DirtyExact := markModified_dirtyExact hta _ hidx c₁ h₁
  -- the flags of a sector do not count
  have hread : ∀ (b : CacheBlock cfg.cacheType) (readable : Bool),
      (b.setMReadable readable i).isModifiedLine = b.isModifiedLine :=
    fun b readable => CacheBlock.isModifiedLine_modifySector fun _ => rfl
  have hready : ∀ b : CacheBlock cfg.cacheType,
      (b.setReadableOnFill true i).isModifiedLine = b.isModifiedLine :=
    fun b => CacheBlock.isModifiedLine_modifySector fun _ => rfl
  have hfill : ∀ b : CacheBlock cfg.cacheType,
      (((b.setIgnoreOnFill true i).setModifiedOnFill true i).putByteMaskOnFill
        true).isModifiedLine =
        b.isModifiedLine := by
    intro b
    calc _ = (b.setIgnoreOnFill true i).isModifiedLine := CacheBlock.isModifiedLine_writtenOnFill i
      _ = b.isModifiedLine := CacheBlock.isModifiedLine_modifySector fun _ => rfl
  have hwritten : c₂.tagArray.DirtyExact := by
    refine updateMReadable_dirtyExact (setBlock_dirtyExact hmarked _ ?_) _ _ c₂ h₂
    split_ifs
    · rw [hread, hfill]
    · rw [hread]
    · rw [hready, hread, hfill]
    · rw [hread]
  exact .ite (fun _ => .ok (sendWriteback_dirtyExact hwritten types _ _ _ _)) fun _ => .ok hwritten

theorem wrMiss_dirtyExact (types : DataCacheTypes) (idx : ℕ) (time : Time)
    (events : List CacheEvent) (status : CacheRequestStatus) :
    CountsDirty (c.wrMiss types addr idx mf time events status) := by
  unfold wrMiss
  split
  · exact .ite (fun _ => .ok h) fun _ => .ok h
  · exact wrMissWaNaive_dirtyExact h types idx time events status
  · exact .ite (fun _ => wrMissWaFetchOnWriteFull_dirtyExact hp hfail h types idx time events)
      fun _ => wrMissWaFetchOnWritePartial_dirtyExact h types idx time events
  · exact wrMissWaLazyFetchOnRead_dirtyExact hp hfail h types idx time events

end Handlers

/-! ### The methods -/

/-- A write hit evicts the last `MODIFIED` sector of its line. -/
def evictsLastModified (c : Cache cfg) (m : MemFetch) : Bool :=
  match c.tagArray.probe (cfg.blockAddr m.addr) noIndex m.accessSectorMask m.isWrite with
  | .error _ => false
  | .ok p =>
      decide (m.isWrite = true ∧ p.status = .hit ∧ evictsOnWriteHit cfg m) &&
        !c.missQueueFull 0 && !c.hitResponseQueueFull && (c.getBlock p.idx).isModifiedLine &&
        !((c.getBlock p.idx).setStatus .invalid
          (cfg.sectorIndex m.accessSectorMask)).isModifiedLine

theorem evictsLastModified_failReason (c : Cache cfg) (m : MemFetch)
    (reason : CacheReservationFailReason) :
    ({ c with tagArray := { c.tagArray with lastFailReason := reason } } :
      Cache cfg).evictsLastModified m = c.evictsLastModified m := by
  have hprobe : ({ c.tagArray with lastFailReason := reason } : TagArray cfg).probe
      (cfg.blockAddr m.addr) noIndex m.accessSectorMask m.isWrite =
        c.tagArray.probe (cfg.blockAddr m.addr) noIndex m.accessSectorMask m.isWrite := by
    refine TagArray.probe_congr ?_ ?_ _ _ _ _ <;> rfl
  unfold evictsLastModified
  dsimp only
  rw [hprobe]
  rfl

section Access

variable {addr : NewAddrType} {mf : Token} {p : ProbeResult} (h : c.tagArray.DirtyExact)
  (hp : c.Probes addr (c.mfs mf) p)

include h hp

theorem callHandler_dirtyExact
    (hkeep : (c.mfs mf).isWrite = true → p.status = .hit → evictsOnWriteHit cfg (c.mfs mf) →
      c.missQueueFull 0 = false → (c.getBlock p.idx).isModifiedLine = true →
      ((c.getBlock p.idx).setStatus .invalid
        (cfg.sectorIndex (c.mfs mf).accessSectorMask)).isModifiedLine = true)
    (types : DataCacheTypes) (time : Time) (events : List CacheEvent) :
    CountsDirty (c.callHandler types (c.mfs mf).isWrite p.status addr p.idx mf time events) := by
  refine .ite (fun hw => .ite (fun hhit => ?_) fun _ => .ite (fun hor => ?_) fun _ => .ok h)
    fun _ => .ite (fun _ => .bind fun r hr => .ok ?_) fun _ =>
      .ite (fun _ => rdMissBase_dirtyExact h types p.idx time events) fun _ => .ok h
  · exact wrHit_dirtyExact hp (by simp [hhit]) h (hkeep hw hhit) time events
  · by_cases hfail : p.status = .reservationFail
    · rw [wrMiss, hor.resolve_left (not_not_intro hfail)]
      exact .ite (fun _ => .ok h) fun _ => .ok h
    · exact wrMiss_dirtyExact hp hfail h types p.idx time events p.status
  · exact h.access (TagArray.accessNoWriteback_eq_ok hr)

theorem processTagProbe_dirtyExact
    (hkeep : c.evictsLastModified (c.mfs mf) = false) (haddr : addr = (c.mfs mf).addr)
    (types : DataCacheTypes) (time : Time) (events : List CacheEvent) :
    CountsDirty
    (c.processTagProbe types (c.mfs mf).isWrite p.status addr p.idx mf time events) := by
  have hport : ∀ (c₀ : Cache cfg) (m : MemFetch) (outcome : CacheRequestStatus)
      (events : List CacheEvent), c₀.tagArray.DirtyExact →
      Ensures (fun c' => c'.tagArray.DirtyExact) (c₀.useDataPort m outcome events) := by
    intro c₀ m outcome events h₀
    unfold useDataPort
    dsimp only
    split
    · exact .ok h₀
    · split <;> exact .ok h₀
    · split <;> exact .ok h₀
    · exact .ok h₀
    · exact .ok h₀
    · exact .error _
  refine .ite (fun _ => .bind fun c₁ hc₁ => .ok (hport _ _ _ _ (by exact h) c₁ hc₁)) fun hroom =>
    .bind fun r hr => .bind fun c₂ hc₂ => .ok (hport _ _ _ _ ?_ c₂ hc₂)
  have hcall : r.1.tagArray.DirtyExact := by
    refine callHandler_dirtyExact h hp (fun hw hhit hpolicy hqueue hold => ?_)
      types time events r hr
    rw [haddr] at hp
    have hresponse : c.hitResponseQueueFull = false := by
      by_contra hfull
      rw [Bool.not_eq_false] at hfull
      refine hroom ⟨hhit, ?_, hfull⟩
      rw [hitResponseQueueFull, Bool.and_eq_true] at hfull
      exact hfull.1
    rw [evictsLastModified, show c.tagArray.probe _ _ _ _ = _ from hp] at hkeep
    simpa [hw, hhit, hpolicy, hqueue, hresponse, hold] using hkeep
  split
  · exact pinResponse_dirtyExact hcall mf p.idx
  · exact hcall

omit hp in
theorem readOnlyTagProbe_dirtyExact (time : Time) (events : List CacheEvent) :
    CountsDirty (c.readOnlyTagProbe p addr mf time events) := by
  refine .ite (fun _ => .ite (fun _ => .ok h) fun _ => .bind fun r hr => ?_)
    fun _ => .ite (fun _ => .ite (fun _ => .ok h) fun _ => .bind fun r hr => .ok ?_)
      fun _ => .ok h
  · have hta := h.access (TagArray.accessNoWriteback_eq_ok hr)
    exact .ite (fun _ => .ok (pinResponse_dirtyExact hta mf r.2.idx)) fun _ => .ok hta
  · exact sendReadRequest_dirtyExact h _ _ _ _ _ _ _ r hr

end Access

/-- **An access keeps the dirty count right**, unless it evicts the last `MODIFIED` sector of a
line. -/
theorem access_dirtyExact {mf : Token} (h : c.tagArray.DirtyExact)
    (hkeep : c.evictsLastModified (c.mfs mf) = false) (cls : CacheClass) (time : Time)
    (events : List CacheEvent) :
    CountsDirty (c.access cls (c.mfs mf).addr mf time events) := by
  cases cls with
  | readOnlyCache =>
      refine .bind fun _ _ => .bind fun _ _ => .bind fun _ _ => .bind fun r hr =>
        .bind fun r' hr' =>
        .ok ?_
      obtain ⟨c₁, p⟩ := r
      obtain ⟨rfl, hp⟩ := probeTags_eq_ok hr
      exact readOnlyTagProbe_dirtyExact (by exact h) time events r' hr'
  | dataCache types =>
      refine .bind fun _ _ => .bind fun _ _ => .bind fun r hr => .bind fun r' hr' => .ok ?_
      obtain ⟨c₁, p⟩ := r
      obtain ⟨rfl, hp⟩ := probeTags_eq_ok hr
      exact processTagProbe_dirtyExact (by exact h) hp
        ((evictsLastModified_failReason c _ _).trans hkeep) rfl types time events r' hr'

/-- The complete response to a request cleans the last `MODIFIED` sector of the line that it
fills. -/
def completionCleansLine (c : Cache cfg) (mf : Token) (time : Time) : Bool :=
  match c.extraMfFields.lookup mf with
  | none => false
  | some e =>
      let m := c.mfs mf
      let i := cfg.sectorIndex m.accessSectorMask
      match cfg.allocPolicy with
      | .onMiss => TagArray.cleansLine (c.getBlock e.cacheIndex) i m.accessByteMask
      | .onFill =>
          match c.tagArray.probe e.blockAddr 0 m.accessSectorMask m.isWrite with
          | .error _ => false
          | .ok p =>
              p.status ≠ .reservationFail && TagArray.cleansLine
                (TagArray.fillTarget cfg e.blockAddr time i p.status (c.getBlock p.idx)) i
                m.accessByteMask
      | .streaming => false

/-- A fill cleans the last `MODIFIED` sector of the line that it fills.  In a `SECTOR_ASSOC` cache
only the last child of a request fills a line. -/
def fillCleansLine (c : Cache cfg) (mf : Token) (time : Time) : Bool :=
  if cfg.mshrType = .sectorAssoc then
    match (c.mfs mf).originalMf with
    | none => false
    | some original =>
        match c.extraMfFields.lookup original with
        | none => false
        | some e => (e.pendingRead - 1).toNat = 0 && c.completionCleansLine original time
  else c.completionCleansLine mf time

/-- The line of every fetch that is remembered is a line of the cache. -/
def LinesInRange (c : Cache cfg) : Prop :=
  ∀ t e, c.extraMfFields.lookup t = some e → e.cacheIndex < cfg.getNumLines

theorem fillComplete_dirtyExact {mf : Token} {time : Time} (h : c.tagArray.DirtyExact)
    (hrange : c.LinesInRange) (hclean : c.completionCleansLine mf time = false) :
    Ensures (fun c' => c'.tagArray.DirtyExact) (c.fillComplete mf time) := by
  unfold fillComplete
  unfold completionCleansLine at hclean
  split
  · exact .error _
  · next e he =>
      rw [he] at hclean
      dsimp only at hclean
      refine .bind fun _ _ => ?_
      dsimp only
      rw [Function.update_self]
      split
      · next hpolicy =>
          rw [hpolicy] at hclean
          refine .bind fun ta hta => .bind fun _ _ => .ok ?_
          obtain ⟨_, -, hta⟩ := bind_eq_ok.1 hta
          obtain ⟨i, hi, hta⟩ := bind_eq_ok.1 hta
          cases hta
          rw [CacheConfig.sectorIndex_eq hi] at hclean
          exact h.fillLine (hrange mf e he) hclean
      · next hpolicy =>
          rw [hpolicy] at hclean
          refine .bind fun ta hta => .bind fun _ _ => .ok (h.fillAddr (fun p hp hfail => ?_) hta)
          rw [hp] at hclean
          simpa [hfail, getBlock] using hclean
      · exact .bind fun _ hta => by cases hta

/-- **A fill keeps the dirty count right**, unless it cleans the last `MODIFIED` sector of the line
that it fills. -/
theorem fill_dirtyExact {mf : Token} {time : Time} (h : c.tagArray.DirtyExact)
    (hrange : c.LinesInRange) (hclean : c.fillCleansLine mf time = false) :
    Ensures (fun c' => c'.tagArray.DirtyExact) (c.fill mf time) := by
  unfold fill
  unfold fillCleansLine at hclean
  split
  · next hassoc =>
      rw [if_pos hassoc] at hclean
      split
      · exact .error _
      · next original horiginal =>
          rw [horiginal] at hclean
          dsimp only at hclean
          split
          · exact .error _
          · next e he =>
              rw [he] at hclean
              refine .ite (fun _ => .ok h) fun hlast => ?_
              have hzero : (e.pendingRead - 1).toNat = 0 := Nat.eq_zero_of_not_pos hlast
              dsimp only at hclean
              rw [hzero, decide_eq_true rfl, Bool.true_and] at hclean
              refine fillComplete_dirtyExact (by exact h) (fun t e' he' => ?_) ?_
              · by_cases ht : t = original
                · subst ht
                  obtain rfl := Option.some_inj.1 ((AList.lookup_insert _).symm.trans he')
                  exact hrange t e he
                · exact hrange t e' ((AList.lookup_insert_ne ht).symm.trans he')
              · unfold completionCleansLine at hclean ⊢
                rw [he] at hclean
                rw [AList.lookup_insert]
                exact hclean
  · next hassoc =>
      rw [if_neg hassoc] at hclean
      exact fillComplete_dirtyExact h hrange hclean

theorem nextAccess_dirtyExact (h : c.tagArray.DirtyExact) :
    Ensures (fun r => r.1.tagArray.DirtyExact) c.nextAccess := by
  have hunpin : ∀ (c₀ : Cache cfg) (mf : Token), c₀.tagArray.DirtyExact →
      Ensures (fun c' => c'.tagArray.DirtyExact) (c₀.unpinResponse mf) := by
    intro c₀ mf h₀
    unfold unpinResponse
    split
    · exact .ok h₀
    · next idx _ =>
        refine .bind fun b hb => .ok ?_
        obtain ⟨_, -, hb⟩ := bind_eq_ok.1 hb
        cases hb
        exact setBlock_dirtyExact h₀ idx (CacheBlock.isModifiedLine_congr fun _ => rfl)
  refine .bind fun _ _ => ?_
  split
  · exact .bind fun c₁ hc₁ => .ok (hunpin _ _ (by exact h) c₁ hc₁)
  · exact .bind fun _ _ => .bind fun c₁ hc₁ => .ok (hunpin _ _ (by exact h) c₁ hc₁)

theorem cycle_dirtyExact (h : c.tagArray.DirtyExact) (memportFull : Bool) :
    Ensures (fun r => r.1.tagArray.DirtyExact) (c.cycle memportFull) := by
  refine .bind fun _ _ => .ok ?_
  dsimp only [replenishPortBandwidth]
  split
  · split <;> exact h
  · exact h

end Cache

/-! ### Runs -/

namespace System

variable {cls : CacheClass} {sys sys' : System cfg} {o : Op} {b : Obs}

/-- A call cleans the last `MODIFIED` sector of a line without discounting the line: a write hit
evicts the sector, or a fill turns it into a `VALID` one. -/
def forgetsLine (sys : System cfg) : Op → Bool
  | .access n m _ _ => (sys.build n m).evictsLastModified m
  | .fill mf time => sys.cache.fillCleansLine mf time
  | .fillChild n m time => (sys.build n m).fillCleansLine (.caller n) time
  | _ => false

/-- The lines of the fetches stay in range. -/
theorem linesInRange_step (h : sys.cache.LinesInRange) (hsuits : Suits cfg o)
    (hstep : sys.perform cls o = .ok (sys', b)) : sys'.cache.LinesInRange := by
  intro t e he
  rcases (step_cases hsuits hstep).fetch_origin he with ⟨e₀, he₀, hindex, -, -⟩ |
    ⟨n, m, time, events, p, -, hp, hstatus, hindex, -⟩
  · rw [hindex]
    exact h t e₀ he₀
  · rw [hindex]
    refine TagArray.idx_lt_of_probe hp fun hfail => ?_
    rw [hfail] at hstatus
    rcases hstatus with hs | hs | hs <;> cases hs

/-- **A call keeps the dirty count right**, unless it forgets to discount a line. -/
theorem dirtyExact_step (h : sys.cache.tagArray.DirtyExact) (hrange : sys.cache.LinesInRange)
    (hforgets : sys.forgetsLine o = false) (hstep : sys.perform cls o = .ok (sys', b)) :
    sys'.cache.tagArray.DirtyExact := by
  cases o with
  | access n m time events =>
      obtain ⟨r, hr, hstep⟩ := bind_eq_ok.1 hstep
      cases hstep
      have hm : (sys.build n m).mfs (.caller n) = m := by simp [build]
      refine @Cache.access_dirtyExact _ (sys.build n m) (.caller n) h ?_ cls time events r ?_
      · rw [hm]
        exact hforgets
      · rw [hm]
        exact hr
  | cycle memportFull =>
      obtain ⟨r, hr, hstep⟩ := bind_eq_ok.1 hstep
      cases hstep
      exact Cache.cycle_dirtyExact h memportFull r hr
  | fill mf time =>
      obtain ⟨c, hc, hstep⟩ := bind_eq_ok.1 hstep
      cases hstep
      exact Cache.fill_dirtyExact h hrange hforgets c hc
  | fillChild n m time =>
      obtain ⟨c, hc, hstep⟩ := bind_eq_ok.1 hstep
      have hfilled := @Cache.fill_dirtyExact _ (sys.build n m) _ time h hrange hforgets c hc
      split at hstep
      · cases hstep
      · cases hstep
        exact hfilled
  | nextAccess =>
      obtain ⟨r, hr, hstep⟩ := bind_eq_ok.1 hstep
      cases hstep
      exact Cache.nextAccess_dirtyExact h r hr
  | flush =>
      cases hstep
      exact h.flush
  | invalidate =>
      cases hstep
      exact TagArray.dirtyExact_invalidate _
  | retire mf =>
      cases hstep
      exact h

/-- The environment keeps its promise, and no call forgets to discount a line. -/
def DiscountPromise (sys : System cfg) (o : Op) : Prop :=
  sys.Promise o ∧ sys.forgetsLine o = false

instance (sys : System cfg) (o : Op) : Decidable (sys.DiscountPromise o) := by
  unfold DiscountPromise
  infer_instance

end System

instance (ta : TagArray cfg) : Decidable ta.DirtyExact := by
  unfold TagArray.DirtyExact
  infer_instance

/-- **The dirty count is the number of lines with a `MODIFIED` sector** in every state of a run
whose calls do not forget a line. -/
theorem dirty_count_exact {cls : CacheClass} {mfs : Token → MemFetch} {trace : List Obs}
    {sys : System cfg}
    (h : System.Run cls System.DiscountPromise (System.init cfg mfs) trace sys) :
    sys.cache.tagArray.DirtyExact ∧ (cfg.getNumLines < 2 ^ 32 → sys.cache.tagArray.dirty.toNat =
      census CacheBlock.isModifiedLine cfg.getNumLines sys.cache.tagArray.lines) := by
  obtain ⟨hexact, -⟩ : sys.cache.tagArray.DirtyExact ∧ sys.cache.LinesInRange := by
    refine Runs.Run.state_invariant
      (fun s : System cfg => s.cache.tagArray.DirtyExact ∧ s.cache.LinesInRange) ⟨?_, ?_⟩ ?_ h
    · refine (congrArg (BitVec.ofNat 32) (census_eq_zero fun i _ => ?_)).symm
      exact CacheBlock.isModifiedLine_init
    · intro t e he
      cases he
    · intro s o s' b hs hpromise hstep
      exact ⟨System.dirtyExact_step hs.1 hs.2 hpromise.2 hstep,
        System.linesInRange_step hs.2 hpromise.1.suits hstep⟩
  refine ⟨hexact, fun hlines => ?_⟩
  rw [hexact, BitVec.toNat_ofNat]
  exact Nat.mod_eq_of_lt ((census_le _).trans_lt hlines)

/-- A full write of a sector makes its line dirty, and is counted. -/
theorem dirty_count_exact_after_write :
    ∃ trace sys, System.Run (.dataCache .l1) System.DiscountPromise
      (System.init (CacheConfig.small 'S' 'B' 'm' 'F' 2 true) fun _ => MemFetch.load 0) trace sys ∧
      sys.cache.tagArray.dirty = 1 ∧ sys.cache.tagArray.DirtyExact := by
  obtain ⟨trace, sys, hrun, hdirty⟩ :
      ∃ trace sys, System.Run (.dataCache .l1) System.DiscountPromise
        (System.init (CacheConfig.small 'S' 'B' 'm' 'F' 2 true) fun _ => MemFetch.load 0)
          trace sys ∧
        sys.cache.tagArray.dirty = 1 :=
    Runs.exists_run_of_exec [.access 0 (MemFetch.store 0 (sectorBytes 0)) 0 []] (by decide)
  exact ⟨trace, sys, hrun, hdirty, (dirty_count_exact hrun).1⟩

/-- A write hit that evicts the line forgets to discount it, and so does a fill of a sector that a
full write has made `MODIFIED` while it was reserved. -/
theorem dirty_count_drifts :
    (CacheConfig.small 'S' 'E' 'm' 'F' 2 true).Accepted ∧
      (CacheConfig.small 'S' 'B' 'm' 'F' 2 true).Accepted ∧
      (∃ trace sys, System.Run (.dataCache .l1) System.Promise
        (System.init (CacheConfig.small 'S' 'E' 'm' 'F' 2 true) fun _ => MemFetch.load 0)
        trace sys ∧
        ¬sys.cache.tagArray.DirtyExact) ∧
      ∃ trace sys, System.Run (.dataCache .l1) System.Promise
        (System.init (CacheConfig.small 'S' 'B' 'm' 'F' 2 true) fun _ => MemFetch.load 0)
        trace sys ∧
        ¬sys.cache.tagArray.DirtyExact :=
  ⟨CacheConfig.small_accepted (by decide) true, CacheConfig.small_accepted (by decide) true,
    Runs.exists_run_of_exec [.access 0 (MemFetch.store 0 (sectorBytes 0)) 0 [],
      .access 1 (MemFetch.store 0 (sectorBytes 0)) 1 []] (by decide),
    Runs.exists_run_of_exec [.access 0 (MemFetch.load 0) 0 [],
      .access 1 (MemFetch.store 0 (sectorBytes 0)) 1 [], .cycle false,
      .fill (.caller 0) 2] (by decide)⟩

end OpenCache
