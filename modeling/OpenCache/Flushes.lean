/-
What a flush leaves behind.

`flush` returns at once unless `is_used` is set, and only an access sets it.  A fill dirties a line
without setting it: when a write has joined an outstanding fetch and left its bytes to the fill, a
flush between the two finds nothing to clean, clears the mark, and after the fill the next flush
does nothing although a line is modified.

* `OpenCache.TagArray.Flushed` — the postcondition of a flush;
* `OpenCache.TagArray.Flushable` — the mark is set, or there is nothing to flush;
* `OpenCache.System.StepCase.out_of_range` — a step leaves the lines beyond the associativity;
* `OpenCache.System.dirtiesUnmarked` — a fill dirties a line while the mark is clear;
* `OpenCache.flush_cleans` — **a flush keeps its postcondition exactly in the flushable states, and
  every state of a run without such a fill is flushable**;
* `OpenCache.flush_skips_modified_line` — a run with such a fill.
-/

import OpenCache.DirtyLines
import OpenCache.Residence

set_option relaxedAutoImplicit false
set_option autoImplicit false

namespace OpenCache

variable {cfg : CacheConfig}

namespace TagArray

/-- The postcondition of a flush: no line has a `MODIFIED` sector, the dirty count is 0, and the
lines that had no such sector are unchanged. -/
structure Flushed (ta ta' : TagArray cfg) : Prop where
  clean : ∀ idx, (ta'.lines idx).isModifiedLine = false
  dirty : ta'.dirty = 0
  others : ∀ idx, (ta.lines idx).isModifiedLine = false → ta'.lines idx = ta.lines idx

/-- No line is modified, and none is counted. -/
structure NothingDirty (ta : TagArray cfg) : Prop where
  lines : ∀ idx, (ta.lines idx).isModifiedLine = false
  dirty : ta.dirty = 0

/-- The tag array has been used since it was last cleaned, or there is nothing to clean. -/
def Flushable (ta : TagArray cfg) : Prop := ta.isUsed = true ∨ ta.NothingDirty

/-- The lines beyond the current associativity are not modified. -/
def OutOfRangeClean (lines : ℕ → CacheBlock cfg.cacheType) : Prop :=
  ∀ idx, cfg.getNumLines ≤ idx → (lines idx).isModifiedLine = false

/-- A flush of a tag array that has been used cleans every line. -/
theorem nothingDirty_flush {ta : TagArray cfg} (hrange : OutOfRangeClean ta.lines)
    (hused : ta.isUsed = true) : ta.flush.NothingDirty := by
  rw [flush, if_pos hused]
  refine ⟨fun idx => ?_, rfl⟩
  dsimp only
  by_cases hidx : idx < cfg.getNumLines ∧ (ta.lines idx).isModifiedLine = true
  · rw [if_pos hidx]
    exact isModifiedLine_invalidateLine _
  · rw [if_neg hidx]
    by_cases hlt : idx < cfg.getNumLines
    · exact Bool.eq_false_iff.2 fun hm => hidx ⟨hlt, hm⟩
    · exact hrange idx (Nat.le_of_not_lt hlt)

/-- An invalidation cleans every line, used or not. -/
theorem nothingDirty_invalidate {ta : TagArray cfg} (hrange : OutOfRangeClean ta.lines) :
    ta.invalidate.NothingDirty := by
  refine ⟨fun idx => ?_, rfl⟩
  simp only [invalidate]
  by_cases hlt : idx < cfg.getNumLines
  · rw [if_pos hlt]
    exact isModifiedLine_invalidateLine _
  · rw [if_neg hlt]
    exact hrange idx (Nat.le_of_not_lt hlt)

/-- **A flush keeps its postcondition exactly in the flushable states.** -/
theorem flushed_iff {ta : TagArray cfg} (hrange : OutOfRangeClean ta.lines) :
    Flushed ta ta.flush ↔ ta.Flushable := by
  by_cases hused : ta.isUsed = true
  · refine iff_of_true ?_ (Or.inl hused)
    have hclean := nothingDirty_flush hrange hused
    refine ⟨hclean.lines, hclean.dirty, fun idx hidx => ?_⟩
    rw [flush, if_pos hused]
    exact if_neg fun h => absurd h.2 (by rw [hidx]; exact Bool.false_ne_true)
  · -- the flush returns at once
    have hskip : ta.flush = ta := if_neg hused
    rw [hskip]
    constructor
    · intro h
      exact Or.inr ⟨h.clean, h.dirty⟩
    · intro h
      have hclean := h.resolve_left hused
      exact ⟨hclean.lines, hclean.dirty, fun _ _ => rfl⟩

theorem Flushable.flush {ta : TagArray cfg} (h : ta.Flushable) (hrange : OutOfRangeClean ta.lines) :
    ta.flush.Flushable := by
  have hflushed := (flushed_iff hrange).2 h
  exact Or.inr ⟨hflushed.clean, hflushed.dirty⟩

/-- A line that is clean before and after a change leaves the tag array flushable. -/
theorem Flushable.of_lines {ta ta' : TagArray cfg} (h : ta.Flushable)
    (hlines : ∀ idx, (ta'.lines idx).isModifiedLine = true → (ta.lines idx).isModifiedLine = true)
    (hdirty : ta'.dirty = ta.dirty) (hused : ta'.isUsed = ta.isUsed) : ta'.Flushable := by
  rcases h with h | h
  · exact Or.inl (hused.trans h)
  · refine Or.inr ⟨fun idx => ?_, hdirty.trans h.dirty⟩
    by_contra hm
    have hold := hlines idx (by simpa using hm)
    rw [h.lines idx] at hold
    cases hold

end TagArray

/-! ### Lines beyond the associativity -/

namespace System

variable {cls : CacheClass} {sys sys' : System cfg} {o : Op} {b : Obs}

/-- **A step leaves the lines beyond the associativity.** -/
theorem StepCase.out_of_range (hcase : StepCase cls sys sys' o b)
    (hrange : sys.cache.LinesInRange) {idx : ℕ} (hidx : cfg.getNumLines ≤ idx) :
    (sys'.core.lines idx).isModifiedLine = (sys.core.lines idx).isModifiedLine := by
  have hunpin : ∀ {s₁ : Core cfg} {mf : Token}, s₁.lines = sys.core.lines →
      sys'.core = s₁.unpin mf →
      (sys'.core.lines idx).isModifiedLine = (sys.core.lines idx).isModifiedLine := by
    rintro s₁ mf hlines hcore
    refine CacheBlock.isModifiedLine_congr fun j => ?_
    rw [hcore, CacheBlock.getStatus, CacheBlock.sectorAt, (Resident.unpin_line s₁ mf idx).2, hlines]
    rfl
  -- the line of an answer of the tags lies within the associativity
  have hupdate : ∀ {i : ℕ} {line : CacheBlock cfg.cacheType}, i < cfg.getNumLines →
      Function.update sys.core.lines i line idx = sys.core.lines idx :=
    fun hi => Function.update_of_ne (by omega) _ _
  cases hcase with
  | access n m time events status hcase =>
      rcases hcase.line_after with ⟨hlines, -⟩ | ⟨p, line, hp, hline, hlines⟩
      · rw [hlines]
        rfl
      · have hlt : p.idx < cfg.getNumLines := TagArray.idx_lt_of_probe hp fun hfail => by
          rcases hline.answered with hs | hs | hs | hs <;> rw [hfail] at hs <;> cases hs
        rcases hlines with hlines | hlines
        · rw [hlines]
          exact congrArg _ (hupdate hlt)
        · rw [hlines]
          exact congrArg _ (hupdate hlt)
  | tick _ _ _ _ hcore =>
      rw [hcore]
      rfl
  | push _ _ _ _ _ _ _ hcore =>
      rw [hcore]
      rfl
  | wait _ _ _ _ _ _ _ _ hcore =>
      rw [hcore]
      rfl
  | complete o c mf time horigin e he _ lines hfill hcore =>
      have hc : c.tagArray.lines = sys.core.lines := by
        rcases horigin with ⟨-, rfl⟩ | ⟨_, _, -, -, rfl⟩ <;> rfl
      rw [hcore]
      change (lines idx).isModifiedLine = _
      cases hfill with
      | onMiss =>
          rw [hc]
          exact congrArg _ (hupdate (hrange mf e he))
      | onFill _ ta hta =>
          obtain ⟨p, hp, ⟨-, hlines⟩ | ⟨hfail, -, hlines⟩⟩ := TagArray.fillAddr_eq_ok hta
          · rw [hlines, hc]
          · rw [hlines, hc]
            exact congrArg _ (hupdate (TagArray.idx_lt_of_probe hp hfail))
  | ready _ _ _ _ hcore =>
      refine hunpin ?_ hcore
      rfl
  | deliver _ _ _ _ _ _ _ _ hcore =>
      refine hunpin ?_ hcore
      rw [Core.deliver]
      split <;> rfl
  | flush hcore =>
      rw [hcore]
      simp only [Cache.core, Cache.flush, TagArray.flush]
      split
      · dsimp only
        rw [if_neg (by omega)]
        rfl
      · rfl
  | invalidate hcore =>
      rw [hcore]
      simp only [Cache.core, Cache.invalidate, TagArray.invalidate]
      rw [if_neg (by omega)]
      rfl
  | retire _ hcore => rw [hcore]

/-- The lines of the fetches lie in range, and the lines out of range are clean. -/
def InRange (sys : System cfg) : Prop :=
  sys.cache.LinesInRange ∧ TagArray.OutOfRangeClean sys.core.lines

theorem InRange.init (mfs : Token → MemFetch) : (System.init cfg mfs).InRange := by
  refine ⟨fun t e he => ?_, fun _ _ => CacheBlock.isModifiedLine_init⟩
  cases he

theorem InRange.step (h : sys.InRange) (hsuits : Suits cfg o)
    (hstep : sys.perform cls o = .ok (sys', b)) : sys'.InRange := by
  refine ⟨linesInRange_step h.1 hsuits hstep, fun idx hidx => ?_⟩
  rw [(step_cases hsuits hstep).out_of_range h.1 hidx]
  exact h.2 idx hidx

/-- The lines stay in range in every run. -/
theorem inRange_of_run {mfs : Token → MemFetch} {trace : List Obs}
    (hrun : Run cls Promise (System.init cfg mfs) trace sys) : sys.InRange :=
  hrun.state_invariant InRange (InRange.init mfs)
    fun _ _ _ _ h hpromise hstep => h.step hpromise.suits hstep

end System

/-! ### An access keeps a tag array flushable -/

namespace Cache

open Raises

/-- The results of a step whose tag array is flushable. -/
abbrev KeepsFlushable (x : Step (Handled cfg)) : Prop := Ensures (fun r => r.1.tagArray.Flushable) x

variable {c c' : Cache cfg} {m : MemFetch} {idx : ℕ}

theorem WritesLines.isUsed (h : c.WritesLines c') :
    c'.tagArray.isUsed = c.tagArray.isUsed := by
  obtain ⟨_, _, rfl⟩ := h
  rfl

theorem sendWriteback_tagArray (c : Cache cfg) (types : DataCacheTypes) (m : MemFetch)
    (evicted : Option EvictedBlockInfo) (request : EvictedBlockInfo → CacheEvent)
    (events : List CacheEvent) :
    (c.sendWriteback types m evicted request events).1.tagArray = c.tagArray := by
  unfold sendWriteback
  cases evicted with
  | none => rfl
  | some e =>
      simp only
      split <;> rfl

theorem sendWriteback_flushable (h : c.tagArray.Flushable) (types : DataCacheTypes) (m : MemFetch)
    (evicted : Option EvictedBlockInfo) (request : EvictedBlockInfo → CacheEvent)
    (events : List CacheEvent) :
    (c.sendWriteback types m evicted request events).1.tagArray.Flushable := by
  rw [sendWriteback_tagArray]
  exact h

/-- The writes into a line come after an access to the tags. -/
theorem writeLine_isUsed {addr : NewAddrType} {time : Time} {mf : MemFetch} {ta : TagArray cfg}
    {r : AccessResult} (ha : c.tagArray.access addr time idx mf = .ok (ta, r)) {c₁ c₂ : Cache cfg}
    {i : ℕ} (h₁ : ({ c with tagArray := ta } : Cache cfg).markModified m i = .ok c₁)
    (h₂ : c₁.updateMReadable m i = .ok c₂) : c₂.tagArray.isUsed = true := by
  rw [(updateMReadable_writesLines h₂).isUsed, (markModified_writesLines h₁).isUsed]
  exact TagArray.access_isUsed ha

/-- The read miss handler uses the tags when it accepts a request, and leaves them otherwise. -/
theorem sendReadRequest_marks (c : Cache cfg) (blockAddr : NewAddrType) (idx : ℕ)
    (mf : Token) (time : Time) (events : List CacheEvent) (readOnly wa : Bool) :
    Ensures (fun r => r.1.tagArray.isUsed = true ∨ r.1.tagArray = c.tagArray)
      (c.sendReadRequest blockAddr idx mf time events readOnly wa) := by
  have haccept : ∀ r, c.acceptMiss blockAddr (cfg.mshrAddr (c.mfs mf).addr) idx mf time readOnly =
      .ok r → r.1.tagArray.isUsed = true := by
    intro r hr
    obtain ⟨⟨ta, r'⟩, ha, hr⟩ := bind_eq_ok.1 hr
    obtain ⟨mshrs, -, hr⟩ := bind_eq_ok.1 hr
    have hused : ta.isUsed = true := by
      unfold accessTags at ha
      split at ha
      · exact TagArray.access_isUsed (TagArray.accessNoWriteback_eq_ok ha)
      · exact TagArray.access_isUsed ha
    cases hr
    dsimp only
    split
    · exact hused
    · exact hused
  unfold sendReadRequest
  dsimp only
  exact .ite (fun _ => .bind fun r hr => .ok (Or.inl (haccept r hr))) fun _ =>
    .ite (fun _ => .bind fun r hr => .ok (Or.inl (haccept r hr))) fun _ =>
      .ite (fun _ => .ok (Or.inr rfl)) fun _ => .ite (fun _ => .ok (Or.inr rfl)) fun _ => .error _

theorem sendReadRequest_flushable (h : c.tagArray.Flushable) (blockAddr : NewAddrType) (idx : ℕ)
    (mf : Token) (time : Time) (events : List CacheEvent) (readOnly wa : Bool) :
    Ensures (fun r => r.1.tagArray.Flushable)
      (c.sendReadRequest blockAddr idx mf time events readOnly wa) := by
  intro r hr
  rcases sendReadRequest_marks c blockAddr idx mf time events readOnly wa r hr with hused | hsame
  · exact Or.inl hused
  · rw [hsame]
    exact h

section Handlers

variable {addr : NewAddrType} {mf : Token} (h : c.tagArray.Flushable)

include h

omit h in
theorem wrHitWb_flushable (c : Cache cfg) (idx : ℕ) (time : Time) (events : List CacheEvent) :
    KeepsFlushable (c.wrHitWb addr idx mf time events) :=
  .bind fun _ hr => .bind fun _ h₁ => .bind fun _ h₂ =>
    .ok (Or.inl (writeLine_isUsed (TagArray.accessNoWriteback_eq_ok hr) h₁ h₂))

theorem wrHitWt_flushable (idx : ℕ) (time : Time) (events : List CacheEvent) :
    KeepsFlushable (c.wrHitWt addr idx mf time events) := by
  refine .ite (fun _ => .ok h) fun _ => .bind fun _ hr => .bind fun _ h₁ => .bind fun c₂ h₂ => ?_
  have hused : c₂.tagArray.isUsed = true :=
    writeLine_isUsed (TagArray.accessNoWriteback_eq_ok hr) h₁ h₂
  exact .ok (Or.inl hused)

/-- A write hit that evicts does not use the tags, and makes no line modified. -/
theorem wrHitWe_flushable (idx : ℕ) (events : List CacheEvent) :
    KeepsFlushable (c.wrHitWe idx mf events) := by
  refine .ite (fun _ => .ok h) fun _ => .bind fun i _ => .ok ?_
  refine h.of_lines (fun j hj => ?_) rfl rfl
  by_cases hidx : j = idx
  · subst hidx
    simp only [setBlock, TagArray.setLine, Function.update_self] at hj
    obtain ⟨k, hk⟩ := (CacheBlock.isModifiedLine_iff _).1 hj
    rw [CacheBlock.getStatus_setStatus] at hk
    split at hk
    · cases hk
    · exact (CacheBlock.isModifiedLine_iff _).2 ⟨k, hk⟩
  · simp only [setBlock, TagArray.setLine, Function.update_of_ne hidx] at hj
    exact hj

theorem wrHit_flushable (idx : ℕ) (time : Time) (events : List CacheEvent) :
    KeepsFlushable (c.wrHit addr idx mf time events) := by
  unfold wrHit
  cases cfg.writePolicy with
  | readOnly => exact .error _
  | writeBack => exact wrHitWb_flushable c idx time events
  | writeThrough => exact wrHitWt_flushable h idx time events
  | writeEvict => exact wrHitWe_flushable h idx events
  | localWbGlobalWt =>
      exact .ite (fun _ => wrHitWe_flushable h idx events) fun _ =>
        wrHitWb_flushable c idx time events

theorem rdMissBase_flushable (types : DataCacheTypes) (idx : ℕ) (time : Time)
    (events : List CacheEvent) : KeepsFlushable (c.rdMissBase types addr idx mf time events) := by
  refine .ite (fun _ => .ok h) fun _ => .bind fun r hr => ?_
  have hsent := sendReadRequest_flushable h _ _ _ _ _ _ _ r hr
  exact .ite (fun _ => .ok (sendWriteback_flushable hsent types _ _ _ _)) fun _ => .ok hsent

theorem wrMissWaNaive_flushable (types : DataCacheTypes) (idx : ℕ) (time : Time)
    (events : List CacheEvent) (status : CacheRequestStatus) :
    KeepsFlushable (c.wrMissWaNaive types addr idx mf time events status) := by
  refine .ite (fun _ => .bind fun _ _ => .ok h) fun _ => .bind fun r hr => ?_
  have hsent : r.1.tagArray.Flushable := sendReadRequest_flushable (by exact h) _ _ _ _ _ _ _ r hr
  exact .ite (fun _ => .bind fun _ _ => .ok (sendWriteback_flushable hsent types _ _ _ _))
    fun _ => .ok hsent

theorem wrMissWaFetchOnWriteFull_flushable (types : DataCacheTypes) (idx : ℕ) (time : Time)
    (events : List CacheEvent) :
    KeepsFlushable (c.wrMissWaFetchOnWriteFull types addr idx mf time events) := by
  refine .ite (fun _ => .ok h) fun _ => .bind fun r hr => .bind fun _ _ => .bind fun c₁ h₁ =>
    .bind fun c₂ h₂ => ?_
  have hused : c₂.tagArray.isUsed = true := by
    rw [(ignoreOnFillIfReserved_writesLines h₂).isUsed, (markModified_writesLines h₁).isUsed]
    exact TagArray.access_isUsed hr
  have hflushable : c₂.tagArray.Flushable := Or.inl hused
  exact .ite (fun _ => .ok (sendWriteback_flushable hflushable types _ _ _ _)) fun _ =>
    .ok hflushable

/-- The fetch of a partial write is accepted, since the handler has made sure that it is. -/
theorem wrMissWaFetchOnWritePartial_flushable (types : DataCacheTypes) (idx : ℕ) (time : Time)
    (events : List CacheEvent) :
    KeepsFlushable (c.wrMissWaFetchOnWritePartial types addr idx mf time events) := by
  refine .ite (fun _ => .bind fun _ _ => .ok h) fun _ => .ite (fun _ => .ok h) fun _ =>
    .bind fun r hr => .bind fun i _ => ?_
  -- the mark of the line for its fill modifies no sector
  have hmark : (r.1.setBlock idx
      (((r.1.getBlock idx).setModifiedOnFill true i).putByteMaskOnFill
        true)).tagArray.Flushable := by
    have hsent : r.1.tagArray.Flushable := sendReadRequest_flushable (by exact h) _ _ _ _ _ _ _ r hr
    refine hsent.of_lines (fun j hj => ?_) rfl rfl
    by_cases hidx : j = idx
    · subst hidx
      simp only [setBlock, TagArray.setLine, Function.update_self] at hj
      rwa [show ((r.1.getBlock j).setModifiedOnFill true i).putByteMaskOnFill true =
        (r.1.getBlock j).writtenOnFill i from rfl, CacheBlock.isModifiedLine_writtenOnFill] at hj
    · simp only [setBlock, TagArray.setLine, Function.update_of_ne hidx] at hj
      exact hj
  exact .ite (fun _ => .ok (sendWriteback_flushable hmark types _ _ _ _)) fun _ => .ok hmark

theorem wrMissWaLazyFetchOnRead_flushable (types : DataCacheTypes) (idx : ℕ) (time : Time)
    (events : List CacheEvent) :
    KeepsFlushable (c.wrMissWaLazyFetchOnRead types addr idx mf time events) := by
  unfold wrMissWaLazyFetchOnRead
  refine .ite (fun _ => .ok h) fun _ => ?_
  split
  next c₀ events₀ hc₀ =>
  refine .bind fun r hr => .bind fun _ _ => .bind fun c₁ h₁ => .bind fun i _ =>
    .bind fun c₂ h₂ => ?_
  have hused : c₂.tagArray.isUsed = true := by
    rw [(updateMReadable_writesLines h₂).isUsed]
    exact (markModified_writesLines h₁).isUsed.trans (TagArray.access_isUsed hr)
  have hflushable : c₂.tagArray.Flushable := Or.inl hused
  exact .ite (fun _ => .ok (sendWriteback_flushable hflushable types _ _ _ _)) fun _ =>
    .ok hflushable

theorem wrMiss_flushable (types : DataCacheTypes) (idx : ℕ) (time : Time)
    (events : List CacheEvent) (status : CacheRequestStatus) :
    KeepsFlushable (c.wrMiss types addr idx mf time events status) := by
  unfold wrMiss
  cases cfg.writeAllocPolicy with
  | noWriteAllocate => exact .ite (fun _ => .ok h) fun _ => .ok h
  | writeAllocate => exact wrMissWaNaive_flushable h types idx time events status
  | fetchOnWrite =>
      exact .ite (fun _ => wrMissWaFetchOnWriteFull_flushable h types idx time events)
        fun _ => wrMissWaFetchOnWritePartial_flushable h types idx time events
  | lazyFetchOnRead => exact wrMissWaLazyFetchOnRead_flushable h types idx time events

theorem callHandler_flushable (types : DataCacheTypes) (wr : Bool)
    (probeStatus : CacheRequestStatus) (idx : ℕ) (time : Time) (events : List CacheEvent) :
    KeepsFlushable (c.callHandler types wr probeStatus addr idx mf time events) := by
  refine .ite (fun _ => .ite (fun _ => wrHit_flushable h idx time events) fun _ =>
    .ite (fun _ => wrMiss_flushable h types idx time events probeStatus) fun _ => .ok h) fun _ =>
      .ite (fun _ => .bind fun r hr => .ok ?_) fun _ =>
        .ite (fun _ => rdMissBase_flushable h types idx time events) fun _ => .ok h
  exact Or.inl (TagArray.access_isUsed (TagArray.accessNoWriteback_eq_ok hr))

omit h in
theorem useDataPort_tagArray {status : CacheRequestStatus} {events : List CacheEvent}
    (h : c.useDataPort m status events = .ok c') : c'.tagArray = c.tagArray := by
  unfold useDataPort at h
  cases status <;> simp only at h
  case hitReserved | miss =>
    split at h <;> cases h <;> rfl
  all_goals cases h <;> rfl

/-- A pin modifies no line. -/
theorem pinResponse_flushable (mf : Token) (idx : ℕ) :
    (c.pinResponse mf idx).tagArray.Flushable := by
  refine h.of_lines (fun j hj => ?_) rfl rfl
  by_cases hidx : j = idx
  · subst hidx
    simp only [pinResponse, setBlock, TagArray.setLine, Function.update_self] at hj
    have hpin : (c.getBlock j).pin.isModifiedLine = (c.getBlock j).isModifiedLine :=
      CacheBlock.isModifiedLine_congr fun _ => rfl
    rwa [hpin] at hj
  · simp only [pinResponse, setBlock, TagArray.setLine, Function.update_of_ne hidx] at hj
    exact hj

theorem processTagProbe_flushable (types : DataCacheTypes) (wr : Bool)
    (probeStatus : CacheRequestStatus) (idx : ℕ) (time : Time) (events : List CacheEvent) :
    KeepsFlushable (c.processTagProbe types wr probeStatus addr idx mf time events) := by
  refine .ite (fun _ => .bind fun c₁ h₁ => .ok ?_) fun _ => .bind fun r hr => .bind fun c₁ h₁ =>
    .ok ?_
  · rw [useDataPort_tagArray h₁]
    exact h
  · have hr := callHandler_flushable h types wr probeStatus idx time events r hr
    rw [useDataPort_tagArray h₁]
    split
    · exact pinResponse_flushable hr mf idx
    · exact hr

theorem readOnlyTagProbe_flushable (p : ProbeResult) (time : Time) (events : List CacheEvent) :
    KeepsFlushable (c.readOnlyTagProbe p addr mf time events) := by
  refine .ite (fun _ => .ite (fun _ => .ok h) fun _ => .bind fun r hr => ?_)
    fun _ => .ite (fun _ => .ite (fun _ => .ok h) fun _ => .bind fun r hr => .ok ?_)
      fun _ => .ok h
  · have hused := TagArray.access_isUsed (TagArray.accessNoWriteback_eq_ok hr)
    exact .ite (fun _ => .ok (Or.inl hused)) fun _ => .ok (Or.inl hused)
  · exact sendReadRequest_flushable h _ _ _ _ _ _ _ r hr

end Handlers

/-- A probe keeps a tag array flushable. -/
theorem probeTags_flushable (h : c.tagArray.Flushable) {addr : NewAddrType} {mf : MemFetch}
    {r : Cache cfg × ProbeResult} (hr : c.probeTags addr mf = .ok r) : r.1.tagArray.Flushable := by
  obtain ⟨c₁, p⟩ := r
  obtain ⟨rfl, -⟩ := probeTags_eq_ok hr
  refine TagArray.Flushable.of_lines h (fun _ hm => ?_) ?_ ?_
  · exact hm
  · rfl
  · rfl

/-- **An access keeps a tag array flushable.** -/
theorem access_flushable (h : c.tagArray.Flushable) (cls : CacheClass)
    (addr : NewAddrType) (mf : Token) (time : Time) (events : List CacheEvent) :
    KeepsFlushable (c.access cls addr mf time events) := by
  cases cls with
  | readOnlyCache =>
      refine .bind fun _ _ => .bind fun _ _ => .bind fun _ _ => .bind fun r hr =>
        .bind fun r' hr' =>
        .ok ?_
      exact readOnlyTagProbe_flushable (probeTags_flushable h hr) r.2 time events r' hr'
  | dataCache types =>
      refine .bind fun _ _ => .bind fun _ _ => .bind fun r hr => .bind fun r' hr' => .ok ?_
      exact processTagProbe_flushable (probeTags_flushable h hr) types _ _ _ time events r' hr'

/-! ### Fills -/

/-- The line that the complete response to a request is about to fill, with the sector and the bytes
of the response. -/
def completedLine (c : Cache cfg) (mf : Token) (time : Time) :
    Option (CacheBlock cfg.cacheType × Fin 4 × MemAccessByteMask) :=
  match c.extraMfFields.lookup mf with
  | none => none
  | some e =>
      let m := c.mfs mf
      let i := cfg.sectorIndex m.accessSectorMask
      match cfg.allocPolicy with
      | .onMiss => some (c.getBlock e.cacheIndex, i, m.accessByteMask)
      | .onFill =>
          match c.tagArray.probe e.blockAddr 0 m.accessSectorMask m.isWrite with
          | .error _ => none
          | .ok p =>
              if p.status = .reservationFail then none
              else some (TagArray.fillTarget cfg e.blockAddr time i p.status (c.getBlock p.idx), i,
                m.accessByteMask)
      | .streaming => none

/-- The line that a response is about to fill.  In a `SECTOR_ASSOC` cache only the last child of a
request fills a line. -/
def filledLine (c : Cache cfg) (mf : Token) (time : Time) :
    Option (CacheBlock cfg.cacheType × Fin 4 × MemAccessByteMask) :=
  if cfg.mshrType = .sectorAssoc then
    match (c.mfs mf).originalMf with
    | none => none
    | some original =>
        match c.extraMfFields.lookup original with
        | none => none
        | some e => if (e.pendingRead - 1).toNat = 0 then c.completedLine original time else none
  else c.completedLine mf time

/-- The line that is about to be filled is clean, and becomes modified. -/
def dirties (filled : Option (CacheBlock cfg.cacheType × Fin 4 × MemAccessByteMask)) : Bool :=
  match filled with
  | none => false
  | some (b, i, byteMask) => !b.isModifiedLine && (b.fill i byteMask).isModifiedLine

end Cache

namespace TagArray

/-- A fill that dirties no clean line keeps a clean tag array clean. -/
theorem NothingDirty.fillLine {ta : TagArray cfg} {idx : ℕ} {i : Fin 4}
    {byteMask : MemAccessByteMask} (h : ta.NothingDirty)
    (hkeep : Cache.dirties (some (ta.lines idx, i, byteMask)) = false) :
    (ta.fillLine idx i byteMask).NothingDirty := by
  have hold := h.lines idx
  have hnew : ((ta.lines idx).fill i byteMask).isModifiedLine = false := by
    rw [Cache.dirties, hold, Bool.not_false, Bool.true_and] at hkeep
    exact hkeep
  refine ⟨fun j => ?_, ?_⟩
  · rw [fillLine_lines]
    by_cases hj : j = idx
    · subst hj
      rw [Function.update_self]
      exact hnew
    · rw [Function.update_of_ne hj]
      exact h.lines j
  · unfold TagArray.fillLine
    dsimp only
    rw [hnew, Bool.false_and, if_neg Bool.false_ne_true]
    exact h.dirty

/-- Nor does a fill by address, which makes no line modified before it fills it. -/
theorem NothingDirty.fillAddr {ta ta' : TagArray cfg} {addr : NewAddrType} {time : Time}
    {mask : MemAccessSectorMask} {byteMask : MemAccessByteMask} {isWrite : Bool}
    (h : ta.NothingDirty) (hkeep : ∀ p, ta.probe addr 0 mask isWrite = .ok p →
      p.status ≠ .reservationFail → Cache.dirties (some (fillTarget cfg addr time
        (cfg.sectorIndex mask) p.status (ta.lines p.idx), cfg.sectorIndex mask, byteMask)) = false)
    (hfill : ta.fillAddr addr time mask byteMask isWrite = .ok ta') : ta'.NothingDirty := by
  obtain ⟨p, hp, hfill⟩ := bind_eq_ok.1 hfill
  split at hfill
  · cases hfill
    exact ⟨h.lines, h.dirty⟩
  · next hfail =>
      obtain ⟨i, hi, hfill⟩ := bind_eq_ok.1 hfill
      obtain ⟨new, hnew, hfill⟩ := bind_eq_ok.1 hfill
      have hkeep := hkeep p hp hfail
      rw [CacheConfig.sectorIndex_eq hi, ← allocateForFill_eq_ok hnew] at hkeep
      have htarget : new.isModifiedLine = false := by
        by_contra hm
        rw [Bool.not_eq_false, allocateForFill_eq_ok hnew] at hm
        have hold := isModifiedLine_fillTarget hm
        rw [show (ta.lines p.idx).isModifiedLine = false from h.lines p.idx] at hold
        cases hold
      cases hfill
      refine NothingDirty.fillLine ⟨fun j => ?_, ?_⟩ ?_
      · rw [show ∀ ta : TagArray cfg, (ta.setLine p.idx new).lines =
          Function.update ta.lines p.idx new from fun _ => rfl]
        by_cases hj : j = p.idx
        · subst hj
          rw [Function.update_self]
          exact htarget
        · rw [Function.update_of_ne hj]
          split
          · exact h.lines j
          · exact h.lines j
      · rw [show (ta.lines p.idx).isModifiedLine = false from h.lines p.idx, Bool.false_and,
          if_neg Bool.false_ne_true]
        exact h.dirty
      · rw [show ∀ ta : TagArray cfg, (ta.setLine p.idx new).lines p.idx = new from
          fun _ => Function.update_self _ _ _]
        exact hkeep

theorem isUsed_fillLine (ta : TagArray cfg) (idx : ℕ) (i : Fin 4) (byteMask : MemAccessByteMask) :
    (ta.fillLine idx i byteMask).isUsed = ta.isUsed := by
  unfold fillLine
  dsimp only
  split <;> rfl

theorem isUsed_fillAddr {ta ta' : TagArray cfg} {addr : NewAddrType} {time : Time}
    {mask : MemAccessSectorMask} {byteMask : MemAccessByteMask} {isWrite : Bool}
    (h : ta.fillAddr addr time mask byteMask isWrite = .ok ta') : ta'.isUsed = ta.isUsed := by
  obtain ⟨p, -, h⟩ := bind_eq_ok.1 h
  split at h
  · cases h
    rfl
  · obtain ⟨i, -, h⟩ := bind_eq_ok.1 h
    obtain ⟨new, -, h⟩ := bind_eq_ok.1 h
    cases h
    rw [isUsed_fillLine]
    split <;> rfl

end TagArray

namespace Cache

open Raises

variable {c : Cache cfg}

theorem fillComplete_flushable {mf : Token} {time : Time} (h : c.tagArray.Flushable)
    (hkeep : c.tagArray.isUsed = true ∨ dirties (c.completedLine mf time) = false) :
    Ensures (fun c' => c'.tagArray.Flushable) (c.fillComplete mf time) := by
  unfold fillComplete
  unfold completedLine at hkeep
  split
  · exact .error _
  · next e he =>
      rw [he] at hkeep
      dsimp only at hkeep
      refine .bind fun _ _ => ?_
      dsimp only
      rw [Function.update_self]
      split
      · next hpolicy =>
          rw [hpolicy] at hkeep
          refine .bind fun ta hta => .bind fun _ _ => .ok ?_
          obtain ⟨_, -, hta⟩ := bind_eq_ok.1 hta
          obtain ⟨i, hi, hta⟩ := bind_eq_ok.1 hta
          cases hta
          rw [CacheConfig.sectorIndex_eq hi] at hkeep
          by_cases hused : c.tagArray.isUsed = true
          · exact Or.inl ((TagArray.isUsed_fillLine _ _ _ _).trans hused)
          · exact Or.inr ((h.resolve_left hused).fillLine (hkeep.resolve_left hused))
      · next hpolicy =>
          rw [hpolicy] at hkeep
          refine .bind fun ta hta => .bind fun _ _ => .ok ?_
          by_cases hused : c.tagArray.isUsed = true
          · exact Or.inl ((TagArray.isUsed_fillAddr hta).trans hused)
          · refine Or.inr ((h.resolve_left hused).fillAddr (fun p hp hfail => ?_) hta)
            have hkeep := hkeep.resolve_left hused
            rw [hp] at hkeep
            dsimp only at hkeep
            rw [if_neg hfail] at hkeep
            exact hkeep
      · exact .bind fun _ hta => by cases hta

/-- **A fill keeps a tag array flushable**, unless it dirties a line while the mark is clear. -/
theorem fill_flushable {mf : Token} {time : Time} (h : c.tagArray.Flushable)
    (hkeep : c.tagArray.isUsed = true ∨ dirties (c.filledLine mf time) = false) :
    Ensures (fun c' => c'.tagArray.Flushable) (c.fill mf time) := by
  unfold fill
  unfold filledLine at hkeep
  split
  · next hassoc =>
      rw [if_pos hassoc] at hkeep
      split
      · exact .error _
      · next original horiginal =>
          rw [horiginal] at hkeep
          dsimp only at hkeep
          split
          · exact .error _
          · next e he =>
              rw [he] at hkeep
              refine .ite (fun _ => .ok h) fun hlast => ?_
              have hzero : (e.pendingRead - 1).toNat = 0 := Nat.eq_zero_of_not_pos hlast
              dsimp only at hkeep
              rw [if_pos hzero] at hkeep
              refine fillComplete_flushable (by exact h) (hkeep.imp id fun hkeep => ?_)
              unfold completedLine at hkeep ⊢
              rw [he] at hkeep
              rw [AList.lookup_insert]
              exact hkeep
  · next hassoc =>
      rw [if_neg hassoc] at hkeep
      exact fillComplete_flushable h hkeep

theorem nextAccess_flushable (h : c.tagArray.Flushable) :
    Ensures (fun r => r.1.tagArray.Flushable) c.nextAccess := by
  have hunpin : ∀ (c₀ : Cache cfg) (mf : Token), c₀.tagArray.Flushable →
      Ensures (fun c' => c'.tagArray.Flushable) (c₀.unpinResponse mf) := by
    intro c₀ mf h₀
    unfold unpinResponse
    split
    · exact .ok h₀
    · next idx _ =>
        refine .bind fun b hb => .ok ?_
        obtain ⟨_, -, hb⟩ := bind_eq_ok.1 hb
        cases hb
        refine h₀.of_lines (fun j hj => ?_) rfl rfl
        by_cases hidx : j = idx
        · subst hidx
          simp only [setBlock, TagArray.setLine, Function.update_self] at hj
          rw [CacheBlock.isModifiedLine_iff] at hj ⊢
          exact hj
        · simp only [setBlock, TagArray.setLine, Function.update_of_ne hidx] at hj
          exact hj
  refine .bind fun _ _ => ?_
  split
  · exact .bind fun c₁ hc₁ => .ok (hunpin _ _ (by exact h) c₁ hc₁)
  · exact .bind fun _ _ => .bind fun c₁ hc₁ => .ok (hunpin _ _ (by exact h) c₁ hc₁)

theorem cycle_flushable (h : c.tagArray.Flushable) (memportFull : Bool) :
    Ensures (fun r => r.1.tagArray.Flushable) (c.cycle memportFull) := by
  refine .bind fun _ _ => .ok ?_
  dsimp only [replenishPortBandwidth]
  split
  · split <;> exact h
  · exact h

end Cache

/-! ### Runs -/

namespace System

variable {cls : CacheClass} {sys sys' : System cfg} {o : Op} {b : Obs}

/-- A fill dirties a line, while nothing has used the tags since they were last cleaned. -/
def dirtiesUnmarked (sys : System cfg) (o : Op) : Bool :=
  !sys.cache.tagArray.isUsed &&
    match o with
    | .fill mf time => Cache.dirties (sys.cache.filledLine mf time)
    | .fillChild n m time => Cache.dirties ((sys.build n m).filledLine (.caller n) time)
    | _ => false

/-- **A call keeps the tags flushable**, unless it is such a fill. -/
theorem flushable_step (h : sys.cache.tagArray.Flushable) (hrange : sys.InRange)
    (hmarked : sys.dirtiesUnmarked o = false) (hstep : sys.perform cls o = .ok (sys', b)) :
    sys'.cache.tagArray.Flushable := by
  have hkeep : ∀ {filled : Bool}, (!sys.cache.tagArray.isUsed && filled) = false →
      sys.cache.tagArray.isUsed = true ∨ filled = false := by
    intro filled hfilled
    rw [Bool.and_eq_false_iff, Bool.not_eq_false'] at hfilled
    exact hfilled
  cases o with
  | access n m time events =>
      obtain ⟨r, hr, hstep⟩ := bind_eq_ok.1 hstep
      cases hstep
      exact @Cache.access_flushable _ (sys.build n m) h cls _ _ time events r hr
  | cycle memportFull =>
      obtain ⟨r, hr, hstep⟩ := bind_eq_ok.1 hstep
      cases hstep
      exact Cache.cycle_flushable h memportFull r hr
  | fill mf time =>
      obtain ⟨c, hc, hstep⟩ := bind_eq_ok.1 hstep
      cases hstep
      exact Cache.fill_flushable h (hkeep hmarked) c hc
  | fillChild n m time =>
      obtain ⟨c, hc, hstep⟩ := bind_eq_ok.1 hstep
      have hfilled := @Cache.fill_flushable _ (sys.build n m) _ time h (hkeep hmarked) c hc
      split at hstep
      · cases hstep
      · cases hstep
        exact hfilled
  | nextAccess =>
      obtain ⟨r, hr, hstep⟩ := bind_eq_ok.1 hstep
      cases hstep
      exact Cache.nextAccess_flushable h r hr
  | flush =>
      cases hstep
      exact h.flush hrange.2
  | invalidate =>
      cases hstep
      exact Or.inr (TagArray.nothingDirty_invalidate hrange.2)
  | retire mf =>
      cases hstep
      exact h

/-- The environment keeps its promise, and no fill dirties a line while the mark is clear. -/
def MarkedPromise (sys : System cfg) (o : Op) : Prop :=
  sys.Promise o ∧ sys.dirtiesUnmarked o = false

instance (sys : System cfg) (o : Op) : Decidable (sys.MarkedPromise o) := by
  unfold MarkedPromise
  infer_instance

/-- The tags are flushable in every run without such fills. -/
theorem flushable_of_run {mfs : Token → MemFetch} {trace : List Obs}
    (hrun : Run cls MarkedPromise (System.init cfg mfs) trace sys) :
    sys.cache.tagArray.Flushable := by
  have hboth : sys.cache.tagArray.Flushable ∧ sys.InRange := by
    refine Runs.Run.state_invariant
      (fun s : System cfg => s.cache.tagArray.Flushable ∧ s.InRange) ⟨?_, InRange.init mfs⟩ ?_ hrun
    · exact Or.inr ⟨fun _ => CacheBlock.isModifiedLine_init, rfl⟩
    · intro s o s' b hs hpromise hstep
      exact ⟨flushable_step hs.1 hs.2 hpromise.2 hstep, hs.2.step hpromise.1.suits hstep⟩
  exact hboth.1

end System

/-! ### The postcondition of a flush -/

/-- **In every reachable state, a flush leaves no `MODIFIED` sector, a dirty count of 0 and the
clean lines as they were exactly when the tags have been used since they were last cleaned or there
is nothing to clean; and it does in every state of a run in which no fill dirties a line while the
tags have not been used.** -/
theorem flush_cleans (cls : CacheClass) (mfs : Token → MemFetch) :
    (∀ trace sys, System.Run cls System.Promise (System.init cfg mfs) trace sys →
      (TagArray.Flushed sys.cache.tagArray sys.cache.flush.tagArray ↔
        sys.cache.tagArray.isUsed = true ∨ sys.cache.tagArray.NothingDirty)) ∧
      ∀ trace sys, System.Run cls System.MarkedPromise (System.init cfg mfs) trace sys →
        TagArray.Flushed sys.cache.tagArray sys.cache.flush.tagArray := by
  have hiff : ∀ trace sys, System.Run cls System.Promise (System.init cfg mfs) trace sys →
      (TagArray.Flushed sys.cache.tagArray sys.cache.flush.tagArray ↔
        sys.cache.tagArray.isUsed = true ∨ sys.cache.tagArray.NothingDirty) :=
    fun _ _ hrun => TagArray.flushed_iff (System.inRange_of_run hrun).2
  refine ⟨hiff, fun trace sys hrun => ?_⟩
  exact (hiff trace sys (hrun.mono fun _ _ h => h.1)).2 (System.flushable_of_run hrun)

/-- A full write makes a line modified, and the next flush cleans it. -/
theorem flush_cleans_written_line :
    ∃ trace sys, System.Run (.dataCache .l1) System.MarkedPromise
      (System.init (CacheConfig.small 'S' 'B' 'm' 'F' 2 true) fun _ => MemFetch.load 0) trace sys ∧
      (sys.cache.tagArray.lines 1).isModifiedLine = true ∧
      TagArray.Flushed sys.cache.tagArray sys.cache.flush.tagArray := by
  have hexec : ∃ trace sys, System.Run (.dataCache .l1) System.MarkedPromise
      (System.init (CacheConfig.small 'S' 'B' 'm' 'F' 2 true) fun _ => MemFetch.load 0) trace sys ∧
      (sys.cache.tagArray.lines 1).isModifiedLine = true :=
    Runs.exists_run_of_exec [.access 0 (MemFetch.store 0 (sectorBytes 0)) 0 []] (by decide)
  obtain ⟨trace, sys, hrun, hmodified⟩ := hexec
  exact ⟨trace, sys, hrun, hmodified, (flush_cleans _ _).2 trace sys hrun⟩

/-- A write misses and leaves its bytes to the fill; the cache is flushed, the response arrives, and
the next flush does nothing although the line is modified. -/
theorem flush_skips_modified_line :
    (CacheConfig.small 'S' 'B' 'm' 'F' 2 true).Accepted ∧
      ∃ trace sys, System.Run (.dataCache .l1) System.Promise
        (System.init (CacheConfig.small 'S' 'B' 'm' 'F' 2 true) fun _ => MemFetch.load 0)
        trace sys ∧
        (sys.cache.flush.tagArray.lines 1).isModifiedLine = true ∧
        sys.cache.flush.tagArray.dirty = 1 ∧
        ¬TagArray.Flushed sys.cache.tagArray sys.cache.flush.tagArray := by
  refine ⟨CacheConfig.small_accepted (by decide) true, ?_⟩
  have hexec : ∃ trace sys, System.Run (.dataCache .l1) System.Promise
      (System.init (CacheConfig.small 'S' 'B' 'm' 'F' 2 true) fun _ => MemFetch.load 0) trace sys ∧
      (sys.cache.flush.tagArray.lines 1).isModifiedLine = true ∧
        sys.cache.flush.tagArray.dirty = 1 :=
    Runs.exists_run_of_exec [.access 0 (MemFetch.store 0 {0}) 0 [], .flush, .cycle false,
      .fill (.created 0) 1] (by decide)
  obtain ⟨trace, sys, hrun, hmodified, hdirty⟩ := hexec
  refine ⟨trace, sys, hrun, hmodified, hdirty, fun hflushed => ?_⟩
  rw [hflushed.clean 1] at hmodified
  cases hmodified

end OpenCache
