/-
The data port and the write-backs.

`use_data_port` charges a miss for the write-back that it finds in the list of events, by the size
that the event carries.  The five handlers that evict a line append this event.  Four of them build
it from the evicted block; the read miss handler passes the type of the event alone, and the event
it appends has the size 0.

* `OpenCache.Cache.Reports` — a handler appends one write-back event and charges nothing itself;
* `OpenCache.Cache.rdMissBase_reports`, `OpenCache.Cache.wrMiss_reports` — which event the handlers
  append;
* `OpenCache.Cache.dataAccess_reports` — **what an access that evicts a line charges and reports**;
* `OpenCache.System.takesLine_of_queuesWriteback` — a write that the cache makes itself is the
  write-back of its victim;
* `OpenCache.writebacks_charge_data_port_iff` — when this is the size of the evicted line;
* `OpenCache.read_miss_charges_nothing` — a read miss that evicts a line for free.
-/

import OpenCache.Writebacks

set_option relaxedAutoImplicit false
set_option autoImplicit false

namespace OpenCache

variable {cfg : CacheConfig}

/-- A write-back event. -/
def CacheEvent.isWriteback (e : CacheEvent) : Bool := e.cacheEventType = .writeBackRequestSent

/-- The dirty data of a modified line have a size. -/
theorem CacheBlock.getModifiedSize_pos {k : CacheType} {b : CacheBlock k}
    (h : b.isModifiedLine = true) : 0 < b.getModifiedSize := by
  rcases b with ⟨_, _, _, _, _, _, _, _, ⟨s⟩ | ⟨s⟩⟩
  · exact (by decide : 0 < sectorChunckSize * sectorSize)
  · obtain ⟨i, hi⟩ := (isModifiedLine_iff _).1 h
    have hmem : i ∈ Finset.univ.filter fun j => (s j).status = .modified :=
      Finset.mem_filter.2 ⟨Finset.mem_univ i, hi⟩
    have hcard := Finset.card_pos.2 ⟨i, hmem⟩
    exact Nat.mul_pos hcard (by decide)

/-- The first write-back event of a list to which one has been appended. -/
theorem wasWritebackSent_append {events quiet : List CacheEvent} {e : CacheEvent}
    (hquiet : ∀ q ∈ quiet, q.isWriteback = false) (he : e.isWriteback = true) :
    wasWritebackSent (events ++ quiet ++ [e]) = (wasWritebackSent events).or (some e) := by
  have hnone : wasWritebackSent quiet = none :=
    List.find?_eq_none.2 fun q hq => Bool.eq_false_iff.1 (hquiet q hq)
  have hone : wasWritebackSent [e] = some e := List.find?_cons_of_pos he
  unfold wasWritebackSent at hnone hone ⊢
  rw [List.find?_append, List.find?_append, hnone, hone, Option.or_none]

namespace Cache

/-- A handler appends to the events some that are no write-backs and then the event `e`, and leaves
the data port to `use_data_port`. -/
structure Reports (c : Cache cfg) (events : List CacheEvent) (e : CacheEvent) (c' : Cache cfg)
    (events' : List CacheEvent) : Prop where
  port : c'.dataPortOccupiedCycles = c.dataPortOccupiedCycles
  events : ∃ quiet, (∀ q ∈ quiet, q.isWriteback = false) ∧ events' = events ++ quiet ++ [e]

/-! ### The helpers leave the data port alone -/

section Helpers

variable {c c' : Cache cfg} {m : MemFetch} {idx : ℕ}

theorem WritesLines.port (h : c.WritesLines c') :
    c'.dataPortOccupiedCycles = c.dataPortOccupiedCycles := by
  obtain ⟨_, _, rfl⟩ := h
  rfl

/-- The read miss handler reports the read, or nothing. -/
theorem sendReadRequest_quiet {blockAddr : NewAddrType} {mf : Token} {time : Time}
    {events : List CacheEvent} {readOnly wa : Bool} {r : SendResult}
    (h : c.sendReadRequest blockAddr idx mf time events readOnly wa = .ok (c', r)) :
    c'.dataPortOccupiedCycles = c.dataPortOccupiedCycles ∧
      ∃ quiet, (∀ q ∈ quiet, q.isWriteback = false) ∧ r.events = events ++ quiet := by
  have hnone : ∃ quiet, (∀ q ∈ quiet, q.isWriteback = false) ∧ events = events ++ quiet :=
    ⟨[], fun _ hq => absurd hq List.not_mem_nil, (List.append_nil _).symm⟩
  have haccept : ∀ {c₁ : Cache cfg} {r₁ : AccessResult},
      c.acceptMiss blockAddr (cfg.mshrAddr (c.mfs mf).addr) idx mf time readOnly = .ok (c₁, r₁) →
      c₁.dataPortOccupiedCycles = c.dataPortOccupiedCycles := by
    intro c₁ r₁ h₁
    obtain ⟨⟨ta, r'⟩, -, h₁⟩ := bind_eq_ok.1 h₁
    obtain ⟨mshrs, -, h₁⟩ := bind_eq_ok.1 h₁
    cases h₁
    split <;> rfl
  -- the branches: it joins an entry, it makes one, the entry is full, the table is full
  unfold sendReadRequest at h
  dsimp only at h
  split at h
  · obtain ⟨⟨c₁, r₁⟩, h₁, h⟩ := bind_eq_ok.1 h
    have hport := haccept h₁
    cases h
    exact ⟨hport, hnone⟩
  · split at h
    · obtain ⟨⟨c₁, r₁⟩, h₁, h⟩ := bind_eq_ok.1 h
      have hport := haccept h₁
      cases h
      -- the event of the fetch is not reported for a write, which reports its own
      refine ⟨hport, ?_⟩
      by_cases hwa : wa = true
      · rw [hwa]
        exact hnone
      · dsimp only
        rw [if_neg hwa]
        refine ⟨[CacheEvent.ofType .readRequestSent], fun q hq => ?_, rfl⟩
        rw [List.mem_singleton.1 hq]
        rfl
    · split at h
      · cases h
        exact ⟨rfl, hnone⟩
      · split at h
        · cases h
          exact ⟨rfl, hnone⟩
        · cases h

/-- A write-back under write-back: the event is the one that the handler builds. -/
theorem sendWriteback_reports (hback : cfg.writePolicy = .writeBack) (c : Cache cfg)
    (types : DataCacheTypes) (m : MemFetch) (e : EvictedBlockInfo)
    (request : EvictedBlockInfo → CacheEvent) (events : List CacheEvent) :
    (c.sendWriteback types m (some e) request events).1.dataPortOccupiedCycles =
        c.dataPortOccupiedCycles ∧
      (c.sendWriteback types m (some e) request events).2 = events ++ [request e] := by
  unfold sendWriteback
  dsimp only
  rw [if_neg (by simp [hback])]
  exact ⟨rfl, rfl⟩

end Helpers

/-! ### The handlers that evict -/

section Handlers

variable {c c' : Cache cfg} {addr : NewAddrType} {mf : Token} {time : Time}
  {events events' : List CacheEvent} {status : CacheRequestStatus} {p : ProbeResult}
  (hback : cfg.writePolicy = .writeBack) (types : DataCacheTypes)
  (hp : c.Probes addr (c.mfs mf) p) (htakes : takesLine cfg (c.mfs mf) p.status)
  (hmodified : (c.tagArray.lines p.idx).isModifiedLine = true)

include htakes hmodified

/-- The block that such an access evicts. -/
theorem evictedBy_of_takesLine : TagArray.evictedBy cfg p.status (c.tagArray.lines p.idx) =
    some (TagArray.evictedBlockInfo (c.tagArray.lines p.idx)) :=
  if_pos ⟨htakes.1, htakes.2.1, hmodified⟩

include hback hp

/-- A read miss reports a write-back without the block. -/
theorem rdMissBase_reports
    (h : c.rdMissBase types addr p.idx mf time events = .ok (c', status, events'))
    (haccept : status ≠ .reservationFail) :
    c.Reports events (CacheEvent.ofType .writeBackRequestSent) c' events' := by
  have hev := evictedBy_of_takesLine htakes hmodified
  unfold rdMissBase at h
  dsimp only at h
  split at h
  · cases h
    exact absurd rfl haccept
  · obtain ⟨⟨c₁, r⟩, h₁, h⟩ := bind_eq_ok.1 h
    obtain ⟨hport, quiet, hquiet, hevents⟩ := sendReadRequest_quiet h₁
    rcases sendReadRequest_core hp (by simp [htakes.1]) h₁ with
      ⟨hdo, -, -⟩ | ⟨hdo, -, hevicted, -⟩
    · simp only [hdo] at h
      cases h
      exact absurd rfl haccept
    · simp only [hdo, if_true, hevicted, hev] at h
      obtain ⟨hport', hevents'⟩ := sendWriteback_reports hback c₁ types (c.mfs mf)
        (TagArray.evictedBlockInfo (c.tagArray.lines p.idx))
        (fun _ => CacheEvent.ofType .writeBackRequestSent) r.events
      cases h
      refine ⟨hport'.trans hport, quiet, hquiet, ?_⟩
      rw [← hevents]
      exact hevents'

/-- The write-backs of the other handlers carry the block. -/
theorem wrMissWaNaive_reports (hwrite : (c.mfs mf).isWrite = true)
    (h : c.wrMissWaNaive types addr p.idx mf time events p.status = .ok (c', status, events'))
    (haccept : status ≠ .reservationFail) :
    c.Reports events (writeBackEvent (TagArray.evictedBlockInfo (c.tagArray.lines p.idx))) c'
      events' := by
  have hev := evictedBy_of_takesLine htakes hmodified
  unfold wrMissWaNaive at h
  dsimp only at h
  split at h
  · obtain ⟨_, -, h⟩ := bind_eq_ok.1 h
    cases h
    exact absurd rfl haccept
  · next hroom =>
      obtain ⟨⟨c₁, r⟩, h₁, h⟩ := bind_eq_ok.1 h
      obtain ⟨hport, quiet, hquiet, hevents⟩ := sendReadRequest_quiet h₁
      obtain ⟨hdo, -, hevicted, -⟩ := sendAllocated_core h₁ hp (Or.inr (Or.inl htakes.1)) hwrite
        (Function.update_self _ _ _) rfl rfl (fetchRefused_eq_false (by simpa using hroom)).2
      simp only [hdo, if_true, hevicted, hev] at h
      obtain ⟨_, -, h⟩ := bind_eq_ok.1 h
      obtain ⟨hport', hevents'⟩ := sendWriteback_reports hback c₁ types (c.mfs mf)
        (TagArray.evictedBlockInfo (c.tagArray.lines p.idx)) writeBackEvent
        (r.events ++ [CacheEvent.ofType .writeAllocateSent])
      cases h
      -- the write has been reported before the read, and the allocation after it
      refine ⟨hport'.trans hport, CacheEvent.ofType .writeRequestSent :: quiet ++
        [CacheEvent.ofType .writeAllocateSent], fun q hq => ?_, ?_⟩
      · rcases List.mem_append.1 hq with hq | hq
        · rcases List.mem_cons.1 hq with rfl | hq
          · rfl
          · exact hquiet q hq
        · rw [List.mem_singleton.1 hq]
          rfl
      · rw [hevents', hevents]
        simp [sendWriteRequest]

theorem wrMissWaFetchOnWritePartial_reports (hwrite : (c.mfs mf).isWrite = true)
    (h : c.wrMissWaFetchOnWritePartial types addr p.idx mf time events = .ok (c', status, events'))
    (haccept : status ≠ .reservationFail) :
    c.Reports events (writeBackEvent (TagArray.evictedBlockInfo (c.tagArray.lines p.idx))) c'
      events' := by
  have hev := evictedBy_of_takesLine htakes hmodified
  unfold wrMissWaFetchOnWritePartial at h
  dsimp only at h
  split at h
  · obtain ⟨_, -, h⟩ := bind_eq_ok.1 h
    cases h
    exact absurd rfl haccept
  · next hroom =>
      split at h
      · cases h
        exact absurd rfl haccept
      · obtain ⟨⟨c₁, r⟩, h₁, h⟩ := bind_eq_ok.1 h
        obtain ⟨hport, quiet, hquiet, hevents⟩ := sendReadRequest_quiet h₁
        obtain ⟨hdo, -, hevicted, -⟩ := sendAllocated_core h₁ hp (Or.inr (Or.inl htakes.1)) hwrite
          (Function.update_self _ _ _) rfl rfl (fetchRefused_eq_false (by simpa using hroom)).2
        obtain ⟨i, -, h⟩ := bind_eq_ok.1 h
        simp only [hdo, if_true, hevicted, hev] at h
        obtain ⟨hport', hevents'⟩ := sendWriteback_reports hback (c₁.setBlock p.idx
          (((c₁.getBlock p.idx).setModifiedOnFill true i).putByteMaskOnFill true)) types (c.mfs mf)
          (TagArray.evictedBlockInfo (c.tagArray.lines p.idx)) writeBackEvent
          (r.events ++ [CacheEvent.ofType .writeAllocateSent])
        cases h
        refine ⟨hport'.trans hport, quiet ++ [CacheEvent.ofType .writeAllocateSent],
          fun q hq => ?_, ?_⟩
        · rcases List.mem_append.1 hq with hq | hq
          · exact hquiet q hq
          · rw [List.mem_singleton.1 hq]
            rfl
        · rw [hevents', hevents]
          simp

theorem wrMissWaFetchOnWriteFull_reports
    (h : c.wrMissWaFetchOnWriteFull types addr p.idx mf time events = .ok (c', status, events'))
    (haccept : status ≠ .reservationFail) :
    c.Reports events (writeBackEvent (TagArray.evictedBlockInfo (c.tagArray.lines p.idx))) c'
      events' := by
  have hev := evictedBy_of_takesLine htakes hmodified
  unfold wrMissWaFetchOnWriteFull at h
  dsimp only at h
  split at h
  · cases h
    exact absurd rfl haccept
  · obtain ⟨⟨ta, r⟩, hta, h⟩ := bind_eq_ok.1 h
    obtain ⟨_, -, h⟩ := bind_eq_ok.1 h
    obtain ⟨c₁, h₁, h⟩ := bind_eq_ok.1 h
    obtain ⟨hstatus, -, hevicted, -, -⟩ := writeMiss_core hp (Or.inr (Or.inl htakes.1)) hta h₁ rfl
    obtain ⟨c₂, h₂, h⟩ := bind_eq_ok.1 h
    have hport : c₂.dataPortOccupiedCycles = c.dataPortOccupiedCycles :=
      (ignoreOnFillIfReserved_writesLines h₂).port.trans (markModified_writesLines h₁).port
    have hstatus := hstatus.trans htakes.1
    have hevicted := hevicted.trans hev
    simp only [hstatus, hevicted, ne_eq, reduceCtorEq, not_false_eq_true, if_true] at h
    obtain ⟨hport', hevents'⟩ := sendWriteback_reports hback c₂ types (c.mfs mf)
      (TagArray.evictedBlockInfo (c.tagArray.lines p.idx)) writeBackEvent events
    cases h
    refine ⟨hport'.trans hport, [], fun q hq => absurd hq List.not_mem_nil, ?_⟩
    rw [hevents', List.append_nil]

theorem wrMissWaLazyFetchOnRead_reports
    (h : c.wrMissWaLazyFetchOnRead types addr p.idx mf time events = .ok (c', status, events'))
    (haccept : status ≠ .reservationFail) :
    c.Reports events (writeBackEvent (TagArray.evictedBlockInfo (c.tagArray.lines p.idx))) c'
      events' := by
  have hev := evictedBy_of_takesLine htakes hmodified
  unfold wrMissWaLazyFetchOnRead at h
  dsimp only at h
  split at h
  · cases h
    exact absurd rfl haccept
  · -- under write-back the write is not forwarded
    simp only [if_neg (show cfg.writePolicy ≠ .writeThrough by simp [hback])] at h
    obtain ⟨⟨ta, r⟩, hta, h⟩ := bind_eq_ok.1 h
    obtain ⟨_, -, h⟩ := bind_eq_ok.1 h
    obtain ⟨c₁, h₁, h⟩ := bind_eq_ok.1 h
    obtain ⟨hstatus, -, hevicted, -, -⟩ := writeMiss_core hp (Or.inr (Or.inl htakes.1)) hta h₁ rfl
    obtain ⟨i, -, h⟩ := bind_eq_ok.1 h
    obtain ⟨c₂, h₂, h⟩ := bind_eq_ok.1 h
    have hmarked := (markModified_writesLines h₁).port
    have hport : c₂.dataPortOccupiedCycles = c.dataPortOccupiedCycles :=
      (updateMReadable_writesLines h₂).port.trans hmarked
    have hstatus := hstatus.trans htakes.1
    have hevicted := hevicted.trans hev
    simp only [hstatus, hevicted, ne_eq, reduceCtorEq, not_false_eq_true, if_true] at h
    obtain ⟨hport', hevents'⟩ := sendWriteback_reports hback c₂ types (c.mfs mf)
      (TagArray.evictedBlockInfo (c.tagArray.lines p.idx)) writeBackEvent events
    cases h
    refine ⟨hport'.trans hport, [], fun q hq => absurd hq List.not_mem_nil, ?_⟩
    rw [hevents', List.append_nil]

/-- A write miss reports a write-back with the block. -/
theorem wrMiss_reports (hwrite : (c.mfs mf).isWrite = true)
    (h : c.wrMiss types addr p.idx mf time events p.status = .ok (c', status, events'))
    (haccept : status ≠ .reservationFail) :
    c.Reports events (writeBackEvent (TagArray.evictedBlockInfo (c.tagArray.lines p.idx))) c'
      events' := by
  unfold wrMiss at h
  split at h
  · next hpolicy => exact absurd hpolicy (htakes.2.2 hwrite)
  · exact wrMissWaNaive_reports hback types hp htakes hmodified hwrite h haccept
  · unfold wrMissWaFetchOnWrite at h
    split at h
    · exact wrMissWaFetchOnWriteFull_reports hback types hp htakes hmodified h haccept
    · exact wrMissWaFetchOnWritePartial_reports hback types hp htakes hmodified hwrite h haccept
  · exact wrMissWaLazyFetchOnRead_reports hback types hp htakes hmodified h haccept

/-- The event of the write-back that an access sends for its victim. -/
theorem callHandler_reports
    (h : c.callHandler types (c.mfs mf).isWrite p.status addr p.idx mf time events =
      .ok (c', status, events')) (haccept : status ≠ .reservationFail) :
    c.Reports events (if (c.mfs mf).isWrite then
      writeBackEvent (TagArray.evictedBlockInfo (c.tagArray.lines p.idx))
      else CacheEvent.ofType .writeBackRequestSent) c' events' := by
  have hmiss := htakes.1
  unfold callHandler at h
  by_cases hwrite : (c.mfs mf).isWrite = true
  · rw [if_pos hwrite]
    rw [if_pos hwrite, if_neg (by simp [hmiss]), if_pos (Or.inl (by simp [hmiss]))] at h
    exact wrMiss_reports hback types hp htakes hmodified hwrite h haccept
  · rw [if_neg hwrite]
    rw [if_neg hwrite, if_neg (by simp [hmiss]), if_pos (by simp [hmiss])] at h
    exact rdMissBase_reports hback types hp htakes hmodified h haccept

end Handlers

/-- `use_data_port` charges an accepted miss for the first write-back event of the list. -/
theorem useDataPort_miss {c c' : Cache cfg} {m : MemFetch} {events : List CacheEvent}
    {e : CacheEvent} (he : wasWritebackSent events = some e)
    (h : c.useDataPort m .miss events = .ok c') :
    c'.dataPortOccupiedCycles =
      c.dataPortOccupiedCycles + e.evictedBlock.modifiedSize / cfg.dataPortWidth := by
  unfold useDataPort at h
  simp only [he] at h
  cases h
  rfl

/-- Whatever the handler passes, it reports a write-back. -/
theorem isWriteback_of_report {wr : Bool} {block : EvictedBlockInfo} {e : CacheEvent}
    (he : e = if wr then writeBackEvent block else CacheEvent.ofType .writeBackRequestSent) :
    e.isWriteback = true := by
  rw [he]
  cases wr <;> rfl

/-- An accepted access whose block is not there is a miss. -/
theorem status_of_accepted {c c' : Cache cfg} {cls : CacheClass} {addr : NewAddrType}
    {mf : Token} {time : Time} {events events' : List CacheEvent} {status : CacheRequestStatus}
    {p : ProbeResult} (h : c.access cls addr mf time events = .ok (c', status, events'))
    (haccept : status ≠ .reservationFail) (hp : c.Probes addr (c.mfs mf) p)
    (hmiss : p.status ≠ .hit) : status = .miss := by
  have hcase := access_cases h
  generalize c'.core = s' at hcase
  cases hcase with
  | refused => exact absurd rfl haccept
  | hit q hq hhit =>
      obtain rfl : q = p := Except.ok.inj (hq.symm.trans hp)
      exact absurd hhit hmiss
  | forward => rfl
  | write => rfl
  | fetch => rfl

/-- **What an access that evicts a line charges and reports.** -/
theorem dataAccess_reports {c c' : Cache cfg} {types : DataCacheTypes} {addr : NewAddrType}
    {mf : Token} {time : Time} {events events' : List CacheEvent} {status : CacheRequestStatus}
    {p : ProbeResult} {e : CacheEvent} (hback : cfg.writePolicy = .writeBack)
    (hp : c.Probes addr (c.mfs mf) p) (htakes : takesLine cfg (c.mfs mf) p.status)
    (hmodified : (c.tagArray.lines p.idx).isModifiedLine = true)
    (he : e = if (c.mfs mf).isWrite then
      writeBackEvent (TagArray.evictedBlockInfo (c.tagArray.lines p.idx))
      else CacheEvent.ofType .writeBackRequestSent)
    (h : c.dataAccess types addr mf time events = .ok (c', status, events'))
    (haccept : status ≠ .reservationFail) :
    (∃ quiet, (∀ q ∈ quiet, q.isWriteback = false) ∧ events' = events ++ quiet ++ [e]) ∧
      c'.dataPortOccupiedCycles = c.dataPortOccupiedCycles +
        ((wasWritebackSent events).getD e).evictedBlock.modifiedSize / cfg.dataPortWidth := by
  have haccess : c.access (.dataCache types) addr mf time events = .ok (c', status, events') := h
  unfold dataAccess at h
  obtain ⟨_, -, h⟩ := bind_eq_ok.1 h
  obtain ⟨_, -, h⟩ := bind_eq_ok.1 h
  obtain ⟨⟨c₁, p₁⟩, hprobe, h⟩ := bind_eq_ok.1 h
  obtain ⟨⟨c₂, status₂, events₂⟩, htag, h⟩ := bind_eq_ok.1 h
  -- the probe of `access` is the one that the tags answer with
  obtain rfl : p₁ = p := Except.ok.inj ((probes_of_probeTags hprobe).symm.trans hp)
  obtain ⟨hc₁, hp₁⟩ := probeTags_eq_ok hprobe
  have hstart : c₁.mfs = c.mfs ∧ c₁.tagArray.lines = c.tagArray.lines ∧
      c₁.dataPortOccupiedCycles = c.dataPortOccupiedCycles := by
    rw [hc₁]
    exact ⟨rfl, rfl, rfl⟩
  obtain ⟨hmfs, hlines, hport₁⟩ := hstart
  rw [← hmfs] at hp₁ htakes htag he
  rw [← hlines] at hmodified he
  have hmiss : p₁.status ≠ .hit := by simp [htakes.1]
  unfold processTagProbe at htag
  rw [if_neg fun hhit => hmiss hhit.1] at htag
  obtain ⟨⟨c₃, status₃, events₃⟩, hcall, htag⟩ := bind_eq_ok.1 htag
  obtain ⟨c₄, hport, htag⟩ := bind_eq_ok.1 htag
  rw [if_neg fun hhit => hmiss hhit.1] at hport
  cases htag
  cases h
  have hreports := callHandler_reports hback types hp₁ htakes hmodified hcall haccept
  rw [← he] at hreports
  obtain ⟨quiet, hquiet, rfl⟩ := hreports.events
  have hsent : wasWritebackSent (events ++ quiet ++ [e]) =
      some ((wasWritebackSent events).getD e) := by
    rw [wasWritebackSent_append hquiet (isWriteback_of_report he)]
    cases wasWritebackSent events <;> rfl
  -- `use_data_port` sees the first write-back of the whole list, the caller's included
  rw [status_of_accepted haccess haccept hp fun hhit => hmiss hhit] at hport
  refine ⟨⟨quiet, hquiet, rfl⟩, ?_⟩
  rw [← hport₁, ← hreports.port]
  have hcharged := useDataPort_miss hsent hport
  exact hcharged

end Cache

/-! ### Every write-back of an evicted line -/

section Run

variable {types : DataCacheTypes} {mfs : Token → MemFetch} {trace : List Obs}
  {sys : System cfg}

/-- The write-back events that a call appends to the list of its caller. -/
def appendedWritebacks (events events' : List CacheEvent) : List CacheEvent :=
  (events'.drop events.length).filter CacheEvent.isWriteback

/-- The list that a handler leaves has one new write-back event. -/
theorem appendedWritebacks_append {events quiet : List CacheEvent} {e : CacheEvent}
    (hquiet : ∀ q ∈ quiet, q.isWriteback = false) (he : e.isWriteback = true) :
    appendedWritebacks events (events ++ quiet ++ [e]) = [e] := by
  have hnone : quiet.filter CacheEvent.isWriteback = [] :=
    List.filter_eq_nil_iff.2 fun q hq => Bool.eq_false_iff.1 (hquiet q hq)
  rw [appendedWritebacks, List.append_assoc, List.drop_left, List.filter_append, hnone,
    List.nil_append, List.filter_cons_of_pos he, List.filter_nil]

/-- An access has put into the miss queue a write that the cache has made itself. -/
def System.QueuesWriteback (sys : System cfg) (n : ℕ) (sys' : System cfg) : Prop :=
  ∃ t ∈ sys'.core.missQueue.drop sys.core.missQueue.length, t ≠ .caller n ∧
    (sys'.core.mfs t).isWrite = true

/-- The writes that a write-back cache makes itself are the write-backs of modified victims. -/
theorem System.takesLine_of_queuesWriteback {sys' : System cfg} {n : ℕ} {m : MemFetch}
    {time : Time} {status : CacheRequestStatus}
    (hcase : AccessCase (sys.build n m) (.dataCache types) m.addr (.caller n) time status sys'.core)
    (hsends : sys.QueuesWriteback n sys') :
    status ≠ .reservationFail ∧ ∃ p, sys.answer m = some p ∧ takesLine cfg m p.status ∧
      (sys.core.lines p.idx).isModifiedLine = true := by
  obtain ⟨t, ht, hcaller, hwrite⟩ := hsends
  have haccept : status ≠ .reservationFail := by
    rintro rfl
    generalize sys'.core = s' at hcase ht
    cases hcase with
    | refused =>
        change t ∈ sys.core.missQueue.drop sys.core.missQueue.length at ht
        rw [List.drop_length] at ht
        exact List.not_mem_nil ht
  have hm := sys.build_mfs_caller n m
  obtain ⟨p, fetch, writeback, hp, hqueued⟩ := hcase.queuesOwed (by simp) haccept
  rw [hm] at hp
  refine ⟨haccept, p, (System.answer_eq_some n).2 hp, ?_⟩
  have hback : (writeback.map sys'.core.mfs).isSome = true := by
    rw [hqueued.queue, List.append_assoc, List.append_assoc] at ht
    change t ∈ List.drop sys.core.missQueue.length (sys.core.missQueue ++ _) at ht
    rw [List.drop_left, List.mem_append, List.mem_append] at ht
    -- the queue has got the request itself, its fetch and the write-back; only the last is a write
    -- of the cache
    rcases ht with ht | ht | ht
    · split at ht
      · exact absurd (List.mem_singleton.1 ht) hcaller
      · exact absurd ht List.not_mem_nil
    · have hfetch := hqueued.fetch_request t (Option.mem_toList.1 ht)
      exact absurd (hwrite.symm.trans hfetch.1) (by decide)
    · rw [Option.mem_toList.1 ht]
      rfl
  rw [hqueued.writeback_request, hm, Cache.owedWriteback, writebackOf] at hback
  split at hback
  · cases hback
  · next hforward =>
      split at hback
      · cases hback
      · rw [Option.isSome_map, TagArray.evictedBy] at hback
        split at hback
        · next hvictim =>
            exact ⟨⟨hvictim.1, hvictim.2.1, fun hw hno => hforward ⟨hw, hno⟩⟩, hvictim.2.2⟩
        · cases hback

/-- **A write-back charges the data port when a write evicts the line**: an access that queues a
write-back, which is the one of its victim, occupies the data port for the size of the dirty data
and reports the evicted block, exactly when it is a write and the list of its caller does not start
with a write-back of another number of cycles. -/
theorem writebacks_charge_data_port_iff (hback : cfg.writePolicy = .writeBack)
    (_hon : cfg.allocPolicy = .onMiss)
    (_hrun : System.Run (.dataCache types) System.Promise (System.init cfg mfs) trace sys) :
    ∀ n m time events c' status events', sys.Promise (.access n m time events) →
      (sys.build n m).access (.dataCache types) m.addr (.caller n) time events =
        .ok (c', status, events') →
      sys.QueuesWriteback n ⟨c', sys.below⟩ →
      ∃ p w, sys.answer m = some p ∧ sys.lastSent ⟨c', sys.below⟩ = some w ∧
        w.accessType = types.wrbkType ∧ w.addr = (sys.core.lines p.idx).blockAddr ∧
        ((c'.dataPortOccupiedCycles = sys.cache.dataPortOccupiedCycles +
              (sys.core.lines p.idx).getModifiedSize / cfg.dataPortWidth ∧
            appendedWritebacks events events' =
              [Cache.writeBackEvent (TagArray.evictedBlockInfo (sys.core.lines p.idx))]) ↔
          m.isWrite = true ∧ ∀ ev, wasWritebackSent events = some ev →
            ev.evictedBlock.modifiedSize / cfg.dataPortWidth =
              (sys.core.lines p.idx).getModifiedSize / cfg.dataPortWidth) := by
  intro n m time events c' status events' hpromise haccess hsends
  have hcase : AccessCase (sys.build n m) (.dataCache types) m.addr (.caller n) time status
      (⟨c', sys.below⟩ : System cfg).core := Cache.access_cases haccess
  obtain ⟨haccept, p, hp, htakes, hmodified⟩ := System.takesLine_of_queuesWriteback hcase hsends
  have hsent := System.lastSent_of_evicts hback hcase haccept hp htakes hmodified
  refine ⟨p, _, hp, hsent, rfl, rfl, ?_⟩
  have hm := sys.build_mfs_caller n m
  have hprobes : (sys.build n m).Probes m.addr ((sys.build n m).mfs (.caller n)) p := by
    rw [hm]
    exact (System.answer_eq_some n).1 hp
  obtain ⟨⟨quiet, hquiet, rfl⟩, hport⟩ := Cache.dataAccess_reports hback hprobes
    (by rwa [hm]) hmodified rfl haccess haccept
  rw [appendedWritebacks_append hquiet (Cache.isWriteback_of_report rfl), hport, hm]
  change sys.cache.dataPortOccupiedCycles + _ = _ ∧ _ ↔ _
  by_cases hwrite : m.isWrite = true
  · rw [if_pos hwrite]
    constructor
    · rintro ⟨hcharged, -⟩
      refine ⟨hwrite, fun ev hev => ?_⟩
      rw [hev] at hcharged
      exact Nat.add_left_cancel hcharged
    · rintro ⟨-, hearlier⟩
      refine ⟨?_, rfl⟩
      cases hev : wasWritebackSent events with
      | none => rfl
      | some ev => exact congrArg _ (hearlier ev hev)
  · -- the event of a read has no block, and a modified line has dirty data
    refine iff_of_false ?_ fun h => hwrite h.1
    rintro ⟨-, hreport⟩
    rw [if_neg hwrite] at hreport
    have hsize := congrArg (fun e => e.evictedBlock.modifiedSize) (List.cons.inj hreport).1
    have hpos : 0 < (sys.core.lines p.idx).getModifiedSize :=
      CacheBlock.getModifiedSize_pos hmodified
    exact absurd hsize hpos.ne

end Run

/-- The access of a caller with an empty list of events. -/
def System.accessOf (cls : CacheClass) (sys : System cfg) (n : ℕ) (m : MemFetch) (time : Time) :
    Option (Cache.Handled cfg) :=
  ((sys.build n m).access cls m.addr (.caller n) time []).toOption

theorem System.access_of_accessOf {sys : System cfg} {cls : CacheClass} {n : ℕ} {m : MemFetch}
    {time : Time} {r : Cache.Handled cfg} (h : sys.accessOf cls n m time = some r) :
    (sys.build n m).access cls m.addr (.caller n) time [] = .ok r := by
  unfold accessOf at h
  cases haccess : (sys.build n m).access cls m.addr (.caller n) time [] with
  | error e =>
      rw [haccess] at h
      cases h
  | ok r' =>
      rw [haccess] at h
      exact congrArg _ (Option.some_inj.1 h)

/-- A write miss that evicts a written line is charged for it. -/
theorem writebacks_charge_data_port_iff_write_miss :
    ∃ trace sys c' status events' p, System.Run (.dataCache .l1) System.Promise
        (System.init (CacheConfig.small 'N' 'B' 'm' 'F' 1 false) fun _ => MemFetch.load 0)
        trace sys ∧
      sys.accessOf (.dataCache .l1) 1 (MemFetch.store 128 {0}) 3 = some (c', status, events') ∧
      sys.answer (MemFetch.store 128 {0}) = some p ∧
      c'.dataPortOccupiedCycles = sys.cache.dataPortOccupiedCycles +
        (sys.core.lines p.idx).getModifiedSize /
          (CacheConfig.small 'N' 'B' 'm' 'F' 1 false).dataPortWidth ∧
      appendedWritebacks [] events' =
        [Cache.writeBackEvent (TagArray.evictedBlockInfo (sys.core.lines p.idx))] := by
  obtain ⟨trace, sys, hrun, hpromise, hsends⟩ : ∃ trace sys,
      System.Run (.dataCache .l1) System.Promise
        (System.init (CacheConfig.small 'N' 'B' 'm' 'F' 1 false) fun _ => MemFetch.load 0)
          trace sys ∧
      sys.Promise (.access 1 (MemFetch.store 128 {0}) 3 []) ∧
      ((sys.accessOf (.dataCache .l1) 1 (MemFetch.store 128 {0}) 3).map fun r =>
        (r.1.missQueue.drop sys.core.missQueue.length).any fun t =>
          t ≠ .caller 1 && (r.1.mfs t).isWrite) = some true :=
    Runs.exists_run_of_exec [.access 0 (MemFetch.store 0 {0}) 0 [], .cycle false,
      .fill (.created 0) 2] (by decide +kernel)
  obtain ⟨⟨c', status, events'⟩, haccess, hsends⟩ := Option.map_eq_some_iff.1 hsends
  obtain ⟨t, ht, hown⟩ := List.any_eq_true.1 hsends
  obtain ⟨hcaller, hwrite⟩ := Bool.and_eq_true_iff.1 hown
  obtain ⟨p, -, hp, -, -, -, hiff⟩ :=
    writebacks_charge_data_port_iff rfl rfl hrun 1 _ 3 [] c' status
    events' hpromise (System.access_of_accessOf haccess) ⟨t, ht, of_decide_eq_true hcaller, hwrite⟩
  obtain ⟨hcharged, hreported⟩ := hiff.2 ⟨rfl, by simp [wasWritebackSent]⟩
  exact ⟨trace, sys, c', status, events', p, hrun, haccess, hp, hcharged, hreported⟩

/-- A read miss that evicts the same line is charged nothing, and its event has no block. -/
theorem read_miss_charges_nothing :
    (CacheConfig.small 'N' 'B' 'm' 'F' 1 false).Accepted ∧
      ∃ trace sys c' status events' p, System.Run (.dataCache .l1) System.Promise
          (System.init (CacheConfig.small 'N' 'B' 'm' 'F' 1 false) fun _ => MemFetch.load 0) trace
          sys ∧
        sys.Promise (.access 1 (MemFetch.load 128) 3 []) ∧
        sys.accessOf (.dataCache .l1) 1 (MemFetch.load 128) 3 = some (c', status, events') ∧
        sys.QueuesWriteback 1 ⟨c', sys.below⟩ ∧ sys.answer (MemFetch.load 128) = some p ∧
        c'.dataPortOccupiedCycles ≠ sys.cache.dataPortOccupiedCycles +
          (sys.core.lines p.idx).getModifiedSize /
            (CacheConfig.small 'N' 'B' 'm' 'F' 1 false).dataPortWidth ∧
        appendedWritebacks [] events' ≠
          [Cache.writeBackEvent (TagArray.evictedBlockInfo (sys.core.lines p.idx))] := by
  obtain ⟨trace, sys, hrun, hpromise, haccess, hanswer, hsize⟩ : ∃ trace sys,
      System.Run (.dataCache .l1) System.Promise
        (System.init (CacheConfig.small 'N' 'B' 'm' 'F' 1 false) fun _ => MemFetch.load 0)
          trace sys ∧
      sys.Promise (.access 1 (MemFetch.load 128) 3 []) ∧
      (sys.accessOf (.dataCache .l1) 1 (MemFetch.load 128) 3).map (fun r =>
        ((r.1.missQueue.drop sys.core.missQueue.length).any fun t =>
            t ≠ .caller 1 && (r.1.mfs t).isWrite,
          decide (r.1.dataPortOccupiedCycles = sys.cache.dataPortOccupiedCycles),
          (appendedWritebacks [] r.2.2).map fun e => e.evictedBlock.modifiedSize)) =
        some (true, true, [0]) ∧
      (sys.answer (MemFetch.load 128)).map (fun p => p.idx) = some 0 ∧
      (sys.core.lines 0).getModifiedSize = 128 :=
    Runs.exists_run_of_exec [.access 0 (MemFetch.store 0 {0}) 0 [], .cycle false,
      .fill (.created 0) 2] (by decide +kernel)
  obtain ⟨⟨c', status, events'⟩, haccess, hseen⟩ := Option.map_eq_some_iff.1 haccess
  obtain ⟨p, hp, hidx⟩ := Option.map_eq_some_iff.1 hanswer
  obtain ⟨hsends, hseen⟩ := Prod.mk.inj hseen
  obtain ⟨hport, hreported⟩ := Prod.mk.inj hseen
  obtain ⟨t, ht, hown⟩ := List.any_eq_true.1 hsends
  obtain ⟨hcaller, hwrite⟩ := Bool.and_eq_true_iff.1 hown
  rw [← hidx] at hsize
  have haccepted : (CacheConfig.small 'N' 'B' 'm' 'F' 1 false).Accepted :=
    CacheConfig.small_accepted (by decide) false
  refine ⟨haccepted, trace, sys, c', status, events', p, hrun, hpromise, haccess,
    ⟨t, ht, of_decide_eq_true hcaller, hwrite⟩, hp, ?_, fun hreport => ?_⟩
  · have hwidth : (CacheConfig.small 'N' 'B' 'm' 'F' 1 false).dataPortWidth = 32 := by decide
    rw [of_decide_eq_true hport, hsize, hwidth]
    omega
  · rw [hreport] at hreported
    exact absurd (hsize.symm.trans (List.cons.inj hreported).1) (by decide)

end OpenCache
