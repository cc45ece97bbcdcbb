/-
What a write-back carries.

The dirty byte mask of a line only grows: an allocation of a line block keeps it, so that the bytes
of a block that has left go down with the next one, and a fill adds the bytes of its fetch when the
line asks for it.  A history variable splits the mask of each line: the bytes that accepted writes
have written to the block since the line was allocated, and the bytes that were there at the
allocation or have come with a fill.

* `OpenCache.LineAfter.dirtyByteMask` — what an access adds to the dirty bytes of its line;
* `OpenCache.TenancyHistory` — the two parts of the dirty bytes of each line;
* `OpenCache.Explained`, `OpenCache.Explained.step` — **the dirty bytes of a line are the carried
  ones, and written ones**;
* `OpenCache.MemFetch.CarriesDirtyData` — what the write-back of a tenancy has to be;
* `OpenCache.writebacks_belong_to_tenancy_iff` — **a write-back has only bytes of its tenancy
  exactly when the carried ones have all been written, and their size exactly when that is 128**;
* `OpenCache.writeback_carries_previous_tenant` — a run in which they have not.
-/

import OpenCache.Residence
import OpenCache.QueueRoom

set_option relaxedAutoImplicit false
set_option autoImplicit false

namespace OpenCache

variable {cfg : CacheConfig}

/-! ### The dirty bytes of a line -/

namespace CacheBlock

variable {k : CacheType} (b : CacheBlock k)

@[simp] theorem dirtyByteMask_modifySector (i : Fin 4) (f : SectorState → SectorState) :
    (b.modifySector i f).dirtyByteMask = b.dirtyByteMask := rfl

@[simp] theorem dirtyByteMask_marked (m : MemFetch) (i : Fin 4) :
    (b.marked m i).dirtyByteMask = b.dirtyByteMask ∪ m.accessByteMask := rfl

@[simp] theorem dirtyByteMask_writtenOnFill (i : Fin 4) :
    (b.writtenOnFill i).dirtyByteMask = b.dirtyByteMask := rfl

@[simp] theorem dirtyByteMask_readableUpdated (m : MemFetch) (i : Fin 4) :
    (b.readableUpdated m i).dirtyByteMask = b.dirtyByteMask := by
  unfold readableUpdated
  split <;> rfl

@[simp] theorem dirtyByteMask_fullWritten (m : MemFetch) (i : Fin 4) (status : CacheRequestStatus) :
    (b.fullWritten m i status).dirtyByteMask = b.dirtyByteMask ∪ m.accessByteMask := by
  unfold fullWritten
  split <;> rfl

@[simp] theorem dirtyByteMask_lazyWritten (m : MemFetch) (i : Fin 4) (status : CacheRequestStatus)
    (atomSz : ℕ) :
    (b.lazyWritten m i status atomSz).dirtyByteMask = b.dirtyByteMask ∪ m.accessByteMask := by
  unfold lazyWritten
  dsimp only
  rw [dirtyByteMask_readableUpdated]
  by_cases hs : status = .hitReserved
  · rw [if_pos hs]
    split <;> rfl
  · rw [if_neg hs]
    split <;> rfl

/-- A fill adds its bytes when the line asks for it. -/
theorem dirtyByteMask_fill (i : Fin 4) (byteMask : MemAccessByteMask) :
    (b.fill i byteMask).dirtyByteMask =
      if b.setByteMaskOnFill then b.dirtyByteMask ∪ byteMask else b.dirtyByteMask := by
  unfold fill
  dsimp only
  split
  · next hfill => exact (if_pos hfill).symm
  · next hfill => exact (if_neg hfill).symm

/-- A line block has one size, whatever is dirty in it. -/
theorem getModifiedSize_of_normal (hk : k = .normal) :
    b.getModifiedSize = sectorChunckSize * sectorSize := by
  subst hk
  rcases b with ⟨_, _, _, _, _, _, _, _, ⟨s⟩⟩
  rfl

/-- Two states of a line between which it keeps its block and its dirty bytes. -/
structure SameContents (b b' : CacheBlock k) : Prop where
  block : ∀ block, b.BelongsTo block → b'.BelongsTo block
  dirtyByteMask : b'.dirtyByteMask = b.dirtyByteMask

theorem SameContents.refl : b.SameContents b := ⟨fun _ hb => hb, rfl⟩

end CacheBlock

/-- A flush or an invalidation leaves the dirty bytes in the mask. -/
theorem TagArray.dirtyByteMask_invalidateLine (b : CacheBlock cfg.cacheType) :
    (invalidateLine b).dirtyByteMask = b.dirtyByteMask := by
  have hfold : ∀ (js : List (Fin 4)) (b' : CacheBlock cfg.cacheType),
      (js.foldl (fun b i => b.setStatus .invalid i) b').dirtyByteMask = b'.dirtyByteMask := by
    intro js
    induction js with
    | nil => exact fun _ => rfl
    | cons j js ih => exact fun b' => ih (b'.setStatus .invalid j)
  exact hfold (List.finRange 4) b

theorem TagArray.sameContents_flush (ta : TagArray cfg) (i : ℕ) :
    (ta.lines i).SameContents (ta.flush.lines i) := by
  refine ⟨fun _ hb => (SameTenant.flush ta i).belongsTo hb, ?_⟩
  unfold flush
  split
  · dsimp only
    split
    · exact dirtyByteMask_invalidateLine _
    · rfl
  · rfl

theorem TagArray.sameContents_invalidate (ta : TagArray cfg) (i : ℕ) :
    (ta.lines i).SameContents (ta.invalidate.lines i) := by
  refine ⟨fun _ hb => (SameTenant.invalidate ta i).belongsTo hb, ?_⟩
  unfold invalidate
  dsimp only
  split
  · exact dirtyByteMask_invalidateLine _
  · rfl

/-- The return of a request keeps the block and the dirty bytes of a line. -/
theorem Core.sameContents_unpin (s : Core cfg) (mf : Token) (i : ℕ) :
    (s.lines i).SameContents ((s.unpin mf).lines i) := by
  obtain ⟨n, hn⟩ := s.unpin_pins mf i
  rw [hn]
  exact ⟨fun _ hb => hb, rfl⟩

/-- **What an access adds to the dirty bytes of its line**: nothing, or the bytes of the write. -/
theorem LineAfter.dirtyByteMask {c : Cache cfg} {cls : CacheClass} {addr : NewAddrType} {mf : Token}
    {time : Time} {p : ProbeResult} {line : CacheBlock cfg.cacheType}
    (h : LineAfter c cls addr mf time p line) (hk : cfg.cacheType = .normal) :
    line.dirtyByteMask = (c.tagArray.lines p.idx).dirtyByteMask ∨
      (c.mfs mf).isWrite = true ∧ line.dirtyByteMask =
        (c.tagArray.lines p.idx).dirtyByteMask ∪ (c.mfs mf).accessByteMask := by
  cases h with
  | hit _ _ _ heffect =>
      cases heffect with
      | read => exact Or.inl rfl
      | write hwrite => exact Or.inr ⟨hwrite, by simp [CacheBlock.setLastAccessTime]⟩
      | evict => exact Or.inl rfl
  | write _ hwrite _ _ heffect =>
      refine Or.inr ⟨hwrite, ?_⟩
      have htouched := @dirtyByteMask_touched _ c addr time p hk (c.mfs mf)
      rw [← htouched]
      cases heffect with
      | full => simp
      | onRead => simp
  | fetch _ _ _ _ hfetcher =>
      refine Or.inl ?_
      rw [← dirtyByteMask_touched hk]
      cases hfetcher <;> rfl

/-! ### The history variable -/

/-- For each line, since it was allocated: the bytes that accepted writes have written to its block,
and the bytes that were dirty at the allocation or have come with a fill. -/
structure TenancyHistory where
  written : ℕ → MemAccessByteMask
  carried : ℕ → MemAccessByteMask

namespace TenancyHistory

/-- No line has been allocated. -/
def init : TenancyHistory := ⟨fun _ => ∅, fun _ => ∅⟩

/-- The history after an accepted access that the tags answer with `p`.  The access that allocates a
line is the first of its tenancy. -/
def accessed (h : TenancyHistory) (s : Core cfg) (m : MemFetch) (p : ProbeResult) :
    TenancyHistory where
  written i :=
    if takesLine cfg m p.status ∧ i = p.idx then if m.isWrite then m.accessByteMask else ∅
    else if m.isWrite = true ∧ (s.lines i).tag = cfg.blockAddr m.addr then
      h.written i ∪ m.accessByteMask
    else h.written i
  carried i :=
    if takesLine cfg m p.status ∧ i = p.idx then (s.lines i).dirtyByteMask else h.carried i

section Accessed

variable {h : TenancyHistory} {s : Core cfg} {m : MemFetch} {p : ProbeResult} {i : ℕ}

/-- A line that the access takes carries all its dirty bytes into the tenancy. -/
theorem accessed_taken (htakes : takesLine cfg m p.status) :
    (h.accessed s m p).carried p.idx = (s.lines p.idx).dirtyByteMask ∧
      (m.isWrite = true → (h.accessed s m p).written p.idx = m.accessByteMask) :=
  ⟨if_pos ⟨htakes, rfl⟩, fun hwrite => (if_pos ⟨htakes, rfl⟩).trans (if_pos hwrite)⟩

/-- Any other line carries what it has carried, and what was written stays written. -/
theorem accessed_kept (hkeeps : ¬(takesLine cfg m p.status ∧ i = p.idx)) :
    (h.accessed s m p).carried i = h.carried i ∧ h.written i ⊆ (h.accessed s m p).written i := by
  refine ⟨if_neg hkeeps, ?_⟩
  dsimp only [accessed]
  rw [if_neg hkeeps]
  split
  · exact Finset.subset_union_left
  · exact subset_rfl

/-- A write to the block of a line joins its tenancy. -/
theorem accessed_joined (hkeeps : ¬(takesLine cfg m p.status ∧ i = p.idx))
    (hwrite : m.isWrite = true) (htag : (s.lines i).tag = cfg.blockAddr m.addr) :
    (h.accessed s m p).written i = h.written i ∪ m.accessByteMask :=
  (if_neg hkeeps).trans (if_pos ⟨hwrite, htag⟩)

end Accessed

/-- The history after the response to `mf`, which fills its line. -/
def filled (h : TenancyHistory) (s : Core cfg) (mf : Token) (e : ExtraMfFields) :
    TenancyHistory where
  written := h.written
  carried i :=
    if i = e.cacheIndex ∧ (s.lines i).setByteMaskOnFill = true then
      h.carried i ∪ (s.mfs mf).accessByteMask
    else h.carried i

/-- The history after a call. -/
def note (h : TenancyHistory) (sys : System cfg) (_ : Op) (sys' : System cfg) :
    Obs → TenancyHistory
  | .access _ m status _ =>
      match status, sys.answer m with
      | .reservationFail, _ => h
      | _, none => h
      | _, some p => h.accessed sys.core m p
  | .fill mf =>
      match sys'.core.extra.lookup mf, sys.core.extra.lookup mf with
      | none, some e => h.filled sys.core mf e
      | _, _ => h
  | _ => h

end TenancyHistory

/-- The runs of a cache with the history of the tenancies of its lines. -/
abbrev System.TenancyRun (cls : CacheClass) (promise : System cfg → Op → Prop) :
    System cfg × TenancyHistory → List Obs → System cfg × TenancyHistory → Prop :=
  Runs.Run (Runs.withHistory (System.perform cls) TenancyHistory.note) fun s => promise s.1

/-- Every dirty byte of a line was carried into its tenancy or written in it, and the carried ones
are still dirty. -/
structure Explained (h : TenancyHistory) (s : Core cfg) : Prop where
  tagged : Tagged s
  carried : ∀ i, h.carried i ⊆ (s.lines i).dirtyByteMask
  dirty : ∀ i, (s.lines i).dirtyByteMask ⊆ h.carried i ∪ h.written i

namespace Explained

variable {h : TenancyHistory}

/-- Nothing changes but pins and states. -/
theorem of_same {s s' : Core cfg} (hexp : Explained h s)
    (hlines : ∀ i, (s.lines i).SameContents (s'.lines i)) : Explained h s' where
  tagged i := by
    have hline := (hlines i).block _ (hexp.tagged i)
    rwa [← hline.1] at hline
  carried i := by
    rw [(hlines i).dirtyByteMask]
    exact hexp.carried i
  dirty i := by
    rw [(hlines i).dirtyByteMask]
    exact hexp.dirty i

/-- An accepted access: it starts a tenancy, or its write joins one. -/
theorem access {c : Cache cfg} {cls : CacheClass} {mf : Token} {time : Time}
    {status : CacheRequestStatus} {s' : Core cfg} {p : ProbeResult} (hexp : Explained h c.core)
    (hk : cfg.cacheType = .normal) (hon : cfg.allocPolicy = .onMiss)
    (hp : c.Probes (c.mfs mf).addr (c.mfs mf) p)
    (hcase : AccessCase c cls (c.mfs mf).addr mf time status s') :
    Explained (h.accessed c.core (c.mfs mf) p) s' := by
  have htagged' := hexp.tagged.access hon hcase
  -- a line that the access leaves alone
  have hsame : ∀ i, (s'.lines i).dirtyByteMask = (c.core.lines i).dirtyByteMask →
      (h.accessed c.core (c.mfs mf) p).carried i ⊆ (s'.lines i).dirtyByteMask ∧
        (s'.lines i).dirtyByteMask ⊆ (h.accessed c.core (c.mfs mf) p).carried i ∪
          (h.accessed c.core (c.mfs mf) p).written i := by
    intro i hi
    rw [hi]
    by_cases htakes : takesLine cfg (c.mfs mf) p.status ∧ i = p.idx
    · obtain ⟨htakes, rfl⟩ := htakes
      rw [(TenancyHistory.accessed_taken htakes).1]
      exact ⟨subset_rfl, Finset.subset_union_left⟩
    · obtain ⟨hcarried, hwritten⟩ := @TenancyHistory.accessed_kept _ h c.core _ _ _ htakes
      rw [hcarried]
      exact ⟨hexp.carried i, (hexp.dirty i).trans (Finset.union_subset_union_right hwritten)⟩
  have hlines : ∀ i, (h.accessed c.core (c.mfs mf) p).carried i ⊆ (s'.lines i).dirtyByteMask ∧
      (s'.lines i).dirtyByteMask ⊆ (h.accessed c.core (c.mfs mf) p).carried i ∪
        (h.accessed c.core (c.mfs mf) p).written i := by
    rcases hcase.line_after with ⟨hlines, -⟩ | ⟨q, line, hq, hline, hlines⟩
    · exact fun i => hsame i (by rw [hlines]; rfl)
    · obtain rfl : q = p := Except.ok.inj (hq.symm.trans hp)
      have hother : ∀ i ≠ q.idx, s'.lines i = c.core.lines i := by
        intro i hi
        rcases hlines with hlines | hlines <;>
          · rw [hlines, Function.update_of_ne hi]
            rfl
      have hself : (s'.lines q.idx).dirtyByteMask = line.dirtyByteMask := by
        rcases hlines with hlines | hlines
        · rw [hlines, Function.update_self]
        · rw [hlines, Function.update_self]
          rfl
      intro i
      by_cases hi : i = q.idx
      · subst hi
        rcases hline.dirtyByteMask hk with hdirty | ⟨hwrite, hdirty⟩
        · exact hsame q.idx (hself.trans hdirty)
        · rw [hself, hdirty]
          by_cases htakes : takesLine cfg (c.mfs mf) q.status
          · obtain ⟨hcarried, hwritten⟩ :=
              @TenancyHistory.accessed_taken _ h c.core (c.mfs mf) q htakes
            rw [hcarried, hwritten hwrite]
            exact ⟨Finset.subset_union_left, subset_rfl⟩
          · -- a line that is not taken was found, and the write is to its block
            have hfound := hline.found fun hmiss => htakes (hline.takesLine hon hmiss)
            have htag : (c.core.lines q.idx).tag = cfg.blockAddr (c.mfs mf).addr :=
              (hq.holds hfound).1
            have hkeeps := not_and_of_not_left (q.idx = q.idx) htakes
            rw [(TenancyHistory.accessed_kept hkeeps).1,
              TenancyHistory.accessed_joined hkeeps hwrite htag, ← Finset.union_assoc]
            exact ⟨(hexp.carried q.idx).trans Finset.subset_union_left,
              Finset.union_subset_union_left (hexp.dirty q.idx)⟩
      · exact hsame i (by rw [hother i hi])
  exact ⟨htagged', fun i => (hlines i).1, fun i => (hlines i).2⟩

/-- The response to a fetch: its bytes are carried into the tenancy if they become dirty. -/
theorem complete {s s' : Core cfg} {mf : Token} {e : ExtraMfFields} (hexp : Explained h s)
    (hdone : Completed s s' mf e) : Explained (h.filled s mf e) s' := by
  have hlines : ∀ i, (h.filled s mf e).carried i ⊆ (s'.lines i).dirtyByteMask ∧
      (s'.lines i).dirtyByteMask ⊆ (h.filled s mf e).carried i ∪ (h.filled s mf e).written i := by
    intro i
    dsimp only [TenancyHistory.filled]
    rw [hdone.lines]
    by_cases hi : i = e.cacheIndex
    · subst hi
      rw [Function.update_self, CacheBlock.dirtyByteMask_fill]
      by_cases hfill : (s.lines e.cacheIndex).setByteMaskOnFill = true
      · simp only [hfill, and_self, if_true, Finset.union_right_comm]
        exact ⟨Finset.union_subset_union_left (hexp.carried _),
          Finset.union_subset_union_left (hexp.dirty _)⟩
      · simp only [hfill]
        exact ⟨hexp.carried _, hexp.dirty _⟩
    · rw [Function.update_of_ne hi]
      simp only [hi, false_and, if_false]
      exact ⟨hexp.carried i, hexp.dirty i⟩
  refine ⟨hexp.tagged.of_sameTenant fun i => ?_, fun i => (hlines i).1, fun i => (hlines i).2⟩
  rw [hdone.lines]
  by_cases hi : i = e.cacheIndex
  · subst hi
    rw [Function.update_self]
    exact .fill _ _ _
  · rw [Function.update_of_ne hi]
    exact .refl _

variable {sys sys' : System cfg} {cls : CacheClass} {o : Op} {b : Obs}

/-- **One step keeps the dirty bytes explained.** -/
theorem step (hexp : Explained h sys.core) (hk : cfg.cacheType = .normal)
    (hon : cfg.allocPolicy = .onMiss) (htracked : Tracked sys.core sys.sent)
    (hpromise : sys.Promise o) (hperform : sys.perform cls o = .ok (sys', b)) :
    Explained (h.note sys o sys' b) sys'.core := by
  cases System.step_cases hpromise.suits hperform with
  | access n m time events status hcase hbelow =>
      have hm := sys.build_mfs_caller n m
      have hbuilt : Explained h (sys.build n m).core :=
        hexp.of_same fun i => ⟨fun _ hb => hb, rfl⟩
      by_cases hrefused : status = .reservationFail
      · subst hrefused
        rw [hcase.refused_eq]
        exact hbuilt
      · obtain ⟨p, hp⟩ := hcase.probes hrefused
        rw [hm] at hp
        have hstep := hbuilt.access hk hon (by rwa [hm]) (System.access_of_build hcase)
        rw [hm] at hstep
        have hnote : h.note sys (.access n m time events) sys' (.access (.caller n) m status
            (System.joined sys.core sys'.core (cfg.mshrAddr m.addr))) =
            h.accessed (sys.build n m).core m p := by
          simp only [TenancyHistory.note, (System.answer_eq_some n).2 hp]
          rfl
        rw [hnote]
        exact hstep
  | tick memportFull waiting done htick hcore hbelow =>
      rw [hcore]
      exact hexp.of_same fun i => .refl _
  | push memportFull waiting done htick mf rest hqueue hcore hbelow =>
      rw [hcore]
      exact hexp.of_same fun i => .refl _
  | wait n m time original horiginal e pendingRead he hcore hbelow =>
      have hwaits : sys'.core.extra.lookup original = some { e with pendingRead } := by
        rw [hcore]
        exact AList.lookup_insert _
      simp only [TenancyHistory.note, hwaits]
      rw [hcore]
      exact hexp.of_same fun i => .refl _
  | complete o c mf time horigin e he hentry lines hfill hcore hbelow =>
      have hdone := System.completed hon htracked hpromise horigin he hfill hcore
      have hgone : sys'.core.extra.lookup mf = none := by
        rw [hdone.extra, AList.lookup_erase]
      simp only [TenancyHistory.note, hgone, he]
      exact hexp.complete hdone
  | ready mf rest hqueue hpinned hcore hbelow =>
      rw [hcore]
      exact hexp.of_same fun i =>
        ({ sys.core with readyQueue := rest } : Core cfg).sameContents_unpin mf i
  | deliver mf a rest addresses hready hanswered hentry hpinned hcore hbelow =>
      have hlines : (sys.core.deliver a rest).lines = sys.core.lines := by
        unfold Core.deliver
        split <;> rfl
      rw [hcore]
      refine hexp.of_same fun i => ?_
      rw [← hlines]
      exact Core.sameContents_unpin _ mf i
  | flush hcore hbelow =>
      rw [hcore]
      exact hexp.of_same fun i => sys.cache.tagArray.sameContents_flush i
  | invalidate hcore hbelow =>
      rw [hcore]
      exact hexp.of_same fun i => sys.cache.tagArray.sameContents_invalidate i
  | retire mf hcore hbelow =>
      rw [hcore]
      exact hexp

end Explained

/-! ### Write-backs -/

/-- The last request that an access has put into the miss queue. -/
def System.lastSent (sys sys' : System cfg) : Option MemFetch :=
  (sys'.core.missQueue.drop sys.core.missQueue.length).getLast?.map sys'.core.mfs

/-- **The write-back of a victim** is the last request that the access queues, and it has the dirty
bytes of the victim. -/
theorem System.lastSent_of_evicts {sys sys' : System cfg} {types : DataCacheTypes} {n : ℕ}
    {m : MemFetch} {time : Time} {status : CacheRequestStatus} {p : ProbeResult}
    (hback : cfg.writePolicy = .writeBack)
    (hcase : AccessCase (sys.build n m) (.dataCache types) m.addr (.caller n) time status sys'.core)
    (haccept : status ≠ .reservationFail) (hp : sys.answer m = some p)
    (htakes : takesLine cfg m p.status)
    (hmodified : (sys.core.lines p.idx).isModifiedLine = true) :
    sys.lastSent sys' = some (MemFetch.new types.wrbkType (sys.core.lines p.idx).blockAddr
      (sys.core.lines p.idx).getModifiedSize true (sys.core.lines p.idx).dirtyByteMask
      (sys.core.lines p.idx).getDirtySectorMask m.streamID none none) := by
  have hm := sys.build_mfs_caller n m
  obtain ⟨q, fetch, writeback, hq, hqueued⟩ := hcase.queuesOwed (by simp) haccept
  rw [hm] at hq
  obtain rfl : q = p := Option.some_inj.1 (((System.answer_eq_some n).2 hq).symm.trans hp)
  obtain ⟨hmiss, hon, hallocates⟩ := htakes
  have howed : (sys.build n m).owedWriteback (.dataCache types) m q =
      some (MemFetch.new types.wrbkType (sys.core.lines q.idx).blockAddr
        (sys.core.lines q.idx).getModifiedSize true (sys.core.lines q.idx).dirtyByteMask
        (sys.core.lines q.idx).getDirtySectorMask m.streamID none none) := by
    have hforward : ¬(m.isWrite = true ∧ cfg.writeAllocPolicy = .noWriteAllocate) :=
      fun h => hallocates h.1 h.2
    have hevicts : TagArray.evictedBy cfg q.status (sys.core.lines q.idx) =
        some (TagArray.evictedBlockInfo (sys.core.lines q.idx)) := if_pos ⟨hmiss, hon, hmodified⟩
    rw [Cache.owedWriteback, if_neg hforward, writebackOf, if_neg (by simp [hback])]
    exact congrArg (Option.map _) hevicts
  have hwriteback := hqueued.writeback_request
  rw [hm, howed] at hwriteback
  obtain ⟨t, rfl, hrequest⟩ := Option.map_eq_some_iff.1 hwriteback
  have hdrop : (sys'.core.missQueue.drop sys.core.missQueue.length).getLast? = some t := by
    rw [hqueued.queue, List.append_assoc, List.append_assoc]
    change (List.drop sys.core.missQueue.length (sys.core.missQueue ++ _)).getLast? = some t
    rw [List.drop_left, ← List.append_assoc]
    exact List.getLast?_concat
  rw [System.lastSent, hdrop, Option.map_some, hrequest]

/-- A write-back carries the dirty data of its tenancy: bytes that were written in it, and as many
as the dirty data has, within the size of a line. -/
def MemFetch.CarriesDirtyData (w : MemFetch) (written : MemAccessByteMask) (dirtySize lineSz : ℕ) :
    Prop :=
  w.accessByteMask ⊆ written ∧ w.dataSize = dirtySize ∧ w.dataSize ≤ lineSz

section Run

variable {cls : CacheClass} {mfs : Token → MemFetch} {trace : List Obs}
  {s : System cfg × TenancyHistory}

/-- The dirty bytes of every line are explained in every run. -/
theorem explained_of_run (hk : cfg.cacheType = .normal) (hon : cfg.allocPolicy = .onMiss)
    (hrun : System.TenancyRun cls System.Promise (System.init cfg mfs, .init) trace s) :
    Explained s.2 s.1.core := by
  refine (hrun.reachable_invariant (fun _ s => Explained s.2 s.1.core) ?_ ?_)
  · exact ⟨(Resident.init mfs).tagged, fun _ => subset_rfl, fun _ => Finset.empty_subset _⟩
  · rintro trace ⟨sys, h⟩ o ⟨sys', h'⟩ b hrun hexp hpromise hstep
    obtain ⟨hperform, rfl⟩ := Runs.withHistory_eq_ok.1 hstep
    have htracked : Tracked sys.core sys.sent :=
      .of_run ((hrun.forget fun _ _ hp => hp).mono fun _ _ hp => hp.answers)
    exact hexp.step hk hon htracked hpromise hperform

/-- **A write-back belongs to the tenancy of its line**: when an access evicts a `MODIFIED` line, it
queues a write-back to the block of the line, and the bytes of that were all written by accepted
writes to the block since the line was allocated exactly when these writes have covered what
the line has carried.  Its size is the constant of `get_modified_size`.  So it has the size of
the dirty data exactly when a line has that size, if the dirty data of a line block is the
line, and exactly when all bytes of the mask are dirty and a line has room for them, if it is
the bytes of the mask. -/
theorem writebacks_belong_to_tenancy_iff {types : DataCacheTypes} (hk : cfg.cacheType = .normal)
    (hback : cfg.writePolicy = .writeBack) (hon : cfg.allocPolicy = .onMiss)
    (hrun : System.TenancyRun (.dataCache types) System.Promise (System.init cfg mfs, .init)
      trace s) :
    ∀ n m time events sys' status joined p, s.1.Promise (.access n m time events) →
      s.1.perform (.dataCache types) (.access n m time events) =
        .ok (sys', .access (.caller n) m status joined) →
      status ≠ .reservationFail → s.1.answer m = some p → takesLine cfg m p.status →
      (s.1.core.lines p.idx).isModifiedLine = true →
      ∃ w, s.1.lastSent sys' = some w ∧ w.isWrite = true ∧ w.accessType = types.wrbkType ∧
        w.addr = (s.1.core.lines p.idx).tag ∧
        (w.CarriesDirtyData (s.2.written p.idx) cfg.lineSz cfg.lineSz ↔
          s.2.carried p.idx ⊆ s.2.written p.idx ∧ cfg.lineSz = 128) ∧
        (w.CarriesDirtyData (s.2.written p.idx) w.accessByteMask.card cfg.lineSz ↔
          s.2.carried p.idx ⊆ s.2.written p.idx ∧
            (s.1.core.lines p.idx).dirtyByteMask = Finset.univ ∧ 128 ≤ cfg.lineSz) := by
  intro n m time events sys' status joined p hpromise hperform haccept hp htakes hmodified
  have hexp := explained_of_run hk hon hrun
  cases System.step_cases hpromise.suits hperform with
  | access _ _ _ _ _ hcase hbelow =>
      refine ⟨_, System.lastSent_of_evicts hback hcase haccept hp htakes hmodified, rfl, rfl,
        (hexp.tagged p.idx).2, ?_⟩
      have hsize : (s.1.core.lines p.idx).getModifiedSize = 128 :=
        CacheBlock.getModifiedSize_of_normal _ hk
      have hmask : (s.1.core.lines p.idx).dirtyByteMask ⊆ s.2.written p.idx ↔
          s.2.carried p.idx ⊆ s.2.written p.idx :=
        ⟨(hexp.carried p.idx).trans, fun hcovered =>
          (hexp.dirty p.idx).trans (Finset.union_subset hcovered subset_rfl)⟩
      have hall : (s.1.core.lines p.idx).dirtyByteMask = Finset.univ ↔
          128 = (s.1.core.lines p.idx).dirtyByteMask.card := by
        rw [← Finset.card_eq_iff_eq_univ, Fintype.card_fin]
        exact eq_comm
      constructor
      · simp only [MemFetch.CarriesDirtyData, MemFetch.new, hsize, hmask]
        exact and_congr_right fun _ => ⟨fun h => h.1.symm, fun h => ⟨h.symm, h.ge⟩⟩
      · simp only [MemFetch.CarriesDirtyData, MemFetch.new, hsize, hmask, hall]

end Run

/-- The byte of a partial write goes down with the first tenant of a line: it was written, and has
come with the fill as well. -/
theorem writebacks_belong_to_tenancy_iff_first_tenant :
    ∃ trace s sys' p w, System.TenancyRun (.dataCache .l1) System.Promise
        (System.init (CacheConfig.small 'N' 'B' 'm' 'F' 1 false) fun _ => MemFetch.load 0, .init)
          trace s ∧
      s.1.answer (MemFetch.load 128) = some p ∧ s.2.carried p.idx = {0} ∧
      s.1.lastSent sys' = some w ∧ w.addr = 0 ∧
      w.CarriesDirtyData (s.2.written p.idx) 128 128 := by
  obtain ⟨trace, s, hrun, ⟨hpromise, hmiss⟩, hanswer, ⟨hmodified, htag⟩, hcarried, hwritten⟩ :
      ∃ trace s, System.TenancyRun (.dataCache .l1) System.Promise
          (System.init (CacheConfig.small 'N' 'B' 'm' 'F' 1 false) fun _ => MemFetch.load 0, .init)
            trace s ∧
        (s.1.Promise (.access 1 (MemFetch.load 128) 3 []) ∧
          s.1.statusOf (.dataCache .l1) 1 (MemFetch.load 128) 3 = some .miss) ∧
        (s.1.answer (MemFetch.load 128)).map (fun p => (p.status, p.idx)) = some (.miss, 0) ∧
        ((s.1.core.lines 0).isModifiedLine = true ∧ (s.1.core.lines 0).tag = 0) ∧
        s.2.carried 0 = {0} ∧ 0 ∈ s.2.written 0 :=
    Runs.exists_run_of_exec [.access 0 (MemFetch.store 0 {0}) 0 [], .cycle false,
      .fill (.created 0) 2] (by decide +kernel)
  obtain ⟨sys', joined, hperform⟩ := System.perform_of_statusOf hmiss
  obtain ⟨p, hp, hpair⟩ := Option.map_eq_some_iff.1 hanswer
  obtain ⟨hstatus, hidx⟩ := Prod.mk.inj hpair
  rw [← hidx] at hmodified htag hcarried hwritten
  have htakes : takesLine (CacheConfig.small 'N' 'B' 'm' 'F' 1 false)
      (MemFetch.load 128) p.status := by
    rw [hstatus]
    decide
  obtain ⟨w, hw, -, -, haddr, hline, -⟩ :=
    writebacks_belong_to_tenancy_iff rfl rfl rfl hrun _ _ _ _ _
    _ _ p hpromise hperform (by decide) hp htakes hmodified
  have hdata := hline.2 ⟨by rwa [hcarried, Finset.singleton_subset_iff], by decide⟩
  exact ⟨trace, s, sys', p, w, hrun, hp, hcarried, hw, haddr.trans htag, hdata⟩

/-- The second tenant of a line has one byte written, and its write-back has the byte of the first
tenant too. -/
theorem writeback_carries_previous_tenant :
    (CacheConfig.small 'N' 'B' 'm' 'F' 1 false).Accepted ∧
      ∃ trace s sys' joined p w, System.TenancyRun (.dataCache .l1)
          (fun sys o => sys.Promise o ∧ o.clears = false)
          (System.init (CacheConfig.small 'N' 'B' 'm' 'F' 1 false) fun _ => MemFetch.load 0, .init)
            trace s ∧
        s.1.Promise (.access 3 (MemFetch.load 256) 8 []) ∧
        s.1.perform (.dataCache .l1) (.access 3 (MemFetch.load 256) 8 []) =
          .ok (sys', .access (.caller 3) (MemFetch.load 256) .miss joined) ∧
        s.1.answer (MemFetch.load 256) = some p ∧ p.status = .miss ∧
        (s.1.core.lines p.idx).isModifiedLine = true ∧ s.1.lastSent sys' = some w ∧
        w.isWrite = true ∧ w.addr = 128 ∧ 0 ∈ w.accessByteMask ∧ 0 ∉ s.2.written p.idx := by
  refine ⟨CacheConfig.small_accepted (by decide) false, ?_⟩
  obtain ⟨trace, s, hrun, ⟨hpromise, hmiss⟩, hanswer, ⟨hmodified, hblock⟩, hdirty, hunwritten⟩ :
      ∃ trace s, System.TenancyRun (.dataCache .l1)
          (fun sys o => sys.Promise o ∧ o.clears = false)
          (System.init (CacheConfig.small 'N' 'B' 'm' 'F' 1 false) fun _ => MemFetch.load 0, .init)
            trace s ∧
        (s.1.Promise (.access 3 (MemFetch.load 256) 8 []) ∧
          s.1.statusOf (.dataCache .l1) 3 (MemFetch.load 256) 8 = some .miss) ∧
        (s.1.answer (MemFetch.load 256)).map (fun p => (p.status, p.idx)) = some (.miss, 0) ∧
        ((s.1.core.lines 0).isModifiedLine = true ∧ (s.1.core.lines 0).blockAddr = 128) ∧
        0 ∈ (s.1.core.lines 0).dirtyByteMask ∧ 0 ∉ s.2.written 0 :=
    Runs.exists_run_of_exec [.access 0 (MemFetch.store 0 {0}) 0 [], .cycle false,
      .fill (.created 0) 2, .access 1 (MemFetch.load 128) 3 [], .cycle false, .fill (.caller 1) 5,
      .access 2 (MemFetch.store 128 {5}) 6 []] (by decide +kernel)
  obtain ⟨sys', joined, hperform⟩ := System.perform_of_statusOf hmiss
  obtain ⟨p, hp, hpair⟩ := Option.map_eq_some_iff.1 hanswer
  obtain ⟨hstatus, hidx⟩ := Prod.mk.inj hpair
  rw [← hidx] at hmodified hblock hdirty hunwritten
  have htakes : takesLine (CacheConfig.small 'N' 'B' 'm' 'F' 1 false)
      (MemFetch.load 256) p.status := by
    rw [hstatus]
    decide
  have hsent : s.1.lastSent sys' = some (MemFetch.new DataCacheTypes.l1.wrbkType
      (s.1.core.lines p.idx).blockAddr (s.1.core.lines p.idx).getModifiedSize true
      (s.1.core.lines p.idx).dirtyByteMask (s.1.core.lines p.idx).getDirtySectorMask
      (MemFetch.load 256).streamID none none) := by
    cases System.step_cases hpromise.suits hperform with
    | access _ _ _ _ _ hcase hbelow =>
        exact System.lastSent_of_evicts rfl hcase (by decide) hp htakes hmodified
  exact ⟨trace, s, sys', joined, p, _, hrun, hpromise, hperform, hp, hstatus, hmodified, hsent, rfl,
    hblock, hdirty, hunwritten⟩

end OpenCache
