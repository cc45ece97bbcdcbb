/-
The watermarks that `queue_watermarks` reports.

Each field of the report names a level, and is meant to be the greatest value of the level in any
state so far.  The levels of the MSHR table and the sizes of the texture FIFOs are recorded whenever
they rise.  The queues and maps of a baseline cache are measured only when `queue_watermarks` is
called; a line forgets its record when it is allocated; and two of the records are never written.

* `OpenCache.QueueWatermarks`, `OpenCache.Watched.queueWatermarks` — the report of a baseline cache;
* `OpenCache.TexCache.queueWatermarks` — the report of a texture cache;
* `OpenCache.MshrTable.Records` — the MSHR table records a level when it rises;
* `OpenCache.System.StepCase.line_records` — what a line records in a step;
* `OpenCache.Watched.Faithful`, `OpenCache.TexSystem.Faithful` — what the records are in any run;
* `OpenCache.watermarks_exact_iff` — **the reports are true maxima** if and only if the peaks of a
  baseline cache were seen and not forgotten, and two levels have stayed at zero.
-/

import OpenCache.Bookkeeping
import OpenCache.Peaks
import OpenCache.Texture

set_option relaxedAutoImplicit false
set_option autoImplicit false

namespace OpenCache

open Peaks (peak since)

/-! ### The MSHR table -/

/-- The greatest number of requests in one entry. -/
def MshrData.depth (d : MshrData) : ℕ := peak (fun e => e.2.length) d.entries

theorem MshrData.depth_insert (d : MshrData) (a : NewAddrType) (list : List Token) :
    MshrData.depth (d.insert a list) = max list.length (MshrData.depth (d.erase a)) := by
  rw [depth, AList.entries_insert]
  rfl

theorem MshrData.depth_of_lookup {d : MshrData} {a : NewAddrType} {list : List Token}
    (h : d.lookup a = some list) :
    MshrData.depth d = max list.length (MshrData.depth (d.erase a)) := by
  rw [depth, Peaks.peak_perm (AList.entries_perm_of_lookup h)]
  rfl

theorem MshrData.depth_erase_le (d : MshrData) (a : NewAddrType) :
    MshrData.depth (d.erase a) ≤ MshrData.depth d :=
  Peaks.peak_mono fun _ he => (List.kerase_sublist a d.entries).subset he

namespace MshrTable

variable {numEntries maxMerged : ℕ} {t t' : MshrTable numEntries maxMerged}

/-- A step after which the table has recorded the numbers of its entries and of their requests. -/
structure Records (t t' : MshrTable numEntries maxMerged) : Prop where
  entries : t'.maxEntriesSeen = max t.maxEntriesSeen t'.data.entries.length
  merged : t'.maxMergedSeen = max t.maxMergedSeen (MshrData.depth t'.data)
  ready : t'.maxReadySeen = t.maxReadySeen

/-- The records are not below the levels. -/
structure Recorded (t : MshrTable numEntries maxMerged) : Prop where
  entries : t.data.entries.length ≤ t.maxEntriesSeen
  merged : MshrData.depth t.data ≤ t.maxMergedSeen

/-- A table whose levels do not rise has nothing to record. -/
theorem Recorded.records (h : t.Recorded) (hlength : t'.data.entries.length ≤ t.data.entries.length)
    (hdepth : MshrData.depth t'.data ≤ MshrData.depth t.data)
    (hentries : t'.maxEntriesSeen = t.maxEntriesSeen) (hmerged : t'.maxMergedSeen = t.maxMergedSeen)
    (hready : t'.maxReadySeen = t.maxReadySeen) : Records t t' where
  entries := by rw [hentries, max_eq_left (hlength.trans h.entries)]
  merged := by rw [hmerged, max_eq_left (hdepth.trans h.merged)]
  ready := hready

theorem Recorded.add (h : t.Recorded) {a : NewAddrType} {mf : Token}
    (hadd : t.add a mf = .ok t') : Records t t' := by
  obtain ⟨_, -, hadd⟩ := bind_eq_ok.1 hadd
  obtain ⟨_, -, hadd⟩ := bind_eq_ok.1 hadd
  cases hadd
  refine ⟨rfl, ?_, rfl⟩
  have hrest : MshrData.depth (t.data.erase a) ≤ t.maxMergedSeen :=
    (MshrData.depth_erase_le t.data a).trans h.merged
  dsimp only
  rw [MshrData.depth_insert]
  omega

theorem Recorded.markReady (h : t.Recorded) {a : NewAddrType} (hready : t.markReady a = .ok t') :
    Records t t' := by
  obtain ⟨_, -, hready⟩ := bind_eq_ok.1 hready
  obtain ⟨_, -, hready⟩ := bind_eq_ok.1 hready
  cases hready
  exact h.records le_rfl le_rfl rfl rfl rfl

theorem Recorded.nextAccess (h : t.Recorded) {mf : Token} (hnext : t.nextAccess = .ok (t', mf)) :
    Records t t' := by
  obtain ⟨a, others, rest, -, hlookup, hor⟩ := nextAccess_eq_ok hnext
  have hmax : t'.maxEntriesSeen = t.maxEntriesSeen ∧ t'.maxMergedSeen = t.maxMergedSeen ∧
      t'.maxReadySeen = t.maxReadySeen := by
    unfold MshrTable.nextAccess at hnext
    split at hnext
    · cases hnext
    · split at hnext
      · cases hnext
      · split at hnext <;> cases hnext <;> exact ⟨rfl, rfl, rfl⟩
  have hlength := AList.length_erase_of_lookup hlookup
  have hdepth := MshrData.depth_of_lookup hlookup
  rcases hor with ⟨-, hdata, -⟩ | ⟨-, hdata, -⟩
  · refine h.records ?_ ?_ hmax.1 hmax.2.1 hmax.2.2
    · rw [hdata]
      omega
    · rw [hdata]
      exact MshrData.depth_erase_le t.data a
  · refine h.records ?_ ?_ hmax.1 hmax.2.1 hmax.2.2
    · rw [hdata, AList.entries_insert]
      exact hlength.ge
    · rw [hdata, MshrData.depth_insert, hdepth, List.length_cons]
      omega

/-- Nothing changes. -/
theorem Recorded.refl (h : t.Recorded) : Records t t := h.records le_rfl le_rfl rfl rfl rfl

end MshrTable

/-- Every call leaves the MSHR table with its levels recorded. -/
theorem System.perform_records {cfg : CacheConfig} {cls : CacheClass}
    {sys sys' : System cfg} {o : Op}
    {b : Obs} (h : sys.cache.mshrs.Recorded) (hperform : sys.perform cls o = .ok (sys', b)) :
    MshrTable.Records sys.cache.mshrs sys'.cache.mshrs := by
  have hfill : ∀ {c c' : Cache cfg} {mf : Token} {time : Time}, c.mshrs = sys.cache.mshrs →
      c.fill mf time = .ok c' → MshrTable.Records sys.cache.mshrs c'.mshrs := by
    intro c c' mf time hc hfill
    rcases Cache.fill_mshrs hfill with hsame | ⟨a, hready⟩
    · rw [hsame, hc]
      exact h.refl
    · rw [hc] at hready
      exact h.markReady hready
  cases o with
  | access n m time events =>
      obtain ⟨⟨c, status, events'⟩, haccess, hperform⟩ := bind_eq_ok.1 hperform
      cases hperform
      rcases Cache.access_mshrs haccess with hsame | ⟨a, t, hadd⟩
      · rw [hsame]
        exact h.refl
      · exact h.add hadd
  | cycle memportFull =>
      obtain ⟨⟨c, pushed⟩, hcycle, hperform⟩ := bind_eq_ok.1 hperform
      cases hperform
      rw [Cache.cycle_mshrs hcycle]
      exact h.refl
  | fill mf time =>
      obtain ⟨c, hc, hperform⟩ := bind_eq_ok.1 hperform
      cases hperform
      exact hfill rfl hc
  | fillChild n m time =>
      obtain ⟨c, hc, hperform⟩ := bind_eq_ok.1 hperform
      cases ho : m.originalMf with
      | none => simp [ho] at hperform
      | some original =>
          simp only [ho] at hperform
          cases hperform
          exact hfill (c := sys.build n m) rfl hc
  | nextAccess =>
      obtain ⟨⟨c, mf⟩, hnext, hperform⟩ := bind_eq_ok.1 hperform
      cases hperform
      rcases Cache.nextAccess_mshrs hnext with hsame | ⟨t, hnext⟩
      · rw [hsame]
        exact h.refl
      · exact h.nextAccess hnext
  | flush =>
      cases hperform
      exact h.refl
  | invalidate =>
      cases hperform
      exact h.refl
  | retire mf =>
      cases hperform
      exact h.refl

/-! ### The lines -/

/-- The line that the search for a block finds free for it, if the block is not there. -/
def TagArray.victim {cfg : CacheConfig} (ta : TagArray cfg) (addr : NewAddrType) (idx : ℕ)
    (mask : MemAccessSectorMask) (isWrite : Bool) : Option ℕ :=
  match ta.probe addr idx mask isWrite with
  | .ok p => if p.status = .miss then some p.idx else none
  | .error _ => none

theorem TagArray.victim_of_probe {cfg : CacheConfig} {ta : TagArray cfg}
    {addr : NewAddrType} {idx : ℕ} {mask : MemAccessSectorMask} {isWrite : Bool} {p : ProbeResult}
    (hp : ta.probe addr idx mask isWrite = .ok p) :
    ta.victim addr idx mask isWrite = if p.status = .miss then some p.idx else none := by
  rw [victim, hp]

/-- The line that a step allocates: an accepted miss in a cache that allocates on misses, except for
a write that does not allocate, or a complete response in a cache that allocates on fills. -/
def System.taken {cfg : CacheConfig} (sys sys' : System cfg) : Obs → Option ℕ
  | .access _ m status _ =>
      if status = .reservationFail ∨ cfg.allocPolicy ≠ .onMiss ∨
          m.isWrite = true ∧ cfg.writeAllocPolicy = .noWriteAllocate then none
      else sys.cache.tagArray.victim (cfg.blockAddr m.addr)
        Cache.noIndex m.accessSectorMask m.isWrite
  | .fill mf =>
      if cfg.allocPolicy ≠ .onFill ∨ sys'.cache.waitingForFill mf = true then none
      else
        match sys.cache.extraMfFields.lookup mf with
        | none => none
        | some e => sys.cache.tagArray.victim e.blockAddr 0 (sys'.cache.mfs mf).accessSectorMask
            (sys'.cache.mfs mf).isWrite
  | _ => none

namespace CacheBlock

variable {k : CacheType}

/-- What a line has recorded after a step that has allocated it, or not. -/
def Records (allocated : Prop) [Decidable allocated] (b b' : CacheBlock k) : Prop :=
  b'.maxPendingResponseCount =
    if allocated then b'.pendingResponseCount
    else max b.maxPendingResponseCount b'.pendingResponseCount

/-- The record is not below the count. -/
def Recorded (b : CacheBlock k) : Prop := b.pendingResponseCount ≤ b.maxPendingResponseCount

variable {allocated : Prop} [Decidable allocated] {b b₁ b' : CacheBlock k}

/-- Between the line that an access finds or takes and the line that it leaves, there may be one
pin. -/
def PerhapsPinned (b b' : CacheBlock k) : Prop := SameTenant b b' ∨ SameTenant b.pin b'

/-- A line that keeps its tenant records a pin. -/
theorem Recorded.records (h : b.Recorded) (hnot : ¬allocated) (hsame : SameTenant b b₁)
    (hpin : PerhapsPinned b₁ b') : Records allocated b b' := by
  rw [Records, if_neg hnot]
  rw [Recorded] at h
  rcases hpin with hpin | hpin
  · rw [hpin.maxCount, hpin.count, hsame.maxCount, hsame.count, max_eq_left h]
  · rw [hpin.maxCount, hpin.count, pin, hsame.maxCount, hsame.count]

/-- A line that is allocated starts its record again. -/
theorem records_of_allocated (hallocated : allocated) (hcount : b₁.pendingResponseCount = 0)
    (hmax : b₁.maxPendingResponseCount = 0) (hpin : PerhapsPinned b₁ b') :
    Records allocated b b' := by
  rw [Records, if_pos hallocated]
  rcases hpin with hpin | hpin
  · rw [hpin.maxCount, hpin.count, hcount, hmax]
  · rw [hpin.maxCount, hpin.count, pin, hcount, hmax]
    rfl

theorem PerhapsPinned.trans (h : PerhapsPinned b b₁) (hsame : SameTenant b₁ b') :
    PerhapsPinned b b' :=
  h.imp (fun h => h.trans hsame) fun h => h.trans hsame

theorem allocate_record (b : CacheBlock k) (tag blockAddr : NewAddrType) (time : Time) (i : Fin 4) :
    (b.allocate tag blockAddr time i).maxPendingResponseCount = 0 := by
  rcases b with ⟨_, _, _, _, _, _, _, _, ⟨s⟩ | ⟨s⟩⟩ <;> rfl

end CacheBlock

open CacheBlock (PerhapsPinned)

namespace Core

variable {cfg : CacheConfig}

theorem setLine_lines_of_ne (s : Core cfg) {i idx : ℕ} (h : i ≠ idx)
    (b : CacheBlock cfg.cacheType) :
    (s.setLine idx b).lines i = s.lines i :=
  Function.update_of_ne h _ _

theorem pin_lines (s : Core cfg) (mf : Token) (idx : ℕ) :
    (s.pin mf idx).lines = Function.update s.lines idx (s.lines idx).pin := rfl

/-- With deferred responses, a hit pins its line. -/
theorem respond_lines (s : Core cfg) (mf : Token) (idx i : ℕ) :
    (i ≠ idx → (s.respond mf idx).lines i = s.lines i) ∧
      PerhapsPinned (s.lines idx) ((s.respond mf idx).lines idx) := by
  unfold respond
  split
  · refine ⟨fun hi => Function.update_of_ne hi _ _, Or.inr ?_⟩
    change SameTenant _ ((s.pin mf idx).lines idx)
    rw [pin_lines, Function.update_self]
    exact .refl _
  · exact ⟨fun _ => rfl, Or.inl (.refl _)⟩

/-- With deferred responses, a miss pins its line. -/
theorem pinMiss_lines (s : Core cfg) (mf : Token) (idx i : ℕ) :
    (i ≠ idx → (s.pinMiss mf idx).lines i = s.lines i) ∧
      PerhapsPinned (s.lines idx) ((s.pinMiss mf idx).lines idx) := by
  unfold pinMiss
  split
  · refine ⟨fun hi => Function.update_of_ne hi _ _, Or.inr ?_⟩
    rw [pin_lines, Function.update_self]
    exact .refl _
  · exact ⟨fun _ => rfl, Or.inl (.refl _)⟩

end Core

/-- What an access leaves of the line that it has found or taken. -/
theorem Cache.touched_records {cfg : CacheConfig} {c : Cache cfg} {addr : NewAddrType}
    {m : MemFetch} {time : Time} {p : ProbeResult} {allocated : Prop} [Decidable allocated]
    (hiff : allocated ↔ p.status = .miss ∧ cfg.allocPolicy = .onMiss)
    (h : (c.tagArray.lines p.idx).Recorded) {b' : CacheBlock cfg.cacheType}
    (hpin : PerhapsPinned (c.touched addr m time p) b') :
    CacheBlock.Records allocated (c.tagArray.lines p.idx) b' := by
  by_cases hmiss : p.status = .miss ∧ cfg.allocPolicy = .onMiss
  · have htouched : c.touched addr m time p = (c.tagArray.lines p.idx).allocate
        (cfg.tag (cfg.blockAddr addr)) (cfg.blockAddr (cfg.blockAddr addr)) time
        (cfg.sectorIndex m.accessSectorMask) := by
      rw [touched, hmiss.1, TagArray.touchedLine, if_pos hmiss.2]
    rw [htouched] at hpin
    exact CacheBlock.records_of_allocated (hiff.2 hmiss) (CacheBlock.allocate_tenant _ _ _ _ _).2.2
      (CacheBlock.allocate_record _ _ _ _ _) hpin
  · exact h.records (mt hiff.1 hmiss) (SameTenant.touchedLine (not_and_or.1 hmiss) _) hpin

/-- The line that an accepted access takes. -/
theorem System.taken_access {cfg : CacheConfig} {sys sys' : System cfg} {n : ℕ} {m : MemFetch}
    {status : CacheRequestStatus} {joined : Option Token} {p : ProbeResult}
    (hp : (sys.build n m).Probes m.addr ((sys.build n m).mfs (.caller n)) p)
    (hstatus : status ≠ .reservationFail)
    (hwrite : m.isWrite = true → cfg.writeAllocPolicy ≠ .noWriteAllocate) (i : ℕ) :
    sys.taken sys' (.access (.caller n) m status joined) = some i ↔
      (p.status = .miss ∧ cfg.allocPolicy = .onMiss) ∧ i = p.idx := by
  rw [build_mfs_caller] at hp
  have hvictim := @TagArray.victim_of_probe cfg sys.cache.tagArray _ _ _ _ _ hp
  rw [taken, hvictim]
  by_cases hon : cfg.allocPolicy = .onMiss
  · rw [if_neg (by rintro (h | h | ⟨h, h'⟩); exacts [hstatus h, h hon, hwrite h h'])]
    by_cases hs : p.status = .miss
    · simp [hs, hon, eq_comm]
    · simp [hs]
  · rw [if_pos (Or.inr (Or.inl hon))]
    simp [hon]

/-- An access takes the line that its search has found, if any. -/
theorem System.taken_access_le {cfg : CacheConfig} {sys sys' : System cfg} {n : ℕ} {m : MemFetch}
    {status : CacheRequestStatus} {joined : Option Token} {p : ProbeResult}
    (hp : (sys.build n m).Probes m.addr ((sys.build n m).mfs (.caller n)) p) {i : ℕ}
    (h : sys.taken sys' (.access (.caller n) m status joined) = some i) :
    p.status = .miss ∧ i = p.idx := by
  rw [build_mfs_caller] at hp
  rw [taken] at h
  split at h
  · cases h
  · rw [@TagArray.victim_of_probe cfg sys.cache.tagArray _ _ _ _ _ hp] at h
    split at h
    · next hs => exact ⟨hs, (Option.some_inj.1 h).symm⟩
    · cases h

/-- What an access records in the lines. -/
theorem AccessCase.line_records {cfg : CacheConfig} {cls : CacheClass} {sys : System cfg} {n : ℕ}
    {m : MemFetch} {time : Time} {status : CacheRequestStatus} {sys' : System cfg}
    {joined : Option Token}
    (h : AccessCase (sys.build n m) cls m.addr (.caller n) time status sys'.core)
    (hrec : ∀ i, (sys.core.lines i).Recorded) (i : ℕ) :
    CacheBlock.Records (sys.taken sys' (.access (.caller n) m status joined) = some i)
      (sys.core.lines i) (sys'.core.lines i) := by
  have hm : (sys.build n m).mfs (.caller n) = m := System.build_mfs_caller sys n m
  -- another line than the one that the search has found
  have hother : ∀ {p : ProbeResult},
      (sys.build n m).Probes m.addr ((sys.build n m).mfs (.caller n)) p →
      i ≠ p.idx → sys'.core.lines i = sys.core.lines i →
      CacheBlock.Records (sys.taken sys' (.access (.caller n) m status joined) = some i)
        (sys.core.lines i) (sys'.core.lines i) := by
    intro p hp hi hline
    rw [hline]
    exact (hrec i).records (fun h => hi (System.taken_access_le hp h).2) (.refl _)
      (Or.inl (.refl _))
  generalize hs' : sys'.core = s' at h hother
  cases h with
  | refused =>
      refine (hrec i).records ?_ (.refl _) (Or.inl (.refl _))
      simp [System.taken]
  | hit p hp hstatus hqueue line forward heffect hroom =>
      have hresponds := Core.respond_lines
        (((sys.build n m).core.setLine p.idx line).enqueueIf forward (.caller n))
          (.caller n) p.idx i
      rw [(Core.enqueueIf_frame _ _ _).1] at hresponds
      by_cases hi : i = p.idx
      · subst hi
        refine (hrec p.idx).records (fun h => ?_) (SameTenant.hitEffect heffect) ?_
        · exact absurd (System.taken_access_le hp h).1 (by simp [hstatus])
        · have hpin := hresponds.2
          rwa [Core.setLine_lines_self] at hpin
      · exact hother hp hi ((hresponds.1 hi).trans (Core.setLine_lines_of_ne _ hi _))
  | forward p hp hstatus hwrite types hcls hpolicy hroom =>
      refine (hrec i).records ?_ (.refl _) (Or.inl (.refl _))
      rw [hm] at hwrite
      simp [System.taken, hwrite, hpolicy]
  | write p hp hstatus hwrite types hcls hsector line forward heffect hroom =>
      rw [(Core.sendOwn_frame _ _).1] at hother ⊢
      by_cases hi : i = p.idx
      · subst hi
        rw [Core.setLine_lines_self]
        refine Cache.touched_records (c := sys.build n m) ?_ (hrec p.idx)
          (Or.inl (SameTenant.writeEffect heffect))
        rw [System.taken_access hp (by simp) fun _ => ?_]
        · simp
        · cases heffect with
          | full hpolicy => simp [hpolicy]
          | onRead hpolicy => simp [hpolicy]
      · refine hother hp hi ?_
        rw [Core.setLine_lines_of_ne _ hi, (Core.enqueueIf_frame _ _ _).1]
        rfl
  | fetch p hp hstatus hsector reader s written hfetcher hjoin hnew hroom =>
      obtain ⟨hlines, -⟩ := hfetcher.frame
      have hmiss : ((s.setLine p.idx ((sys.build n m).touched m.addr
          ((sys.build n m).mfs (.caller n)) time p)).miss
          (cfg.mshrAddr ((sys.build n m).mfs (.caller n)).addr) reader p.idx).lines =
          ((s.setLine p.idx ((sys.build n m).touched m.addr
            ((sys.build n m).mfs (.caller n)) time p)).pinMiss reader p.idx).lines :=
        (Core.miss_frame _ _ _ _).2.2.2.2.2.1
      have hpins := Core.pinMiss_lines (s.setLine p.idx ((sys.build n m).touched m.addr
        ((sys.build n m).mfs (.caller n)) time p)) reader p.idx i
      rw [(Core.sendOwn_frame _ _).1] at hother ⊢
      by_cases hi : i = p.idx
      · subst hi
        rw [Core.setLine_lines_self, hmiss]
        have hpin := hpins.2
        rw [Core.setLine_lines_self] at hpin
        refine Cache.touched_records (c := sys.build n m) ?_ (hrec p.idx)
          (hpin.trans (SameTenant.fetcher hfetcher _))
        rw [System.taken_access hp (by simp) fun hw => ?_]
        · simp
        · cases hfetcher with
          | read hread =>
              rw [show (sys.build n m).core.mfs (.caller n) = m from hm, hw] at hread
              cases hread
          | naive _ _ _ hpolicy => simp [hpolicy]
          | fetchOnWrite _ _ _ hpolicy => simp [hpolicy]
      · refine hother hp hi ?_
        rw [Core.setLine_lines_of_ne _ hi, hmiss, hpins.1 hi, Core.setLine_lines_of_ne _ hi, hlines]
        rfl

/-- Returning a request records nothing: the line that it has pinned loses the pin. -/
theorem Core.unpin_records {cfg : CacheConfig} {s : Core cfg} (hrec : ∀ i, (s.lines i).Recorded)
    (mf : Token) (i : ℕ) :
    CacheBlock.Records False (s.lines i) ((s.unpin mf).lines i) := by
  rw [CacheBlock.Records, if_neg id]
  unfold unpin
  split
  · exact (max_eq_left (hrec i)).symm
  · next idx hidx =>
      have hle : (s.lines idx).pendingResponseCount - 1 ≤ (s.lines idx).maxPendingResponseCount :=
        (Nat.sub_le _ _).trans (hrec idx)
      by_cases hi : i = idx
      · subst hi
        change ((s.setLine i _).lines i).maxPendingResponseCount =
          max _ ((s.setLine i _).lines i).pendingResponseCount
        rw [setLine_lines_self]
        exact (max_eq_left hle).symm
      · change ((s.setLine idx _).lines i).maxPendingResponseCount =
          max _ ((s.setLine idx _).lines i).pendingResponseCount
        rw [setLine_lines_of_ne _ hi]
        exact (max_eq_left (hrec i)).symm

/-- What a fill records in the lines: only an allocation on a fill changes a record. -/
theorem System.FillCase.line_records {cfg : CacheConfig} {c : Cache cfg} {m : MemFetch}
    {e : ExtraMfFields} {time : Time} {lines : ℕ → CacheBlock cfg.cacheType}
    (h : FillCase c m e time lines) (hrec : ∀ i, (c.tagArray.lines i).Recorded) (i : ℕ) :
    CacheBlock.Records (cfg.allocPolicy = .onFill ∧
        c.tagArray.victim e.blockAddr 0 m.accessSectorMask m.isWrite = some i)
      (c.tagArray.lines i) (lines i) := by
  cases h with
  | onMiss hpolicy hi =>
      refine (hrec i).records (by simp [hpolicy]) ?_ (Or.inl (.refl _))
      by_cases hidx : i = e.cacheIndex
      · rw [hidx, Function.update_self]
        exact .fill _ _ _
      · rw [Function.update_of_ne hidx]
        exact .refl _
  | onFill hpolicy ta hta =>
      obtain ⟨p, hp, ⟨hs, hlines⟩ | ⟨hs, -, hlines⟩⟩ := TagArray.fillAddr_eq_ok hta
      · rw [hlines]
        refine (hrec i).records ?_ (.refl _) (Or.inl (.refl _))
        rw [TagArray.victim_of_probe hp, if_neg (by simp [hs])]
        simp
      · rw [hlines, TagArray.victim_of_probe hp]
        by_cases hidx : i = p.idx
        · subst hidx
          rw [Function.update_self]
          by_cases hmiss : p.status = .miss
          · refine CacheBlock.records_of_allocated (by simp [hpolicy, hmiss]) ?_ ?_
              (Or.inl (SameTenant.fill _ _ _))
            · rw [hmiss]
              exact (CacheBlock.allocate_tenant _ _ _ _ _).2.2
            · rw [hmiss]
              exact CacheBlock.allocate_record _ _ _ _ _
          · refine (hrec p.idx).records (by simp [hmiss]) ?_ (Or.inl (SameTenant.fill _ _ _))
            unfold TagArray.fillTarget
            split
            · next h => exact absurd h hmiss
            · exact ⟨rfl, rfl, rfl, rfl⟩
            · exact .refl _
        · rw [Function.update_of_ne hidx]
          refine (hrec i).records ?_ (.refl _) (Or.inl (.refl _))
          rintro ⟨-, h⟩
          split at h
          · exact hidx (Option.some_inj.1 h).symm
          · cases h

/-- **What a step records in the lines.** -/
theorem System.StepCase.line_records {cfg : CacheConfig} {cls : CacheClass} {sys sys' : System cfg}
    {o : Op} {b : Obs} (h : StepCase cls sys sys' o b) (hrec : ∀ i, (sys.core.lines i).Recorded)
    (i : ℕ) : CacheBlock.Records (sys.taken sys' b = some i) (sys.core.lines i)
      (sys'.core.lines i) := by
  have hkept : ∀ {b : Obs}, sys.taken sys' b = none → SameTenant (sys.core.lines i)
      (sys'.core.lines i) →
      CacheBlock.Records (sys.taken sys' b = some i) (sys.core.lines i) (sys'.core.lines i) :=
    fun hnone hsame => (hrec i).records (by simp [hnone]) hsame (Or.inl (.refl _))
  have hunpinned : ∀ {b : Obs} {mf : Token} {s : Core cfg}, sys.taken sys' b = none →
      s.lines = sys.core.lines → sys'.core = s.unpin mf →
      CacheBlock.Records (sys.taken sys' b = some i) (sys.core.lines i) (sys'.core.lines i) := by
    intro b mf s hnone hlines hcore
    rw [hcore, ← hlines]
    simp only [hnone]
    exact Core.unpin_records (by rwa [hlines]) mf i
  cases h with
  | access n m time events status hcase hbelow => exact hcase.line_records hrec i
  | tick memportFull waiting done htick hcore hbelow =>
      refine hkept rfl ?_
      rw [hcore]
      exact .refl _
  | push memportFull waiting done htick mf rest hqueue hcore hbelow =>
      refine hkept rfl ?_
      rw [hcore]
      exact .refl _
  | wait n m time original horiginal e pendingRead he hcore hbelow =>
      refine hkept ?_ ?_
      · have hwaits : sys'.cache.waitingForFill original = true := by
          rw [Cache.waitingForFill, show sys'.cache.extraMfFields = sys'.core.extra from rfl, hcore]
          simp
        rw [taken, if_pos (Or.inr hwaits)]
      · rw [hcore]
        exact .refl _
  | complete o c mf time horigin e he hentry lines hfill hcore hbelow =>
      have htags : c.tagArray = sys.cache.tagArray := by
        rcases horigin with ⟨-, rfl⟩ | ⟨n, m, -, -, rfl⟩ <;> rfl
      have hwaits : sys'.cache.waitingForFill mf = false := by
        rw [Cache.waitingForFill, show sys'.cache.extraMfFields = sys'.core.extra from rfl, hcore]
        simp [Core.complete]
      have hmf : sys'.cache.mfs mf = { c.mfs mf with dataSize := e.dataSize, addr := e.addr } := by
        rw [show sys'.cache.mfs = sys'.core.mfs from rfl, hcore]
        exact Function.update_self _ _ _
      have hrecords := hfill.line_records (by rwa [htags]) i
      rw [htags] at hrecords
      rw [hcore]
      have hiff : sys.taken sys' (.fill mf) = some i ↔ cfg.allocPolicy = .onFill ∧
          sys.cache.tagArray.victim e.blockAddr 0 (c.mfs mf).accessSectorMask (c.mfs mf).isWrite =
            some i := by
        rw [taken, show sys.cache.extraMfFields.lookup mf = some e from he, hmf]
        by_cases hon : cfg.allocPolicy = .onFill
        · simp [hon, hwaits]
        · simp [hon]
      simp only [CacheBlock.Records, hiff]
      exact hrecords
  | ready mf rest hqueue hpinned hcore hbelow =>
      exact hunpinned (s := { sys.core with readyQueue := rest }) rfl rfl hcore
  | deliver mf a rest addresses hready hanswered hentry hpinned hcore hbelow =>
      refine hunpinned rfl ?_ hcore
      unfold Core.deliver
      split <;> rfl
  | flush hcore hbelow =>
      refine hkept rfl ?_
      rw [hcore]
      exact .flush _ i
  | invalidate hcore hbelow =>
      refine hkept rfl ?_
      rw [hcore]
      exact .invalidate _ i
  | retire mf hcore hbelow =>
      refine hkept rfl ?_
      rw [hcore]
      exact .refl _

/-! ### The report of a baseline cache -/

/-- `baseline_queue_watermark_stats`; also the levels of one state, under the same names. -/
structure QueueWatermarks where
  missQueue : ℕ
  extraMfFields : ℕ
  hitResponseQueue : ℕ
  readyResponseQueue : ℕ
  pendingResponseIndices : ℕ
  mshrEntries : ℕ
  mshrMerged : ℕ
  mshrReady : ℕ
  lineRefcount : ℕ
  deriving DecidableEq

/-- The members of `baseline_cache` that `sample_queue_watermarks` writes. -/
structure QueueSamples where
  maxMissQueueSize : ℕ
  maxExtraMfFieldsSize : ℕ
  maxHitResponseQueueSize : ℕ
  maxReadyResponseQueueSize : ℕ
  maxPendingResponseIndicesSize : ℕ

/-- `tag_array::max_pending_response_count`. -/
def TagArray.maxPendingResponseCount {cfg : CacheConfig} (ta : TagArray cfg) : ℕ :=
  (List.range cfg.getNumLines).foldl (fun maxRef i =>
    if maxRef < (ta.lines i).maxPendingResponseCount then (ta.lines i).maxPendingResponseCount
    else maxRef) 0

theorem TagArray.maxPendingResponseCount_eq_peak {cfg : CacheConfig} (ta : TagArray cfg) :
    ta.maxPendingResponseCount =
      peak (fun i => (ta.lines i).maxPendingResponseCount) (List.range cfg.getNumLines) := by
  have hfold : ∀ (l : List ℕ) (n : ℕ), l.foldl (fun maxRef i =>
      if maxRef < (ta.lines i).maxPendingResponseCount then (ta.lines i).maxPendingResponseCount
      else maxRef) n = max n (peak (fun i => (ta.lines i).maxPendingResponseCount) l) := by
    intro l
    induction l with
    | nil => simp
    | cons i l ih =>
        intro n
        rw [List.foldl_cons, ih, Peaks.peak_cons]
        split <;> omega
  rw [maxPendingResponseCount, hfold, Nat.zero_max]

/-- A cache with its environment, and what it has sampled of its queues. -/
structure Watched (cfg : CacheConfig) where
  sys : System cfg
  samples : QueueSamples

namespace Watched

variable {cfg : CacheConfig}

/-- The initial state. -/
def init (cfg : CacheConfig) (mfs : Token → MemFetch) : Watched cfg :=
  ⟨System.init cfg mfs, ⟨0, 0, 0, 0, 0⟩⟩

/-- `sample_queue_watermarks`. -/
def sampleQueueWatermarks (w : Watched cfg) : Watched cfg :=
  let c := w.sys.cache
  { w with
    samples := {
      maxMissQueueSize := max c.missQueue.length w.samples.maxMissQueueSize
      maxExtraMfFieldsSize := max c.extraMfFields.entries.length w.samples.maxExtraMfFieldsSize
      maxHitResponseQueueSize :=
        max c.hitResponseQueue.length w.samples.maxHitResponseQueueSize
      maxReadyResponseQueueSize :=
        max c.readyResponseQueue.length w.samples.maxReadyResponseQueueSize
      maxPendingResponseIndicesSize :=
        max c.pendingResponseIndices.entries.length w.samples.maxPendingResponseIndicesSize } }

/-- `queue_watermarks`. -/
def queueWatermarks (w : Watched cfg) : Watched cfg × QueueWatermarks :=
  let w := w.sampleQueueWatermarks
  (w, {
    missQueue := w.samples.maxMissQueueSize
    extraMfFields := w.samples.maxExtraMfFieldsSize
    hitResponseQueue := w.samples.maxHitResponseQueueSize
    readyResponseQueue := w.samples.maxReadyResponseQueueSize
    pendingResponseIndices := w.samples.maxPendingResponseIndicesSize
    mshrEntries := w.sys.cache.mshrs.maxEntriesSeen
    mshrMerged := w.sys.cache.mshrs.maxMergedSeen
    mshrReady := w.sys.cache.mshrs.maxReadySeen
    lineRefcount := w.sys.cache.tagArray.maxPendingResponseCount })

end Watched

/-- The levels of a state. -/
def System.levels {cfg : CacheConfig} (sys : System cfg) : QueueWatermarks where
  missQueue := sys.cache.missQueue.length
  extraMfFields := sys.cache.extraMfFields.entries.length
  hitResponseQueue := sys.cache.hitResponseQueue.length
  readyResponseQueue := sys.cache.readyResponseQueue.length
  pendingResponseIndices := sys.cache.pendingResponseIndices.entries.length
  mshrEntries := sys.cache.mshrs.data.entries.length
  mshrMerged := MshrData.depth sys.cache.mshrs.data
  mshrReady := sys.cache.mshrs.currentResponse.length
  lineRefcount := peak (fun i => (sys.cache.tagArray.lines i).pendingResponseCount)
    (List.range cfg.getNumLines)

/-- The calls of the environment, and `queue_watermarks`. -/
inductive WatchOp
  | call (o : Op)
  | queueWatermarks

/-- What is seen of a call. -/
inductive WatchObs
  | call (b : Obs)
  | queueWatermarks (stats : QueueWatermarks)

/-- One call. -/
def Watched.perform {cfg : CacheConfig} (cls : CacheClass) (w : Watched cfg) :
    WatchOp → Step (Watched cfg × WatchObs)
  | .call o => do
      let (sys, b) ← w.sys.perform cls o
      return ({ w with sys }, .call b)
  | .queueWatermarks => return (w.queueWatermarks.1, .queueWatermarks w.queueWatermarks.2)

/-- Any order of calls, with the kind of response that the MSHRs expect. -/
def Watched.Suits {cfg : CacheConfig} (_ : Watched cfg) : WatchOp → Prop
  | .call o => System.Suits cfg o
  | .queueWatermarks => True

instance {cfg : CacheConfig} (w : Watched cfg) (o : WatchOp) : Decidable (w.Suits o) := by
  induction o using WatchOp.casesOn <;> unfold Watched.Suits <;> infer_instance

/-! ### The states of a run -/

/-- A state of a run, with the line that the step to it has allocated, and whether it was a call of
`queue_watermarks`. -/
structure Moment (cfg : CacheConfig) where
  sys : System cfg
  taken : Option ℕ
  queried : Bool

namespace Moment

variable {cfg : CacheConfig}

/-- The initial state. -/
def start (cfg : CacheConfig) (mfs : Token → MemFetch) : Moment cfg :=
  ⟨System.init cfg mfs, none, false⟩

/-- The history of a run: its states, the newest first. -/
def note (h : List (Moment cfg)) (w : Watched cfg) (_ : WatchOp) (w' : Watched cfg) (b : WatchObs) :
    List (Moment cfg) :=
  match b with
  | .call b => ⟨w'.sys, w.sys.taken w'.sys b, false⟩ :: h
  | .queueWatermarks _ => ⟨w'.sys, none, true⟩ :: h

/-- The number of requests that wait for a response from a line. -/
def count (m : Moment cfg) (i : ℕ) : ℕ := (m.sys.cache.tagArray.lines i).pendingResponseCount

/-- The states since a line was last allocated. -/
def sinceTaken (i : ℕ) (h : List (Moment cfg)) : List (Moment cfg) :=
  since (fun m => m.taken = some i) h

/-- The newest state, and those in which `queue_watermarks` was called. -/
def seen : List (Moment cfg) → List (Moment cfg)
  | [] => []
  | m :: h => m :: h.filter Moment.queried

/-- The greatest levels of all states. -/
def peaks (h : List (Moment cfg)) : QueueWatermarks where
  missQueue := peak (fun m => m.sys.levels.missQueue) h
  extraMfFields := peak (fun m => m.sys.levels.extraMfFields) h
  hitResponseQueue := peak (fun m => m.sys.levels.hitResponseQueue) h
  readyResponseQueue := peak (fun m => m.sys.levels.readyResponseQueue) h
  pendingResponseIndices := peak (fun m => m.sys.levels.pendingResponseIndices) h
  mshrEntries := peak (fun m => m.sys.levels.mshrEntries) h
  mshrMerged := peak (fun m => m.sys.levels.mshrMerged) h
  mshrReady := peak (fun m => m.sys.levels.mshrReady) h
  lineRefcount := peak (fun m => m.sys.levels.lineRefcount) h

/-- The sizes that are measured only when `queue_watermarks` is called. -/
def sampled : List (QueueWatermarks → ℕ) :=
  [QueueWatermarks.missQueue, QueueWatermarks.extraMfFields, QueueWatermarks.hitResponseQueue,
    QueueWatermarks.readyResponseQueue, QueueWatermarks.pendingResponseIndices]

/-- The peaks of a run were seen and not forgotten: no size was greater than in some state in which
`queue_watermarks` was called; no fetch was ever answered; and no line ever had more requests
waiting than some line has had since it was last allocated. -/
structure PeaksSeen (h : List (Moment cfg)) : Prop where
  queues : ∀ size ∈ sampled, ∀ m ∈ h, ∃ m' ∈ seen h, size m.sys.levels ≤ size m'.sys.levels
  ready : ∀ m ∈ h, m.sys.cache.mshrs.currentResponse = []
  lines : ∀ m ∈ h, ∀ i < cfg.getNumLines,
    ∃ j < cfg.getNumLines, ∃ m' ∈ sinceTaken j h, m.count i ≤ m'.count j

end Moment

namespace Watched

variable {cfg : CacheConfig} {cls : CacheClass} {w w' : Watched cfg} {h : List (Moment cfg)}

/-- What the records of a watched cache are, in terms of the states of the run: the sizes of the
queues in the states in which they were sampled, the levels of the MSHR table in all states, and the
count of each line since it was last allocated. -/
structure Faithful (w : Watched cfg) (h : List (Moment cfg)) : Prop where
  now : ∃ taken queried rest, h = ⟨w.sys, taken, queried⟩ :: rest
  samples : w.samples = {
    maxMissQueueSize := peak (fun m => m.sys.levels.missQueue) (h.filter Moment.queried)
    maxExtraMfFieldsSize := peak (fun m => m.sys.levels.extraMfFields) (h.filter Moment.queried)
    maxHitResponseQueueSize :=
      peak (fun m => m.sys.levels.hitResponseQueue) (h.filter Moment.queried)
    maxReadyResponseQueueSize :=
      peak (fun m => m.sys.levels.readyResponseQueue) (h.filter Moment.queried)
    maxPendingResponseIndicesSize :=
      peak (fun m => m.sys.levels.pendingResponseIndices) (h.filter Moment.queried) }
  entries : w.sys.cache.mshrs.maxEntriesSeen = peak (fun m => m.sys.levels.mshrEntries) h
  merged : w.sys.cache.mshrs.maxMergedSeen = peak (fun m => m.sys.levels.mshrMerged) h
  ready : w.sys.cache.mshrs.maxReadySeen = 0
  lines : ∀ i, (w.sys.cache.tagArray.lines i).maxPendingResponseCount =
    peak (fun m => m.count i) (Moment.sinceTaken i h)

namespace Faithful

theorem init (mfs : Token → MemFetch) :
    (Watched.init cfg mfs).Faithful [Moment.start cfg mfs] where
  now := ⟨none, false, [], rfl⟩
  samples := rfl
  entries := rfl
  merged := rfl
  ready := rfl
  lines _ := rfl

/-- The records are not below the levels of the newest state. -/
theorem recorded (hf : w.Faithful h) : w.sys.cache.mshrs.Recorded ∧
    ∀ i, (w.sys.core.lines i).Recorded := by
  obtain ⟨taken, queried, rest, rfl⟩ := hf.now
  refine ⟨⟨?_, ?_⟩, fun i => ?_⟩
  · rw [hf.entries]
    exact le_max_left _ _
  · rw [hf.merged]
    exact le_max_left _ _
  · change (w.sys.cache.tagArray.lines i).pendingResponseCount ≤
      (w.sys.cache.tagArray.lines i).maxPendingResponseCount
    rw [hf.lines i, Moment.sinceTaken, Peaks.since]
    split <;> exact le_max_left _ _

/-- A call keeps the records faithful. -/
theorem call (hf : w.Faithful h) {o : Op} {b : Obs} {sys : System cfg} (hsuits : System.Suits cfg o)
    (hperform : w.sys.perform cls o = .ok (sys, b)) :
    ({ w with sys } : Watched cfg).Faithful (⟨sys, w.sys.taken sys b, false⟩ :: h) := by
  obtain ⟨hmshrs, hlines⟩ := hf.recorded
  have hrecords := System.perform_records hmshrs hperform
  refine ⟨⟨_, _, _, rfl⟩, ?_, ?_, ?_, ?_, fun i => ?_⟩
  · rw [List.filter_cons_of_neg (by simp)]
    exact hf.samples
  · rw [Peaks.peak_cons, ← hf.entries, max_comm]
    exact hrecords.entries
  · rw [Peaks.peak_cons, ← hf.merged, max_comm]
    exact hrecords.merged
  · exact hrecords.ready.trans hf.ready
  · have hline := (System.step_cases hsuits hperform).line_records hlines i
    change (sys.cache.tagArray.lines i).maxPendingResponseCount =
      if w.sys.taken sys b = some i then (sys.cache.tagArray.lines i).pendingResponseCount
      else max (w.sys.cache.tagArray.lines i).maxPendingResponseCount
        (sys.cache.tagArray.lines i).pendingResponseCount at hline
    rw [hline, Moment.sinceTaken, Peaks.since]
    by_cases htaken : w.sys.taken sys b = some i
    · simp [htaken, Moment.count]
    · simp only [htaken, decide_false, if_false, Bool.false_eq_true, Peaks.peak_cons]
      rw [hf.lines i, max_comm]
      rfl

/-- `queue_watermarks` keeps the records faithful. -/
theorem query (hf : w.Faithful h) :
    w.queueWatermarks.1.Faithful (⟨w.sys, none, true⟩ :: h) := by
  obtain ⟨hmshrs, hlines⟩ := hf.recorded
  refine ⟨⟨_, _, _, rfl⟩, ?_, ?_, ?_, hf.ready, fun i => ?_⟩
  · rw [List.filter_cons_of_pos rfl]
    simp only [queueWatermarks, sampleQueueWatermarks, hf.samples, Peaks.peak_cons]
    rfl
  · rw [Peaks.peak_cons, ← hf.entries]
    exact (max_eq_right hmshrs.entries).symm
  · rw [Peaks.peak_cons, ← hf.merged]
    exact (max_eq_right hmshrs.merged).symm
  · change (w.sys.cache.tagArray.lines i).maxPendingResponseCount = _
    rw [Moment.sinceTaken, Peaks.since]
    simp only [reduceCtorEq, decide_false, Bool.false_eq_true, if_false, Peaks.peak_cons]
    rw [← Moment.sinceTaken, ← hf.lines i]
    exact (max_eq_right (hlines i)).symm

end Faithful

/-- The records of a watched cache are faithful in every run. -/
theorem faithful_of_run {mfs : Token → MemFetch} {trace : List WatchObs}
    (hrun : Runs.Run (Runs.withHistory (Watched.perform cls) Moment.note) (fun s => s.1.Suits)
      (Watched.init cfg mfs, [Moment.start cfg mfs]) trace (w, h)) : w.Faithful h := by
  refine hrun.state_invariant (fun s => s.1.Faithful s.2) (Faithful.init mfs) ?_
  rintro ⟨w, h⟩ o ⟨w', h'⟩ b hf hsuits hstep
  obtain ⟨hperform, rfl⟩ := Runs.withHistory_eq_ok.1 hstep
  cases o with
  | call o =>
      obtain ⟨⟨sys, b'⟩, hsys, heq⟩ := bind_eq_ok.1 hperform
      cases heq
      exact hf.call hsuits hsys
  | queueWatermarks =>
      cases hperform
      exact hf.query

/-- What is sampled at last is a true maximum when no state was above those that were seen. -/
theorem Faithful.sample_eq_iff (hf : w.Faithful h) (size : QueueWatermarks → ℕ) :
    max (size w.sys.levels) (peak (fun m => size m.sys.levels) (h.filter Moment.queried)) =
        peak (fun m => size m.sys.levels) h ↔
      ∀ m ∈ h, ∃ m' ∈ Moment.seen h, size m.sys.levels ≤ size m'.sys.levels := by
  obtain ⟨taken, queried, rest, rfl⟩ := hf.now
  have hsub : ∀ m ∈ Moment.seen (⟨w.sys, taken, queried⟩ :: rest),
      m ∈ (⟨w.sys, taken, queried⟩ :: rest : List (Moment cfg)) := by
    intro m hm
    rcases List.mem_cons.1 hm with rfl | hm
    · exact List.mem_cons_self ..
    · exact List.mem_cons_of_mem _ (List.mem_filter.1 hm).1
  have hseen : max (size w.sys.levels) (peak (fun m => size m.sys.levels)
      ((⟨w.sys, taken, queried⟩ :: rest : List (Moment cfg)).filter Moment.queried)) =
      peak (fun m => size m.sys.levels) (Moment.seen (⟨w.sys, taken, queried⟩ :: rest)) := by
    rw [Moment.seen, Peaks.peak_cons, List.filter_cons]
    split
    · rw [Peaks.peak_cons, ← max_assoc, max_self]
    · rfl
  rw [hseen]
  exact Peaks.peak_eq_iff_of_subset hsub (List.cons_ne_nil _ _)

/-- What the lines have recorded is a true maximum when none was ever above what some line has
recorded since it was last allocated. -/
theorem Faithful.line_eq_iff (hf : w.Faithful h) :
    w.sys.cache.tagArray.maxPendingResponseCount = peak (fun m => m.sys.levels.lineRefcount) h ↔
      ∀ m ∈ h, ∀ i < cfg.getNumLines,
        ∃ j < cfg.getNumLines, ∃ m' ∈ Moment.sinceTaken j h, m.count i ≤ m'.count j := by
  have hne : h ≠ [] := by
    obtain ⟨taken, queried, rest, rfl⟩ := hf.now
    exact List.cons_ne_nil _ _
  have hrecord : ∀ n i, i < cfg.getNumLines →
      (n ≤ w.sys.cache.tagArray.maxPendingResponseCount ↔
        ∃ j < cfg.getNumLines, ∃ m' ∈ Moment.sinceTaken j h, n ≤ m'.count j) := by
    intro n i hi
    rw [TagArray.maxPendingResponseCount_eq_peak,
      Peaks.le_peak_iff (List.ne_nil_of_mem (List.mem_range.2 hi))]
    simp only [List.mem_range, hf.lines, Moment.sinceTaken,
      Peaks.le_peak_iff (Peaks.since_ne_nil hne)]
  have hle : w.sys.cache.tagArray.maxPendingResponseCount ≤
      peak (fun m => m.sys.levels.lineRefcount) h := by
    rw [TagArray.maxPendingResponseCount_eq_peak, Peaks.peak_le_iff]
    intro i hi
    rw [hf.lines i, Peaks.peak_le_iff]
    intro m hm
    have hcount : m.count i ≤ m.sys.levels.lineRefcount :=
      Peaks.le_peak (f := fun i => (m.sys.cache.tagArray.lines i).pendingResponseCount) hi
    exact hcount.trans (Peaks.le_peak (f := fun m : Moment cfg => m.sys.levels.lineRefcount)
      (Peaks.mem_of_mem_since hm))
  constructor
  · intro heq m hm i hi
    refine (hrecord _ i hi).1 ?_
    rw [heq]
    have hcount : m.count i ≤ m.sys.levels.lineRefcount :=
      Peaks.le_peak (f := fun i => (m.sys.cache.tagArray.lines i).pendingResponseCount)
        (List.mem_range.2 hi)
    exact hcount.trans (Peaks.le_peak (f := fun m : Moment cfg => m.sys.levels.lineRefcount) hm)
  · intro hall
    refine le_antisymm hle (Peaks.peak_le_iff.2 fun m hm => Peaks.peak_le_iff.2 fun i hi => ?_)
    exact (hrecord _ i (List.mem_range.1 hi)).2 (hall m hm i (List.mem_range.1 hi))

/-- **The report of a baseline cache is true** if and only if the peaks were seen. -/
theorem Faithful.report_eq_peaks_iff (hf : w.Faithful h) :
    w.queueWatermarks.2 = Moment.peaks h ↔ Moment.PeaksSeen h := by
  have hready : w.sys.cache.mshrs.maxReadySeen = peak (fun m => m.sys.levels.mshrReady) h ↔
      ∀ m ∈ h, m.sys.cache.mshrs.currentResponse = [] := by
    rw [hf.ready, eq_comm, Peaks.peak_eq_zero_iff]
    simp [System.levels]
  rw [Moment.peaks, queueWatermarks, sampleQueueWatermarks, hf.samples, QueueWatermarks.mk.injEq]
  constructor
  · rintro ⟨hmiss, hextra, hhit, hresponse, hpending, -, -, hzero, hline⟩
    refine ⟨fun size hsize => (hf.sample_eq_iff size).1 ?_, hready.1 hzero, hf.line_eq_iff.1 hline⟩
    simp only [Moment.sampled, List.mem_cons, List.not_mem_nil, or_false] at hsize
    rcases hsize with rfl | rfl | rfl | rfl | rfl
    · exact hmiss
    · exact hextra
    · exact hhit
    · exact hresponse
    · exact hpending
  · intro hseen
    have hqueue := fun size hsize => (hf.sample_eq_iff size).2 (hseen.queues size hsize)
    simp only [Moment.sampled, List.forall_mem_cons] at hqueue
    obtain ⟨hmiss, hextra, hhit, hresponse, hpending, -⟩ := hqueue
    exact ⟨hmiss, hextra, hhit, hresponse, hpending, hf.entries, hf.merged, hready.2 hseen.ready,
      hf.line_eq_iff.2 hseen.lines⟩

end Watched

/-! ### The report of a texture cache -/

/-- `texture_queue_watermark_stats`; also the levels of one state. -/
structure TexQueueWatermarks where
  fragmentFifo : ℕ
  requestFifo : ℕ
  rob : ℕ
  resultFifo : ℕ
  extraMfFields : ℕ
  lineRefcount : ℕ
  deriving DecidableEq

namespace TexCache

variable {cfg : CacheConfig}

/-- `tex_cache::queue_watermarks`.  `m_max_extra_mf_fields_size` is zero: nothing writes it. -/
def queueWatermarks (c : TexCache cfg) : TexQueueWatermarks where
  fragmentFifo := c.fragmentFifo.maxNum
  requestFifo := c.requestFifo.maxNum
  rob := c.rob.maxNum
  resultFifo := c.resultFifo.maxNum
  extraMfFields := 0
  lineRefcount := 0

/-- The levels of a state. -/
def levels (c : TexCache cfg) : TexQueueWatermarks where
  fragmentFifo := c.fragmentFifo.num
  requestFifo := c.requestFifo.num
  rob := c.rob.num
  resultFifo := c.resultFifo.num
  extraMfFields := c.extraMfFields.entries.length
  lineRefcount := peak (fun i => (c.tags.lines i).pendingResponseCount) (List.range cfg.getNumLines)

end TexCache

/-- A step after which a FIFO has recorded its size. -/
def FifoRecords {α : Type} {size : ℕ} (r r' : RingBuffer α size) : Prop :=
  r'.maxNum = max r.maxNum r'.num

theorem fifoRecords_refl {α : Type} {size : ℕ} (r : RingBuffer α size) : FifoRecords r r :=
  (max_eq_left r.num_le_maxNum).symm

theorem fifoRecords_of_fifoPush {α : Type} {size : ℕ} {r r' : RingBuffer α size} {e : α} {i : ℕ}
    (h : fifoPush r e = .ok (r', i)) : FifoRecords r r' := by
  unfold fifoPush at h
  split at h
  · cases h
    rfl
  · cases h

theorem fifoRecords_of_fifoPop {α : Type} {size : ℕ} {r r' : RingBuffer α size} {e : α}
    (h : fifoPop r = .ok (r', e)) : FifoRecords r r' := by
  unfold fifoPop at h
  split at h
  · cases h
    exact (max_eq_left ((Nat.sub_le _ _).trans r.num_le_maxNum)).symm
  · cases h

/-- No line waits for a response: a texture cache pins nothing. -/
def TagArray.Unpinned {cfg : CacheConfig} (ta : TagArray cfg) : Prop :=
  ∀ i, (ta.lines i).pendingResponseCount = 0

namespace TagArray.Unpinned

variable {cfg : CacheConfig} {ta ta' : TagArray cfg}

theorem of_update (h : ta.Unpinned) {idx : ℕ} {b : CacheBlock cfg.cacheType}
    (hb : b.pendingResponseCount = 0) (hlines : ta'.lines = Function.update ta.lines idx b) :
    ta'.Unpinned := by
  intro i
  rw [hlines]
  by_cases hi : i = idx
  · rw [hi, Function.update_self]
    exact hb
  · rw [Function.update_of_ne hi]
    exact h i

theorem access (h : ta.Unpinned) {addr : NewAddrType} {time : Time} {idx : ℕ} {mf : MemFetch}
    {r : AccessResult} (haccess : ta.accessNoWriteback addr time idx mf = .ok (ta', r)) :
    ta'.Unpinned := by
  obtain ⟨p, -, -, -, -, -, hlines⟩ := access_eq_ok (accessNoWriteback_eq_ok haccess)
  refine h.of_update ?_ hlines
  by_cases hmiss : p.status = .miss ∧ cfg.allocPolicy = .onMiss
  · rw [hmiss.1, touchedLine, if_pos hmiss.2]
    exact (CacheBlock.allocate_tenant _ _ _ _ _).2.2
  · exact (SameTenant.touchedLine (not_and_or.1 hmiss) _).count.trans (h p.idx)

theorem fillIndex (h : ta.Unpinned) {idx : ℕ} {mf : MemFetch}
    (hfill : ta.fillIndex idx mf = .ok ta') :
    ta'.Unpinned :=
  h.of_update ((SameTenant.fill _ _ _).count.trans (h idx)) (fillIndex_eq_ok hfill).2

end TagArray.Unpinned

namespace TexCache

variable {cfg : CacheConfig} {c c' : TexCache cfg}

/-- A step after which the FIFOs have recorded their sizes, and no line is pinned. -/
structure Records (c c' : TexCache cfg) : Prop where
  fragment : FifoRecords c.fragmentFifo c'.fragmentFifo
  request : FifoRecords c.requestFifo c'.requestFifo
  rob : FifoRecords c.rob c'.rob
  result : FifoRecords c.resultFifo c'.resultFifo
  lines : c.tags.Unpinned → c'.tags.Unpinned

theorem Records.refl (c : TexCache cfg) : Records c c :=
  ⟨fifoRecords_refl _, fifoRecords_refl _, fifoRecords_refl _, fifoRecords_refl _, id⟩

theorem access_records {addr : NewAddrType} {mf : Token} {time : Time}
    {events events' : List CacheEvent} {status : CacheRequestStatus}
    (h : c.access addr mf time events = .ok (c', status, events')) : Records c c' := by
  unfold access at h
  split at h
  · cases h
    exact .refl c
  · obtain ⟨_, -, h⟩ := bind_eq_ok.1 h
    obtain ⟨⟨tags, r⟩, htags, h⟩ := bind_eq_ok.1 h
    obtain ⟨_, -, h⟩ := bind_eq_ok.1 h
    obtain ⟨_, -, h⟩ := bind_eq_ok.1 h
    obtain ⟨⟨fragmentFifo, i⟩, hpush, h⟩ := bind_eq_ok.1 h
    obtain ⟨⟨c₁, cacheStatus, events₁⟩, hsend, h⟩ := bind_eq_ok.1 h
    unfold answer at hsend
    split at hsend
    · obtain ⟨⟨rob, robIndex⟩, hrob, hsend⟩ := bind_eq_ok.1 hsend
      obtain ⟨filled, hfill, hsend⟩ := bind_eq_ok.1 hsend
      obtain ⟨⟨requestFifo, j⟩, hrequest, hsend⟩ := bind_eq_ok.1 hsend
      cases hsend
      cases h
      exact ⟨fifoRecords_of_fifoPush hpush, fifoRecords_of_fifoPush hrequest,
        fifoRecords_of_fifoPush hrob, fifoRecords_refl _, fun hlines =>
          (hlines.access htags).fillIndex hfill⟩
    · cases hsend
      cases h
      exact ⟨fifoRecords_of_fifoPush hpush, fifoRecords_refl _, fifoRecords_refl _,
        fifoRecords_refl _, fun hlines => hlines.access htags⟩

/-- The two halves of a cycle touch different FIFOs. -/
theorem cycle_records {memportFull : Bool} {pushed : Option Token}
    (h : c.cycle memportFull = .ok (c', pushed)) : Records c c' := by
  obtain ⟨⟨c₁, pushed₁⟩, hsend, h⟩ := bind_eq_ok.1 h
  obtain ⟨c₂, hretire, h⟩ := bind_eq_ok.1 h
  cases h
  have hsent : FifoRecords c.requestFifo c₁.requestFifo ∧ c₁.fragmentFifo = c.fragmentFifo ∧
      c₁.rob = c.rob ∧ c₁.resultFifo = c.resultFifo ∧ c₁.tags = c.tags := by
    unfold sendToMemory at hsend
    split at hsend
    · cases hsend
      exact ⟨fifoRecords_refl _, rfl, rfl, rfl, rfl⟩
    · split at hsend
      · cases hsend
        exact ⟨fifoRecords_refl _, rfl, rfl, rfl, rfl⟩
      · obtain ⟨⟨requestFifo, mf⟩, hpop, hsend⟩ := bind_eq_ok.1 hsend
        cases hsend
        exact ⟨fifoRecords_of_fifoPop hpop, rfl, rfl, rfl, rfl⟩
  have hretired : FifoRecords c₁.fragmentFifo c'.fragmentFifo ∧ c'.requestFifo = c₁.requestFifo ∧
      FifoRecords c₁.rob c'.rob ∧ FifoRecords c₁.resultFifo c'.resultFifo ∧ c'.tags = c₁.tags := by
    unfold retireFragment at hretire
    split at hretire
    · cases hretire
      exact ⟨fifoRecords_refl _, rfl, fifoRecords_refl _, fifoRecords_refl _, rfl⟩
    · split at hretire
      · cases hretire
        exact ⟨fifoRecords_refl _, rfl, fifoRecords_refl _, fifoRecords_refl _, rfl⟩
      · split at hretire
        · obtain ⟨r, -, hretire⟩ := bind_eq_ok.1 hretire
          obtain ⟨_, -, hretire⟩ := bind_eq_ok.1 hretire
          split at hretire
          · obtain ⟨_, -, hretire⟩ := bind_eq_ok.1 hretire
            obtain ⟨⟨resultFifo, i⟩, hresult, hretire⟩ := bind_eq_ok.1 hretire
            obtain ⟨⟨rob, r'⟩, hrob, hretire⟩ := bind_eq_ok.1 hretire
            obtain ⟨⟨fragmentFifo, e'⟩, hfragment, hretire⟩ := bind_eq_ok.1 hretire
            cases hretire
            exact ⟨fifoRecords_of_fifoPop hfragment, rfl, fifoRecords_of_fifoPop hrob,
              fifoRecords_of_fifoPush hresult, rfl⟩
          · cases hretire
            exact ⟨fifoRecords_refl _, rfl, fifoRecords_refl _, fifoRecords_refl _, rfl⟩
        · obtain ⟨_, -, hretire⟩ := bind_eq_ok.1 hretire
          obtain ⟨_, -, hretire⟩ := bind_eq_ok.1 hretire
          obtain ⟨⟨resultFifo, i⟩, hresult, hretire⟩ := bind_eq_ok.1 hretire
          obtain ⟨⟨fragmentFifo, e'⟩, hfragment, hretire⟩ := bind_eq_ok.1 hretire
          cases hretire
          exact ⟨fifoRecords_of_fifoPop hfragment, rfl, fifoRecords_refl _,
            fifoRecords_of_fifoPush hresult, rfl⟩
  obtain ⟨hrequest, hfragments, hrob, hresults, htags⟩ := hsent
  obtain ⟨hfragments', hrequest', hrob', hresults', htags'⟩ := hretired
  rw [hfragments] at hfragments'
  rw [hrob] at hrob'
  rw [hresults] at hresults'
  refine ⟨hfragments', ?_, hrob', hresults', ?_⟩
  · rw [hrequest']
    exact hrequest
  · rw [htags', htags]
    exact id

theorem fillComplete_records {mf : Token} {time : Time} (h : c.fillComplete mf time = .ok c') :
    Records c c' := by
  unfold fillComplete at h
  split at h
  · cases h
  · obtain ⟨_, -, h⟩ := bind_eq_ok.1 h
    obtain ⟨_, -, h⟩ := bind_eq_ok.1 h
    obtain ⟨r, -, h⟩ := bind_eq_ok.1 h
    obtain ⟨_, -, h⟩ := bind_eq_ok.1 h
    obtain ⟨_, -, h⟩ := bind_eq_ok.1 h
    cases h
    exact ⟨fifoRecords_refl _, fifoRecords_refl _, fifoRecords_refl c.rob, fifoRecords_refl _, id⟩

theorem fill_records {mf : Token} {time : Time} (h : c.fill mf time = .ok c') : Records c c' := by
  unfold fill at h
  split at h
  · split at h
    · cases h
    · split at h
      · cases h
      · dsimp only at h
        split at h
        · cases h
          exact ⟨fifoRecords_refl _, fifoRecords_refl _, fifoRecords_refl _, fifoRecords_refl _, id⟩
        · obtain ⟨hfragment, hrequest, hrob, hresult, hlines⟩ := fillComplete_records h
          exact ⟨hfragment, hrequest, hrob, hresult, hlines⟩
  · exact fillComplete_records h

end TexCache

namespace TexSystem

variable {cfg : CacheConfig} {sys sys' : TexSystem cfg} {h : List (TexSystem cfg)}

theorem perform_records {o : TexOp} {b : TexObs} (hperform : sys.perform o = .ok (sys', b)) :
    TexCache.Records sys.cache sys'.cache := by
  cases o with
  | access n m time events =>
      obtain ⟨⟨c, status, events'⟩, haccess, hperform⟩ := bind_eq_ok.1 hperform
      cases hperform
      obtain ⟨hfragment, hrequest, hrob, hresult, hlines⟩ := TexCache.access_records haccess
      exact ⟨hfragment, hrequest, hrob, hresult, hlines⟩
  | cycle memportFull =>
      obtain ⟨⟨c, pushed⟩, hcycle, hperform⟩ := bind_eq_ok.1 hperform
      cases hperform
      exact TexCache.cycle_records hcycle
  | fill mf time =>
      obtain ⟨c, hfill, hperform⟩ := bind_eq_ok.1 hperform
      cases hperform
      exact TexCache.fill_records hfill
  | fillChild n m time =>
      obtain ⟨c, hfill, hperform⟩ := bind_eq_ok.1 hperform
      obtain ⟨hfragment, hrequest, hrob, hresult, hlines⟩ := TexCache.fill_records hfill
      cases ho : m.originalMf with
      | none => simp [ho] at hperform
      | some original =>
          simp only [ho] at hperform
          cases hperform
          exact ⟨hfragment, hrequest, hrob, hresult, hlines⟩
  | nextAccess =>
      obtain ⟨⟨c, mf⟩, hnext, hperform⟩ := bind_eq_ok.1 hperform
      obtain ⟨⟨resultFifo, mf'⟩, hpop, hnext⟩ := bind_eq_ok.1 hnext
      cases hnext
      cases hperform
      exact ⟨fifoRecords_refl _, fifoRecords_refl _, fifoRecords_refl _,
        fifoRecords_of_fifoPop hpop, id⟩
  | invalidate =>
      cases hperform
      refine ⟨fifoRecords_refl _, fifoRecords_refl _, fifoRecords_refl _, fifoRecords_refl _, ?_⟩
      exact fun hlines i => (SameTenant.invalidate _ i).count.trans (hlines i)

/-- The history of a run: its states, the newest first. -/
def note (h : List (TexSystem cfg)) (_ : TexSystem cfg) (_ : TexOp) (sys' : TexSystem cfg)
    (_ : TexObs) : List (TexSystem cfg) :=
  sys' :: h

/-- The greatest levels of all states. -/
def peaks (h : List (TexSystem cfg)) : TexQueueWatermarks where
  fragmentFifo := peak (fun sys => sys.cache.levels.fragmentFifo) h
  requestFifo := peak (fun sys => sys.cache.levels.requestFifo) h
  rob := peak (fun sys => sys.cache.levels.rob) h
  resultFifo := peak (fun sys => sys.cache.levels.resultFifo) h
  extraMfFields := peak (fun sys => sys.cache.levels.extraMfFields) h
  lineRefcount := peak (fun sys => sys.cache.levels.lineRefcount) h

/-- What the records of a texture cache are, in terms of the states of the run. -/
structure Faithful (sys : TexSystem cfg) (h : List (TexSystem cfg)) : Prop where
  fragment : sys.cache.fragmentFifo.maxNum = peak (fun sys => sys.cache.levels.fragmentFifo) h
  request : sys.cache.requestFifo.maxNum = peak (fun sys => sys.cache.levels.requestFifo) h
  rob : sys.cache.rob.maxNum = peak (fun sys => sys.cache.levels.rob) h
  result : sys.cache.resultFifo.maxNum = peak (fun sys => sys.cache.levels.resultFifo) h
  now : sys.cache.tags.Unpinned
  lines : ∀ sys ∈ h, sys.cache.levels.lineRefcount = 0

/-- The records of a texture cache are faithful in every run. -/
theorem faithful_of_run {mfs : Token → MemFetch} {trace : List TexObs}
    {promise : TexSystem cfg × List (TexSystem cfg) → TexOp → Prop}
    (hrun : Runs.Run (Runs.withHistory TexSystem.perform note) promise
      (TexSystem.init cfg mfs, [TexSystem.init cfg mfs]) trace (sys, h)) : sys.Faithful h := by
  have hzero : ∀ {c : TexCache cfg}, c.tags.Unpinned → c.levels.lineRefcount = 0 :=
    fun hlines => Peaks.peak_eq_zero_iff.2 fun i _ => hlines i
  refine hrun.state_invariant (fun s => s.1.Faithful s.2) ?_ ?_
  · have hinit : (TexSystem.init cfg mfs).cache.tags.Unpinned := fun _ => rfl
    refine ⟨rfl, rfl, rfl, rfl, hinit, fun sys hsys => ?_⟩
    rw [List.mem_singleton.1 hsys]
    exact hzero hinit
  · rintro ⟨sys, h⟩ o ⟨sys', h'⟩ b ⟨hfragment, hrequest, hrob, hresult, hnow, hlines⟩ - hstep
    obtain ⟨hperform, rfl⟩ := Runs.withHistory_eq_ok.1 hstep
    have hrecords := perform_records hperform
    have hnow' := hrecords.lines hnow
    refine ⟨?_, ?_, ?_, ?_, hnow', fun s hs => ?_⟩
    · rw [note, Peaks.peak_cons, ← hfragment, max_comm]
      exact hrecords.fragment
    · rw [note, Peaks.peak_cons, ← hrequest, max_comm]
      exact hrecords.request
    · rw [note, Peaks.peak_cons, ← hrob, max_comm]
      exact hrecords.rob
    · rw [note, Peaks.peak_cons, ← hresult, max_comm]
      exact hrecords.result
    · rcases List.mem_cons.1 hs with rfl | hs
      · exact hzero hnow'
      · exact hlines s hs

/-- **The report of a texture cache is true** if and only if no miss was ever accepted. -/
theorem Faithful.report_eq_peaks_iff (hf : sys.Faithful h) :
    sys.cache.queueWatermarks = peaks h ↔ ∀ s ∈ h, s.cache.extraMfFields = ∅ := by
  have hextra : 0 = peak (fun sys : TexSystem cfg => sys.cache.levels.extraMfFields) h ↔
      ∀ s ∈ h, s.cache.extraMfFields = ∅ := by
    rw [eq_comm, Peaks.peak_eq_zero_iff]
    refine forall₂_congr fun s _ => ?_
    rw [TexCache.levels, List.length_eq_zero_iff]
    exact ⟨fun hnil => AList.ext hnil, fun hempty => by rw [hempty]; rfl⟩
  have hlines : 0 = peak (fun sys : TexSystem cfg => sys.cache.levels.lineRefcount) h :=
    (Peaks.peak_eq_zero_iff.2 hf.lines).symm
  rw [TexCache.queueWatermarks, peaks, TexQueueWatermarks.mk.injEq, ← hextra]
  constructor
  · rintro ⟨-, -, -, -, h, -⟩
    exact h
  · exact fun h => ⟨hf.fragment, hf.request, hf.rob, hf.result, h, hlines⟩

end TexSystem

/-- **The reports are true maxima** exactly as far as the peaks were seen and not forgotten.  In
every run of a baseline cache, with `queue_watermarks` called anywhere, the report equals the
greatest levels of all states if and only if no queue and no map was ever longer than in some state
in which `queue_watermarks` was called, the MSHR table never held an answered entry, and no line
ever had more requests waiting than some line has had since it was last allocated.  In every run of
a texture cache the report is true if and only if the extra fields were empty in every state. -/
theorem watermarks_exact_iff {cfg : CacheConfig} {mfs : Token → MemFetch} :
    (∀ {cls : CacheClass} {trace : List WatchObs} {w : Watched cfg} {h : List (Moment cfg)},
      Runs.Run (Runs.withHistory (Watched.perform cls) Moment.note) (fun s => s.1.Suits)
        (Watched.init cfg mfs, [Moment.start cfg mfs]) trace (w, h) →
      (w.queueWatermarks.2 = Moment.peaks h ↔ Moment.PeaksSeen h)) ∧
    ∀ {trace : List TexObs} {sys : TexSystem cfg} {h : List (TexSystem cfg)},
      Runs.Run (Runs.withHistory TexSystem.perform TexSystem.note) (fun _ _ => True)
        (TexSystem.init cfg mfs, [TexSystem.init cfg mfs]) trace (sys, h) →
      (sys.cache.queueWatermarks = TexSystem.peaks h ↔ ∀ s ∈ h, s.cache.extraMfFields = ∅) :=
  ⟨fun hrun => (Watched.faithful_of_run hrun).report_eq_peaks_iff,
    fun hrun => (TexSystem.faithful_of_run hrun).report_eq_peaks_iff⟩

/-- A miss is recorded by `queue_watermarks` and then sent, and a texture miss is answered
before anyone asks. -/
theorem watermarks_exact_iff_queried_miss :
    (∃ trace w h, Runs.Run
        (Runs.withHistory (Watched.perform .readOnlyCache) Moment.note) (fun s => s.1.Suits)
        (Watched.init (CacheConfig.small 'N' 'R' 'm' 'N' 2 true) fun _ => MemFetch.load 0,
          [Moment.start (CacheConfig.small 'N' 'R' 'm' 'N' 2 true) fun _ => MemFetch.load 0])
        trace (w, h) ∧
      w.sys.levels.missQueue = 0 ∧ w.queueWatermarks.2.missQueue = 1 ∧
      w.queueWatermarks.2 = Moment.peaks h ∧ Moment.PeaksSeen h) ∧
    ∃ trace sys h, Runs.Run
        (Runs.withHistory TexSystem.perform TexSystem.note) (fun _ _ => True)
        (TexSystem.init (CacheConfig.smallTexture 'N' 'm' 'F' 2) fun _ => MemFetch.load 0,
          [TexSystem.init (CacheConfig.smallTexture 'N' 'm' 'F' 2) fun _ => MemFetch.load 0])
        trace (sys, h) ∧
      sys.cache.queueWatermarks.extraMfFields = 0 ∧ ¬∀ s ∈ h, s.cache.extraMfFields = ∅ := by
  constructor
  · obtain ⟨trace, ⟨w, h⟩, hrun, hqueue, hreport, heq⟩ :
        ∃ trace s, Runs.Run
          (Runs.withHistory (Watched.perform .readOnlyCache) Moment.note) (fun s => s.1.Suits)
          (Watched.init (CacheConfig.small 'N' 'R' 'm' 'N' 2 true) fun _ => MemFetch.load 0,
            [Moment.start (CacheConfig.small 'N' 'R' 'm' 'N' 2 true) fun _ => MemFetch.load 0])
          trace s ∧ s.1.sys.levels.missQueue = 0 ∧ s.1.queueWatermarks.2.missQueue = 1 ∧
          s.1.queueWatermarks.2 = Moment.peaks s.2 :=
      Runs.exists_run_of_exec [.call (.access 0 (MemFetch.load 0) 0 []), .queueWatermarks,
        .call (.cycle false)] (by decide)
    exact ⟨trace, w, h, hrun, hqueue, hreport, heq, (watermarks_exact_iff.1 hrun).1 heq⟩
  · obtain ⟨trace, ⟨sys, h⟩, hrun, hzero, hne⟩ :
        ∃ trace s, Runs.Run
          (Runs.withHistory TexSystem.perform TexSystem.note) (fun _ _ => True)
          (TexSystem.init (CacheConfig.smallTexture 'N' 'm' 'F' 2) fun _ => MemFetch.load 0,
            [TexSystem.init (CacheConfig.smallTexture 'N' 'm' 'F' 2) fun _ => MemFetch.load 0])
          trace s ∧ s.1.cache.queueWatermarks.extraMfFields = 0 ∧
          s.1.cache.queueWatermarks ≠ TexSystem.peaks s.2 :=
      Runs.exists_run_of_exec [.access 0 (MemFetch.load 0) 0 [], .cycle false, .fill (.caller 0) 1]
        (by decide)
    exact ⟨trace, sys, h, hrun, hzero, mt (watermarks_exact_iff.2 hrun).2 hne⟩

/-- A miss is sent and answered before `queue_watermarks` is called, and an answered entry is never
recorded. -/
theorem watermarks_miss_peaks :
    ∃ trace w h, Runs.Run
        (Runs.withHistory (Watched.perform .readOnlyCache) Moment.note) (fun s => s.1.Suits)
        (Watched.init (CacheConfig.small 'N' 'R' 'm' 'N' 2 true) fun _ => MemFetch.load 0,
          [Moment.start (CacheConfig.small 'N' 'R' 'm' 'N' 2 true) fun _ => MemFetch.load 0])
        trace (w, h) ∧
      w.queueWatermarks.2.missQueue = 0 ∧ (Moment.peaks h).missQueue = 1 ∧
      w.queueWatermarks.2.mshrReady = 0 ∧ (Moment.peaks h).mshrReady = 1 := by
  obtain ⟨trace, ⟨w, h⟩, hrun, hpeaks⟩ :
      ∃ trace s, Runs.Run
        (Runs.withHistory (Watched.perform .readOnlyCache) Moment.note) (fun s => s.1.Suits)
        (Watched.init (CacheConfig.small 'N' 'R' 'm' 'N' 2 true) fun _ => MemFetch.load 0,
          [Moment.start (CacheConfig.small 'N' 'R' 'm' 'N' 2 true) fun _ => MemFetch.load 0])
        trace s ∧ s.1.queueWatermarks.2.missQueue = 0 ∧ (Moment.peaks s.2).missQueue = 1 ∧
          s.1.queueWatermarks.2.mshrReady = 0 ∧ (Moment.peaks s.2).mshrReady = 1 :=
    Runs.exists_run_of_exec [.call (.access 0 (MemFetch.load 0) 0 []), .call (.cycle false),
      .call (.fill (.caller 0) 1)] (by decide)
  exact ⟨trace, w, h, hrun, hpeaks⟩

end OpenCache
