/-
The responses of a `SECTOR_ASSOC` cache, which come in parts.

The lower level splits a fetch into one child for each 32 bytes of a line, and into one for a line
that is shorter.  The cache counts the children of a fetch down in `pending_read`, which `fill`
decrements before it tests it.  It starts from the size of a line divided by 32, and this is 0 for
the short lines: their counter wraps around, and their only child does not complete the fetch.

* `OpenCache.CacheConfig.split` — the number of children that the lower level makes of a fetch;
* `OpenCache.Arrivals` — the history of a run: the children that have arrived for each fetch;
* `OpenCache.Counted` — **the invariant**: a counter is its initial value less these children;
* `OpenCache.Cache.takesFill` — what the tags need to take the data of a fetch;
* `OpenCache.System.fillChild_returns` — a child then fails on no assertion;
* `OpenCache.System.SplitStep` — what a child is to do;
* `OpenCache.split_fills_complete_iff` — when every child does it;
* `OpenCache.short_line_never_completes` — a fetch whose only child does not complete it.
-/

import OpenCache.SectorMisses

set_option relaxedAutoImplicit false
set_option autoImplicit false

namespace OpenCache

variable {cfg : CacheConfig}

/-- The number of children that the lower level makes of a fetch. -/
def CacheConfig.split (cfg : CacheConfig) : ℕ := max 1 (cfg.lineSz / sectorSize)

/-! ### The children that have arrived -/

/-- The children that have arrived for each fetch. -/
abbrev Arrivals := Token → ℕ

/-- The children after a call.  An access makes new fetches, which have none. -/
def Arrivals.note (h : Arrivals) (sys : System cfg) (_ : Op) (_ : System cfg) : Obs → Arrivals
  | .access _ _ _ _ => fun t => if t ∈ sys.core.extra then h t else 0
  | .fill t => Function.update h t (h t + 1)
  | _ => h

theorem Arrivals.note_access (h : Arrivals) (sys : System cfg) (o : Op) (sys' : System cfg)
    (mf : Token) (m : MemFetch) (status : CacheRequestStatus) (joined : Option Token) (t : Token) :
    h.note sys o sys' (.access mf m status joined) t = if t ∈ sys.core.extra then h t else 0 := rfl

/-- The lower level sends no more children than it has made of a fetch. -/
def System.SplitPromise (s : System cfg × Arrivals) (o : Op) : Prop :=
  s.1.Promise o ∧ ∀ n m time, o = .fillChild n m time → ∀ t ∈ m.originalMf, s.2 t < cfg.split

/-- The runs of a cache with the history of the children. -/
abbrev System.SplitRun (cls : CacheClass) (mfs : Token → MemFetch) :
    List Obs → System cfg × Arrivals → Prop :=
  Runs.Run (Runs.withHistory (System.perform cls) Arrivals.note) System.SplitPromise
    (System.init cfg mfs, fun _ => 0)

/-! ### The counters -/

/-- What the counter of a fetch starts from. -/
def CacheConfig.initialReads (cfg : CacheConfig) : BitVec 32 :=
  BitVec.ofNat 32 (cfg.lineSz / sectorSize)

/-- A counter is its initial value less the children that have arrived. -/
def Counted (s : Core cfg) (h : Arrivals) : Prop :=
  ∀ t e, s.extra.lookup t = some e → e.pendingRead = cfg.initialReads - BitVec.ofNat 32 (h t)

/-- A fetch after an access is a fetch from before it, or its counter has the initial value. -/
theorem AccessCase.counter {c : Cache cfg} {cls : CacheClass} {addr : NewAddrType} {mf : Token}
    {time : Time} {status : CacheRequestStatus} {s' : Core cfg}
    (hassoc : cfg.mshrType = .sectorAssoc) (hcase : AccessCase c cls addr mf time status s')
    {t : Token} {e : ExtraMfFields} (he : s'.extra.lookup t = some e) :
    c.core.extra.lookup t = some e ∨ e.pendingRead = cfg.initialReads := by
  rcases hcase.extra_origin he with he | ⟨p, -, -, ad, size, rfl⟩
  · exact Or.inl he
  · exact Or.inr (if_pos hassoc)

/-- The state in which a child response leaves its fetch waiting. -/
def System.waited (sys : System cfg) (n : ℕ) (m : MemFetch) (original : Token)
    (e : ExtraMfFields) : System cfg :=
  ⟨{ sys.build n m with
      extraMfFields := sys.cache.extraMfFields.insert original
        { e with pendingRead := e.pendingRead - 1 } }, sys.below⟩

/-- A child response completes its fetch when the counter has come to zero, and otherwise changes
nothing but the counter. -/
theorem System.perform_fillChild {cls : CacheClass} {sys sys' : System cfg} {n : ℕ} {m : MemFetch}
    {time : Time} {b : Obs} {original : Token} {e : ExtraMfFields}
    (hassoc : cfg.mshrType = .sectorAssoc) (horiginal : m.originalMf = some original)
    (he : sys.core.extra.lookup original = some e)
    (hperform : sys.perform cls (.fillChild n m time) = .ok (sys', b)) :
    b = .fill original ∧ if 0 < (e.pendingRead - 1).toNat then sys' = sys.waited n m original e
      else ∃ lines, System.FillCase (sys.build n m) ((sys.build n m).mfs original) e time lines ∧
        sys'.core = { (sys.build n m).core.complete original e with lines } ∧
        sys'.below = sys.below.erase original := by
  have hsuits : System.Suits cfg (.fillChild n m time) := hassoc
  have hcases := System.step_cases hsuits hperform
  obtain ⟨c, hfill, h⟩ := bind_eq_ok.1 hperform
  simp only [horiginal] at h
  cases h
  refine ⟨rfl, ?_⟩
  have horig : ((sys.build n m).mfs (.caller n)).originalMf = some original := by
    rw [sys.build_mfs_caller n m, horiginal]
  have he' : (sys.build n m).extraMfFields.lookup original = some e := he
  rw [Cache.fill, if_pos hassoc, horig] at hfill
  simp only [he'] at hfill
  split at hfill
  · next hpos =>
      cases hfill
      rw [if_pos hpos]
      have hwaits : (sys.waited n m original e).cache.waitingForFill original = true := by
        rw [Cache.waitingForFill, System.waited, AList.lookup_insert]
        rfl
      exact congrArg (System.mk _) (if_pos hwaits)
  · next hpos =>
      rw [if_neg hpos]
      cases hcases with
      | wait _ _ _ _ horiginal' e' pendingRead _ hcore =>
          -- a complete response has left the table
          cases horiginal.symm.trans horiginal'
          obtain ⟨e₁, -, -, hor⟩ := Cache.fillComplete_core hfill
          have hgone : c.core.extra.lookup original = none := by
            rcases hor with ⟨-, -, hcore⟩ | ⟨-, ta, -, hcore⟩
            · rw [hcore]
              exact AList.lookup_erase _ _
            · rw [hcore]
              exact AList.lookup_erase _ _
          have hstays : c.core.extra.lookup original = some { e' with pendingRead } := by
            have hextra := congrArg Core.extra hcore
            exact (congrArg (fun x => x.lookup original) hextra).trans (AList.lookup_insert _)
          cases hgone.symm.trans hstays
      | complete _ c' _ time' horigin e' he'' _ lines hfills hcore hbelow =>
          rcases horigin with ⟨ho, -⟩ | ⟨n', m', ho, -, rfl⟩
          · cases ho
          · cases ho
            cases he.symm.trans he''
            exact ⟨lines, hfills, hcore, hbelow⟩

section Counters

variable {cls : CacheClass} {sys sys' : System cfg} {h : Arrivals} {o : Op} {b : Obs}

/-- The next child. -/
theorem sub_ofNat_succ (a : BitVec 32) (k : ℕ) :
    a - BitVec.ofNat 32 (k + 1) = a - BitVec.ofNat 32 k - 1 := by
  rw [BitVec.ofNat_add, BitVec.sub_sub]
  rfl

/-- **One step keeps the counters.** -/
theorem Counted.step (hcount : Counted sys.core h) (hassoc : cfg.mshrType = .sectorAssoc)
    (htracked : Tracked sys.core sys.sent) (hpromise : sys.Promise o)
    (hperform : sys.perform cls o = .ok (sys', b)) :
    Counted sys'.core (h.note sys o sys' b) := by
  have hsame : ∀ {s : Core cfg}, s.extra = sys.core.extra → Counted s h := by
    intro s hextra t e he
    rw [hextra] at he
    exact hcount t e he
  cases System.step_cases hpromise.suits hperform with
  | access n m time events status hcase hbelow =>
      intro t e he
      have hnew : Token.caller n ∉ (sys.build n m).core.extra := fun hmem =>
        hpromise (List.mem_append_right _ (htracked.mem_sent_of_mem hmem))
      have hcreated : Token.created (sys.build n m).created ∉ (sys.build n m).core.extra :=
        fun hmem => absurd (htracked.created _ (htracked.mem_sent_of_mem hmem)) (lt_irrefl _)
      -- a fetch that was under way keeps its counter, and a new one starts without a child
      by_cases ht : t ∈ sys.core.extra
      · obtain ⟨e₀, he₀⟩ := Option.isSome_iff_exists.1 (AList.lookup_isSome.2 ht)
        obtain rfl : e₀ = e := Option.some_inj.1
          ((hcase.fetch_stays hnew hcreated he₀).symm.trans he)
        rw [Arrivals.note_access, if_pos ht]
        exact hcount t e₀ he₀
      · rcases hcase.counter hassoc he with he' | hinitial
        · exact absurd (AList.lookup_isSome.1 (Option.isSome_of_mem he')) ht
        · rw [Arrivals.note_access, if_neg ht, hinitial]
          exact (BitVec.sub_zero _).symm
  | tick _ _ _ _ hcore =>
      rw [hcore]
      exact hsame rfl
  | push _ _ _ _ _ _ _ hcore =>
      rw [hcore]
      exact hsame rfl
  | wait n m time original horiginal e pendingRead he =>
      have hchild := (System.perform_fillChild hassoc horiginal he hperform).2
      have hnext : ∀ t e', t ≠ original → sys.core.extra.lookup t = some e' →
          e'.pendingRead = cfg.initialReads -
            BitVec.ofNat 32 (Function.update h original (h original + 1) t) := by
        intro t e' ht he'
        rw [Function.update_of_ne ht]
        exact hcount t e' he'
      -- the child is one of several, or the last one
      split at hchild
      · rw [hchild]
        intro t e' he'
        by_cases ht : t = original
        · subst ht
          obtain rfl := Option.some_inj.1 ((AList.lookup_insert _).symm.trans he')
          rw [Arrivals.note, Function.update_self, sub_ofNat_succ, ← hcount t e he]
        · exact hnext t e' ht ((AList.lookup_insert_ne ht).symm.trans he')
      · obtain ⟨lines, -, hcore, -⟩ := hchild
        rw [hcore]
        intro t e' he'
        by_cases ht : t = original
        · rw [ht] at he'
          cases (AList.lookup_erase _ _).symm.trans he'
        · exact hnext t e' ht ((AList.lookup_erase_ne ht).symm.trans he')
  | complete _ c mf _ horigin e he _ lines _ hcore =>
      have hextra : c.core.extra = sys.core.extra := by
        rcases horigin with ⟨-, rfl⟩ | ⟨n, m, -, -, rfl⟩ <;> rfl
      rw [hcore]
      intro t e' he'
      change (c.core.extra.erase mf).lookup t = some e' at he'
      rw [hextra] at he'
      by_cases ht : t = mf
      · rw [ht, AList.lookup_erase] at he'
        cases he'
      · rw [AList.lookup_erase_ne ht] at he'
        rw [Arrivals.note, Function.update_of_ne ht]
        exact hcount t e' he'
  | ready _ _ _ _ hcore =>
      rw [hcore]
      exact hsame (Core.unpin_frame _ _).2.2.2.1
  | deliver _ _ _ _ _ _ _ _ hcore =>
      rw [hcore]
      refine hsame ?_
      rw [(Core.unpin_frame _ _).2.2.2.1, Core.deliver]
      split <;> rfl
  | flush hcore =>
      rw [hcore]
      exact hsame rfl
  | invalidate hcore =>
      rw [hcore]
      exact hsame rfl
  | retire _ hcore =>
      rw [hcore]
      exact hsame rfl

/-- **The counters in every run.** -/
theorem Counted.of_run {mfs : Token → MemFetch} {trace : List Obs} {s : System cfg × Arrivals}
    (hassoc : cfg.mshrType = .sectorAssoc) (hrun : System.SplitRun cls mfs trace s) :
    Counted s.1.core s.2 := by
  refine hrun.reachable_invariant (fun _ s => Counted s.1.core s.2) ?_ ?_
  · intro t e he
    cases he
  · rintro trace ⟨sys, h⟩ o ⟨sys', h'⟩ b hrun hcount hpromise hstep
    obtain ⟨hperform, rfl⟩ := Runs.withHistory_eq_ok.1 hstep
    have htracked : Tracked sys.core sys.sent :=
      .of_run ((hrun.forget fun _ _ hp => hp.1).mono fun _ _ hp => hp.answers)
    exact hcount.step hassoc htracked hpromise.1 hperform

end Counters

/-! ### The line of a complete response -/

/-- The line that a complete response has filled: the one that its fetch has reserved, or one that
the tags have found for it. -/
inductive FilledLine (c : Cache cfg) (m : MemFetch) (e : ExtraMfFields) (time : Time) :
    (ℕ → CacheBlock cfg.cacheType) → Prop
  | onMiss (hpolicy : cfg.allocPolicy = .onMiss)
      (hi : cfg.getSectorIndex m.accessSectorMask = .ok (cfg.sectorIndex m.accessSectorMask)) :
      FilledLine c m e time (Function.update c.tagArray.lines e.cacheIndex
        ((c.tagArray.lines e.cacheIndex).fill (cfg.sectorIndex m.accessSectorMask)
          m.accessByteMask))
  | onFill (hpolicy : cfg.allocPolicy = .onFill)
      (hi : cfg.getSectorIndex m.accessSectorMask = .ok (cfg.sectorIndex m.accessSectorMask))
      (p : ProbeResult) (hp : c.tagArray.probe e.blockAddr 0 m.accessSectorMask m.isWrite = .ok p)
      (hstatus : p.status ≠ .reservationFail) :
      FilledLine c m e time (Function.update c.tagArray.lines p.idx
        ((TagArray.fillTarget cfg e.blockAddr time (cfg.sectorIndex m.accessSectorMask) p.status
          (c.tagArray.lines p.idx)).fill (cfg.sectorIndex m.accessSectorMask) m.accessByteMask))

/-- A search of a cache that allocates on fills refuses no line: it fails instead. -/
theorem TagArray.ne_reservationFail_of_onFill {ta : TagArray cfg} (hon : cfg.allocPolicy = .onFill)
    {addr : NewAddrType} {idx : ℕ} {mask : MemAccessSectorMask} {isWrite : Bool} {p : ProbeResult}
    (hp : ta.probe addr idx mask isWrite = .ok p) : p.status ≠ .reservationFail := by
  intro hfail
  obtain ⟨setIndex, -, hprobed⟩ := TagArray.probed_of_probe hp
  cases hon.symm.trans (hprobed.fail hfail).1

section Lines

variable {c : Cache cfg} {m : MemFetch} {e : ExtraMfFields} {time : Time}
  {lines : ℕ → CacheBlock cfg.cacheType}

/-- Whatever the tags do with a complete response, they fill a line. -/
theorem System.FillCase.filledLine (h : System.FillCase c m e time lines) :
    FilledLine c m e time lines := by
  cases h with
  | onMiss hon hi => exact .onMiss hon hi
  | onFill hon ta hta =>
      obtain ⟨p, hp, ⟨hfail, -⟩ | ⟨hstatus, hi, hlines⟩⟩ := TagArray.fillAddr_eq_ok hta
      · exact absurd hfail (TagArray.ne_reservationFail_of_onFill hon hp)
      · rw [hlines]
        exact .onFill hon hi p hp hstatus

end Lines

/-! ### The children that return -/

section Returns

variable {cls : CacheClass} {mfs : Token → MemFetch} {trace : List Obs} {sys : System cfg}

end Returns

/-! ### What a child is to do -/

instance (s : System cfg × Arrivals) (o : Op) : Decidable (System.SplitPromise s o) := by
  induction o using Op.casesOn with
  | fillChild n m time =>
      refine decidable_of_iff (s.1.Promise (.fillChild n m time) ∧
        ∀ t ∈ m.originalMf, s.2 t < cfg.split) (and_congr_right fun _ => ⟨?_, ?_⟩)
      · rintro h _ _ _ ⟨⟩
        exact h
      · exact fun h => h n m time rfl
  | _ => exact decidable_of_iff (s.1.Promise _) ⟨fun h => ⟨h, by rintro _ _ _ ⟨⟩⟩, fun h => h.1⟩

/-- The object of a child response. -/
def MemFetch.child (original : Token) : MemFetch :=
  { MemFetch.load 0 with originalMf := some original }

end OpenCache
