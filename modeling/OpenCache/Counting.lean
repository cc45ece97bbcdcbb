/-
The statistics of a cache agree with what has happened.

`access` counts the outcome of every request at its end.  The reasons of refusals are recorded in
the handlers, far from there, and a request that joins an MSHR entry is counted once more, under
`MSHR_HIT`.  Over any run the three tables fit together nevertheless: the outcomes add up to the
requests, the window table to the requests since the last `clear_pw`, and the reasons to the
refusals.

* `OpenCache.CacheStats.SameCounts` — statistics that differ in `MSHR_HIT` only;
* `OpenCache.Cache.access_counts` — **what one access counts**;
* `OpenCache.CacheStats.Conserved`, `OpenCache.Conserved.step` — the invariant;
* `OpenCache.counters_add_up` — **conservation of the statistics**, over all runs with `clear_pw`.
-/

import OpenCache.Bookkeeping

set_option relaxedAutoImplicit false
set_option autoImplicit false

namespace OpenCache

/-- The outcomes that an access is counted under. -/
def CacheRequestStatus.outcomes : List CacheRequestStatus :=
  [.hit, .hitReserved, .miss, .reservationFail, .sectorMiss]

theorem CacheRequestStatus.outcomes_nodup : CacheRequestStatus.outcomes.Nodup := by
  decide

theorem CacheRequestStatus.mem_outcomes {o : CacheRequestStatus} :
    o ∈ CacheRequestStatus.outcomes ↔ o ≠ .mshrHit := by
  cases o <;> decide

/-- All reasons. -/
def CacheReservationFailReason.reasons : List CacheReservationFailReason :=
  [.lineAllocFail, .missQueueFull, .mshrEnrtyFail, .mshrMergeEnrtyFail, .mshrRwPending,
    .linePinnedFail, .hitResponseQueueFull]

theorem CacheReservationFailReason.reasons_nodup : CacheReservationFailReason.reasons.Nodup := by
  decide

theorem CacheReservationFailReason.mem_reasons (r : CacheReservationFailReason) :
    r ∈ CacheReservationFailReason.reasons := by
  cases r <;> decide

/-- The outcome that is counted is a refusal when the access is. -/
theorem selectStatsStatus_eq_reservationFail {probe access : CacheRequestStatus} :
    selectStatsStatus probe access = .reservationFail ↔ access = .reservationFail := by
  cases probe <;> cases access <;> decide

theorem selectStatsStatus_ne_mshrHit {probe access : CacheRequestStatus} (hprobe : probe ≠ .mshrHit)
    (haccess : access ≠ .mshrHit) : selectStatsStatus probe access ≠ .mshrHit := by
  cases probe <;> cases access <;> first | decide | contradiction

/-! ### Requests that are accepted -/

/-- Statistics that differ in the `MSHR_HIT` counters only. -/
structure CacheStats.SameCounts (s s' : CacheStats) : Prop where
  failStats : s'.failStats = s.failStats
  statsPw : s'.statsPw = s.statsPw
  stats : ∀ streamID accessType outcome, outcome ≠ .mshrHit →
    s'.stats.get streamID accessType outcome = s.stats.get streamID accessType outcome

namespace CacheStats.SameCounts

variable {s : CacheStats}

theorem refl (s : CacheStats) : s.SameCounts s := ⟨rfl, rfl, fun _ _ _ _ => rfl⟩

/-- A request that joins an entry is counted as an `MSHR_HIT`. -/
theorem mshrHit (s : CacheStats) (accessType : MemAccessType) (streamID : ℕ) :
    s.SameCounts (s.incStats accessType .mshrHit streamID) where
  failStats := rfl
  statsPw := rfl
  stats stream type o ho := by
    rw [incStats]
    by_cases hsame : stream = streamID ∧ type = accessType
    · obtain ⟨rfl, rfl⟩ := hsame
      rw [StatTable.get_inc, if_neg ho, Nat.add_zero]
    · exact StatTable.get_inc_other _ _ _ hsame

end CacheStats.SameCounts

/-- A request that is accepted is counted at most as an `MSHR_HIT`. -/
theorem Books.Accepts.sameCounts {cfg : CacheConfig} {b b' : Books cfg} (h : b.Accepts b') :
    b.stats.SameCounts b'.stats := by
  cases h with
  | same => exact .refl _
  | add => exact .refl _
  | merge _ accessType streamID => exact .mshrHit _ _ _

namespace Cache

variable {cfg : CacheConfig}

/-- What one access does to the statistics: it counts one outcome, and it counts one reason if that
outcome is a refusal. -/
structure AccessCounts (m : MemFetch) (status : CacheRequestStatus) (s s' : CacheStats)
    (outcome : CacheRequestStatus) (counted : CacheStats) : Prop where
  ne_mshrHit : outcome ≠ .mshrHit
  refused : outcome = .reservationFail ↔ status = .reservationFail
  stats : s' = (counted.incStats m.accessType outcome m.streamID).incStatsPw m.accessType outcome
    m.streamID
  accepts : status ≠ .reservationFail → s.SameCounts counted
  declines : status = .reservationFail →
    ∃ reason, counted = s.incFailStats m.accessType reason m.streamID

/-- **What one access counts.** -/
theorem access_counts {c c' : Cache cfg} {cls : CacheClass} {addr : NewAddrType} {mf : Token}
    {time : Time} {events events' : List CacheEvent} {status : CacheRequestStatus}
    (h : c.access cls addr mf time events = .ok (c', status, events')) :
    ∃ outcome counted, AccessCounts (c.mfs mf) status c.stats c'.stats outcome counted := by
  have hstatus : status ≠ .mshrHit := by
    have hcase := access_cases h
    rintro rfl
    cases hcase
  by_cases hrefused : status = .reservationFail
  · subst hrefused
    obtain ⟨-, reason, p, -, rfl⟩ := @access_declines cfg (fun _ => True) c c' addr mf
      (fun _ _ => trivial) (fun _ => trivial) cls time events events' h
    refine ⟨.reservationFail, c.stats.incFailStats (c.mfs mf).accessType reason (c.mfs mf).streamID,
      by decide, by simp, ?_, by simp, fun _ => ⟨reason, rfl⟩⟩
    rw [countAccess, selectStatsStatus_eq_reservationFail.2 rfl]
    rfl
  · obtain ⟨p, c₁, c₂, hprobe, haccepts, rfl⟩ := access_books h hrefused
    obtain ⟨setIndex, -, hprobed⟩ := TagArray.probed_of_probe (probes_of_probeTags hprobe)
    exact ⟨selectStatsStatus p.status status, c₂.stats,
      selectStatsStatus_ne_mshrHit hprobed.ne_mshrHit hstatus,
      selectStatsStatus_eq_reservationFail, rfl, fun _ => haccepts.sameCounts,
      fun hr => absurd hr hrefused⟩

/-! ### The other methods -/

/-- The tables of outcomes and reasons are counted in `access` only. -/
theorem cycle_tables {c c' : Cache cfg} {memportFull : Bool} {pushed : Option Token}
    (h : c.cycle memportFull = .ok (c', pushed)) :
    c'.stats.stats = c.stats.stats ∧ c'.stats.statsPw = c.stats.statsPw ∧
      c'.stats.failStats = c.stats.failStats := by
  obtain ⟨⟨waiting, done⟩, -, h⟩ := bind_eq_ok.1 h
  cases h
  cases c.missQueue with
  | nil => exact ⟨rfl, rfl, rfl⟩
  | cons mf rest => cases memportFull <;> exact ⟨rfl, rfl, rfl⟩

theorem fillComplete_stats {c c' : Cache cfg} {mf : Token} {time : Time}
    (h : c.fillComplete mf time = .ok c') : c'.stats = c.stats := by
  unfold fillComplete at h
  split at h
  · cases h
  · obtain ⟨_, -, h⟩ := bind_eq_ok.1 h
    dsimp only at h
    split at h
    · obtain ⟨ta, -, h⟩ := bind_eq_ok.1 h
      obtain ⟨t, -, h⟩ := bind_eq_ok.1 h
      cases h
      rfl
    · obtain ⟨ta, -, h⟩ := bind_eq_ok.1 h
      obtain ⟨t, -, h⟩ := bind_eq_ok.1 h
      cases h
      rfl
    · cases h

theorem fill_stats {c c' : Cache cfg} {mf : Token} {time : Time} (h : c.fill mf time = .ok c') :
    c'.stats = c.stats := by
  unfold fill at h
  split at h
  · split at h
    · cases h
    · split at h
      · cases h
      · dsimp only at h
        split at h
        · cases h
          rfl
        · exact (fillComplete_stats h).trans rfl
  · exact fillComplete_stats h

theorem nextAccess_stats {c c' : Cache cfg} {mf : Token} (h : c.nextAccess = .ok (c', mf)) :
    c'.stats = c.stats := by
  have hunpin : ∀ {c₁ c₂ : Cache cfg} {t : Token}, c₁.unpinResponse t = .ok c₂ →
      c₂.stats = c₁.stats := by
    intro c₁ c₂ t h
    unfold unpinResponse at h
    split at h
    · cases h
      rfl
    · obtain ⟨block, -, h⟩ := bind_eq_ok.1 h
      cases h
      rfl
  obtain ⟨_, -, h⟩ := bind_eq_ok.1 h
  split at h
  · obtain ⟨c₁, h₁, h⟩ := bind_eq_ok.1 h
    cases h
    exact (hunpin h₁).trans rfl
  · obtain ⟨⟨t, mf'⟩, -, h⟩ := bind_eq_ok.1 h
    obtain ⟨c₁, h₁, h⟩ := bind_eq_ok.1 h
    cases h
    exact (hunpin h₁).trans rfl

/-- `clear_pw`. -/
def clearPw (c : Cache cfg) : Cache cfg := { c with stats := c.stats.clearPw }

end Cache

/-! ### The driver -/

/-- The calls of a driver that also reads the statistics window by window. -/
inductive StatOp
  | call (o : Op)
  | clearPw

/-- What is seen of these calls: of `clear_pw`, the outcomes counted until then. -/
inductive StatObs
  | call (b : Obs)
  | clearPw (stats : StatTable CacheRequestStatus)

/-- One call. -/
def System.performCounted {cfg : CacheConfig} (cls : CacheClass) (sys : System cfg) :
    StatOp → Step (System cfg × StatObs)
  | .call o => do
      let (sys', b) ← sys.perform cls o
      return (sys', .call b)
  | .clearPw => return (⟨sys.cache.clearPw, sys.below⟩, .clearPw sys.cache.stats.stats)

namespace StatObs

/-- The access calls in a trace for a stream and a type. -/
def accesses (streamID : ℕ) (accessType : MemAccessType) (trace : List StatObs) : ℕ :=
  trace.countP fun b => match b with
    | .call (.access _ m _ _) => decide (streamID = m.streamID ∧ accessType = m.accessType)
    | _ => false

/-- Those that were refused. -/
def refusals (streamID : ℕ) (accessType : MemAccessType) (trace : List StatObs) : ℕ :=
  trace.countP fun b => match b with
    | .call (.access _ m status _) =>
        decide ((streamID = m.streamID ∧ accessType = m.accessType) ∧ status = .reservationFail)
    | _ => false

/-- The calls since the last `clear_pw`. -/
def window (trace : List StatObs) : List StatObs :=
  trace.foldl (fun w b => match b with
    | .clearPw _ => []
    | .call b => w ++ [.call b]) []

/-- The outcomes that the last `clear_pw` has seen. -/
def atClear (trace : List StatObs) : StatTable CacheRequestStatus :=
  trace.foldl (fun t b => match b with
    | .clearPw stats => stats
    | .call _ => t) ∅

theorem accesses_append (streamID : ℕ) (accessType : MemAccessType) (trace : List StatObs)
    (b : StatObs) : accesses streamID accessType (trace ++ [b]) =
      accesses streamID accessType trace + accesses streamID accessType [b] :=
  List.countP_append

theorem refusals_append (streamID : ℕ) (accessType : MemAccessType) (trace : List StatObs)
    (b : StatObs) : refusals streamID accessType (trace ++ [b]) =
      refusals streamID accessType trace + refusals streamID accessType [b] :=
  List.countP_append

@[simp] theorem window_append_call (trace : List StatObs) (b : Obs) :
    window (trace ++ [.call b]) = window trace ++ [.call b] := by
  rw [window, List.foldl_append]
  rfl

@[simp] theorem window_append_clearPw (trace : List StatObs)
    (stats : StatTable CacheRequestStatus) : window (trace ++ [.clearPw stats]) = [] := by
  rw [window, List.foldl_append]
  rfl

@[simp] theorem atClear_append_call (trace : List StatObs) (b : Obs) :
    atClear (trace ++ [.call b]) = atClear trace := by
  rw [atClear, List.foldl_append]
  rfl

@[simp] theorem atClear_append_clearPw (trace : List StatObs)
    (stats : StatTable CacheRequestStatus) : atClear (trace ++ [.clearPw stats]) = stats := by
  rw [atClear, List.foldl_append]
  rfl

end StatObs

/-! ### Conservation -/

open StatObs CacheRequestStatus CacheReservationFailReason

/-- The tables agree with what has happened, for a stream and a type. -/
structure CacheStats.Conserved (s : CacheStats) (streamID : ℕ) (accessType : MemAccessType)
    (trace : List StatObs) : Prop where
  total : s.stats.total outcomes streamID accessType = accesses streamID accessType trace
  window : s.statsPw.total outcomes streamID accessType =
    accesses streamID accessType (window trace)
  since : ∀ outcome, outcome ≠ .mshrHit → s.stats.get streamID accessType outcome =
    (atClear trace).get streamID accessType outcome + s.statsPw.get streamID accessType outcome
  refused : s.stats.get streamID accessType .reservationFail =
    refusals streamID accessType trace
  failed : s.failStats.total reasons streamID accessType = refusals streamID accessType trace

namespace CacheStats.Conserved

variable {s s' : CacheStats} {streamID : ℕ} {accessType : MemAccessType} {trace : List StatObs}

/-- A call that is no access changes no table. -/
theorem of_tables (h : s.Conserved streamID accessType trace) (hstats : s'.stats = s.stats)
    (hpw : s'.statsPw = s.statsPw) (hfail : s'.failStats = s.failStats) {b : Obs}
    (hb : ∀ mf m status joined, b ≠ .access mf m status joined) :
    s'.Conserved streamID accessType (trace ++ [.call b]) := by
  have haccesses : accesses streamID accessType [.call b] = 0 := by
    cases b with
    | access mf m status joined => exact absurd rfl (hb mf m status joined)
    | _ => rfl
  have hrefusals : refusals streamID accessType [.call b] = 0 := by
    cases b with
    | access mf m status joined => exact absurd rfl (hb mf m status joined)
    | _ => rfl
  constructor
  · rw [hstats, h.total, accesses_append, haccesses, Nat.add_zero]
  · rw [hpw, h.window, window_append_call, accesses_append, haccesses, Nat.add_zero]
  · intro outcome houtcome
    rw [hstats, hpw, atClear_append_call]
    exact h.since outcome houtcome
  · rw [hstats, h.refused, refusals_append, hrefusals, Nat.add_zero]
  · rw [hfail, h.failed, refusals_append, hrefusals, Nat.add_zero]

/-- `clear_pw` starts a new window. -/
theorem clearPw (h : s.Conserved streamID accessType trace) :
    s.clearPw.Conserved streamID accessType (trace ++ [.clearPw s.stats]) := by
  constructor
  · rw [accesses_append]
    exact h.total
  · rw [window_append_clearPw, CacheStats.clearPw, StatTable.total_empty]
    rfl
  · intro outcome _
    rw [atClear_append_clearPw, CacheStats.clearPw, StatTable.get_empty]
    rfl
  · rw [refusals_append]
    exact h.refused
  · rw [refusals_append]
    exact h.failed

/-- An access is counted once in each of the first two tables, and once in the third if it is
refused. -/
theorem access (h : s.Conserved streamID accessType trace) {mf : Token} {m : MemFetch}
    {status outcome : CacheRequestStatus} {joined : Option Token} {counted : CacheStats}
    (hcounts : Cache.AccessCounts m status s s' outcome counted) :
    s'.Conserved streamID accessType (trace ++ [.call (.access mf m status joined)]) := by
  have haccesses : accesses streamID accessType [.call (.access mf m status joined)] =
      if streamID = m.streamID ∧ accessType = m.accessType then 1 else 0 := by
    rw [accesses, List.countP_singleton]
    simp
  have hrefusals : refusals streamID accessType [.call (.access mf m status joined)] =
      if (streamID = m.streamID ∧ accessType = m.accessType) ∧ status = .reservationFail then 1
      else 0 := by
    rw [refusals, List.countP_singleton]
    simp
  -- before the outcome is counted, the first two tables have changed in `MSHR_HIT` only
  have hcounted : counted.statsPw = s.statsPw ∧ ∀ o, o ≠ .mshrHit →
      counted.stats.get streamID accessType o = s.stats.get streamID accessType o := by
    by_cases hstatus : status = .reservationFail
    · obtain ⟨reason, rfl⟩ := hcounts.declines hstatus
      exact ⟨rfl, fun _ _ => rfl⟩
    · have hsame := hcounts.accepts hstatus
      exact ⟨hsame.statsPw, hsame.stats streamID accessType⟩
  have hfail : s'.failStats.total reasons streamID accessType =
      s.failStats.total reasons streamID accessType +
        if (streamID = m.streamID ∧ accessType = m.accessType) ∧ status = .reservationFail then 1
        else 0 := by
    rw [hcounts.stats]
    by_cases hstatus : status = .reservationFail
    · obtain ⟨reason, rfl⟩ := hcounts.declines hstatus
      refine (StatTable.total_inc _ reasons_nodup (mem_reasons reason) _ _ _ _).trans ?_
      simp only [hstatus, and_true]
    · have hsame : counted.failStats = s.failStats := (hcounts.accepts hstatus).failStats
      simp only [hstatus, and_false, if_false, Nat.add_zero]
      rw [← hsame]
      rfl
  have hmem : outcome ∈ outcomes := mem_outcomes.2 hcounts.ne_mshrHit
  have hstats : s'.stats = counted.stats.inc m.accessType outcome m.streamID := by
    rw [hcounts.stats]
    rfl
  have hpw : s'.statsPw = s.statsPw.inc m.accessType outcome m.streamID := by
    rw [hcounts.stats, ← hcounted.1]
    rfl
  constructor
  · rw [hstats, StatTable.total_inc _ outcomes_nodup hmem, accesses_append, haccesses, ← h.total]
    congr 1
    exact StatTable.total_congr fun o ho => hcounted.2 o (mem_outcomes.1 ho)
  · rw [hpw, StatTable.total_inc _ outcomes_nodup hmem, window_append_call, accesses_append,
      haccesses, ← h.window]
  · intro o ho
    rw [hstats, hpw, StatTable.get_inc_ite, StatTable.get_inc_ite, hcounted.2 o ho, h.since o ho,
      atClear_append_call, Nat.add_assoc]
  · rw [hstats, StatTable.get_inc_ite, hcounted.2 _ (by simp), h.refused, refusals_append,
      hrefusals]
    simp only [eq_comm (a := CacheRequestStatus.reservationFail), hcounts.refused]
  · rw [hfail, h.failed, refusals_append, hrefusals]

/-- **Every call keeps the tables in agreement.** -/
theorem step {cfg : CacheConfig} {cls : CacheClass} {sys sys' : System cfg} {o : StatOp}
    {b : StatObs} (h : sys.cache.stats.Conserved streamID accessType trace)
    (hperform : sys.performCounted cls o = .ok (sys', b)) :
    sys'.cache.stats.Conserved streamID accessType (trace ++ [b]) := by
  cases o with
  | clearPw =>
      cases hperform
      exact h.clearPw
  | call o =>
      obtain ⟨⟨sys₁, b₁⟩, hcall, hperform⟩ := bind_eq_ok.1 hperform
      cases hperform
      cases o with
      | access n m time events =>
          obtain ⟨⟨c, status, events'⟩, haccess, hcall⟩ := bind_eq_ok.1 hcall
          cases hcall
          obtain ⟨outcome, counted, hcounts⟩ := Cache.access_counts haccess
          rw [System.build_mfs_caller] at hcounts
          exact h.access hcounts
      | cycle memportFull =>
          obtain ⟨⟨c, pushed⟩, hcycle, hcall⟩ := bind_eq_ok.1 hcall
          cases hcall
          obtain ⟨hstats, hpw, hfail⟩ := Cache.cycle_tables hcycle
          exact h.of_tables hstats hpw hfail (by simp)
      | fill mf time =>
          obtain ⟨c, hfill, hcall⟩ := bind_eq_ok.1 hcall
          cases hcall
          have hstats := Cache.fill_stats hfill
          exact h.of_tables (by rw [hstats]) (by rw [hstats]) (by rw [hstats]) (by simp)
      | fillChild n m time =>
          obtain ⟨c, hfill, hcall⟩ := bind_eq_ok.1 hcall
          have hstats : c.stats = sys.cache.stats := (Cache.fill_stats hfill).trans rfl
          cases horiginal : m.originalMf with
          | none =>
              rw [horiginal] at hcall
              cases hcall
          | some original =>
              rw [horiginal] at hcall
              cases hcall
              exact h.of_tables (by rw [hstats]) (by rw [hstats]) (by rw [hstats]) (by simp)
      | nextAccess =>
          obtain ⟨⟨c, mf⟩, hnext, hcall⟩ := bind_eq_ok.1 hcall
          cases hcall
          have hstats := Cache.nextAccess_stats hnext
          exact h.of_tables (by rw [hstats]) (by rw [hstats]) (by rw [hstats]) (by simp)
      | flush =>
          cases hcall
          exact h.of_tables rfl rfl rfl (by simp)
      | invalidate =>
          cases hcall
          exact h.of_tables rfl rfl rfl (by simp)
      | retire mf =>
          cases hcall
          exact h.of_tables rfl rfl rfl (by simp)

/-- In every run the tables agree with what has happened. -/
theorem of_run {cfg : CacheConfig} {cls : CacheClass} {promise : System cfg → StatOp → Prop}
    {mfs : Token → MemFetch} {sys : System cfg}
    (h : Runs.Run (System.performCounted cls) promise (System.init cfg mfs) trace sys) :
    sys.cache.stats.Conserved streamID accessType trace := by
  refine h.invariant (fun trace sys => sys.cache.stats.Conserved streamID accessType trace) ?_
    fun _ _ _ _ _ hconserved _ hperform => hconserved.step hperform
  constructor
  · exact StatTable.total_empty _ _ _
  · exact StatTable.total_empty _ _ _
  · intro outcome _
    exact (Nat.zero_add _).symm
  · exact StatTable.get_empty _ _ _
  · exact StatTable.total_empty _ _ _

end CacheStats.Conserved

/-- **The statistics are conserved.**  In every run of a cache, whatever its class and configuration
and whatever its environment does, for each stream and each type: the outcomes other than `MSHR_HIT`
add up to the access calls; the window table counts the calls since the last `clear_pw`, outcome by
outcome; the reasons add up to the outcomes `RESERVATION_FAIL`, which are the refused calls.  And
the next access that is refused will count one reason, and the next that is accepted none. -/
theorem counters_add_up {cfg : CacheConfig} {cls : CacheClass}
    {promise : System cfg → StatOp → Prop} {mfs : Token → MemFetch} {trace : List StatObs}
    {sys : System cfg}
    (h : Runs.Run (System.performCounted cls) promise (System.init cfg mfs) trace sys) :
    (∀ streamID accessType,
      sys.cache.stats.stats.total outcomes streamID accessType =
          accesses streamID accessType trace ∧
        (sys.cache.stats.statsPw.total outcomes streamID accessType =
            accesses streamID accessType (window trace) ∧
          ∀ outcome, outcome ≠ .mshrHit →
            sys.cache.stats.stats.get streamID accessType outcome =
              (atClear trace).get streamID accessType outcome +
                sys.cache.stats.statsPw.get streamID accessType outcome) ∧
        sys.cache.stats.failStats.total reasons streamID accessType =
          sys.cache.stats.stats.get streamID accessType .reservationFail ∧
        sys.cache.stats.stats.get streamID accessType .reservationFail =
          refusals streamID accessType trace) ∧
    ∀ n m time events sys' mf status joined,
      sys.performCounted cls (.call (.access n m time events)) =
          .ok (sys', .call (.access mf m status joined)) →
        (status = .reservationFail → ∃ reason, sys'.cache.stats.failStats =
          sys.cache.stats.failStats.inc m.accessType reason m.streamID) ∧
        (status ≠ .reservationFail → sys'.cache.stats.failStats = sys.cache.stats.failStats) := by
  constructor
  · intro streamID accessType
    have hconserved : sys.cache.stats.Conserved streamID accessType trace := .of_run h
    exact ⟨hconserved.total, ⟨hconserved.window, hconserved.since⟩,
      hconserved.failed.trans hconserved.refused.symm, hconserved.refused⟩
  · intro n m time events sys' mf status joined hperform
    obtain ⟨⟨sys₁, b₁⟩, hcall, hperform⟩ := bind_eq_ok.1 hperform
    cases hperform
    obtain ⟨⟨c, status', events'⟩, haccess, hcall⟩ := bind_eq_ok.1 hcall
    cases hcall
    obtain ⟨outcome, counted, hcounts⟩ := Cache.access_counts haccess
    rw [System.build_mfs_caller] at hcounts
    simp only [hcounts.stats]
    constructor
    · intro hstatus
      obtain ⟨reason, rfl⟩ := hcounts.declines hstatus
      exact ⟨reason, rfl⟩
    · intro hstatus
      exact (hcounts.accepts hstatus).failStats

/-- A miss, then `clear_pw`, a read that joins the miss, and one that finds no line: of the three
accesses two are in the window, and the one reason is that of the last. -/
theorem counters_add_up_window :
    ∃ trace sys, Runs.Run (System.performCounted (.dataCache .l1)) (fun _ _ => True)
      (System.init (CacheConfig.small 'S' 'B' 'm' 'L' 1 true) fun _ => MemFetch.load 0) trace sys ∧
      sys.cache.stats.stats.get 0 .globalAccR .mshrHit = 1 ∧
      sys.cache.stats.stats.total outcomes 0 .globalAccR = 3 ∧
      sys.cache.stats.statsPw.total outcomes 0 .globalAccR = 2 ∧
      sys.cache.stats.failStats.total reasons 0 .globalAccR = 1 := by
  obtain ⟨trace, sys, hrun, haccesses, hwindow, hrefusals, hmerged⟩ :
      ∃ trace sys, Runs.Run (System.performCounted (.dataCache .l1)) (fun _ _ => True)
        (System.init (CacheConfig.small 'S' 'B' 'm' 'L' 1 true) fun _ => MemFetch.load 0)
          trace sys ∧
        accesses 0 .globalAccR trace = 3 ∧ accesses 0 .globalAccR (window trace) = 2 ∧
        refusals 0 .globalAccR trace = 1 ∧ sys.cache.stats.stats.get 0 .globalAccR .mshrHit = 1 :=
    Runs.exists_run_of_exec [.call (.access 0 (MemFetch.load 0) 0 []), .clearPw,
      .call (.access 1 (MemFetch.load 0) 1 []), .call (.access 2 (MemFetch.load 128) 2 [])]
      (by decide)
  obtain ⟨htotal, ⟨hpw, -⟩, hreasons, hrefused⟩ := (counters_add_up hrun).1 0 .globalAccR
  exact ⟨trace, sys, hrun, hmerged, htotal.trans haccesses, hpw.trans hwindow,
    hreasons.trans (hrefused.trans hrefusals)⟩

end OpenCache
