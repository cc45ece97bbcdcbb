/-
`class cache_stats`: the counters of access outcomes, kept per stream, and of port use.

The tables `m_stats`, `m_stats_pw` and `m_fail_stats` map a stream to a table of counters; a stream
gets its table, filled with zeros, the first time something is counted for it.

* `OpenCache.StatTable.inc` — one increment, in any of the three tables;
* `OpenCache.StatTable.total`, `OpenCache.StatTable.total_inc` — sums of counters;
* `OpenCache.CacheStats.incStats`, `incStatsPw`, `incFailStats` — the three methods;
* `OpenCache.selectStatsStatus` — which outcome an access is counted under.
-/

import OpenCache.Types
import Mathlib.Data.List.AList

set_option relaxedAutoImplicit false
set_option autoImplicit false

namespace OpenCache

/-- The counters of each stream, one for each access type and outcome. -/
abbrev StatTable (α : Type) := AList fun _ : ℕ => MemAccessType → α → ℕ

namespace StatTable

variable {α : Type} [DecidableEq α]

/-- The counter of a stream that may have no table yet. -/
def get (t : StatTable α) (streamID : ℕ) (accessType : MemAccessType) (outcome : α) : ℕ :=
  (t.lookup streamID).elim 0 fun v => v accessType outcome

/-- Add one to a counter, after the stream has been given its table. -/
def inc (t : StatTable α) (accessType : MemAccessType) (outcome : α) (streamID : ℕ) :
    StatTable α :=
  let v := (t.lookup streamID).getD fun _ _ => 0
  t.insert streamID
    (Function.update v accessType (Function.update (v accessType) outcome
      (v accessType outcome + 1)))

/-- An increment changes one counter. -/
theorem get_inc (t : StatTable α) (accessType : MemAccessType) (outcome outcome' : α)
    (streamID : ℕ) : (t.inc accessType outcome streamID).get streamID accessType outcome' =
      t.get streamID accessType outcome' + if outcome' = outcome then 1 else 0 := by
  rw [get, inc, AList.lookup_insert, get]
  by_cases h : outcome' = outcome
  · subst h
    cases t.lookup streamID <;> simp
  · cases t.lookup streamID <;> simp [h]

/-- And no counter of another stream or of another access type. -/
theorem get_inc_other (t : StatTable α) {accessType accessType' : MemAccessType}
    (outcome outcome' : α)
    {streamID streamID' : ℕ} (h : ¬(streamID' = streamID ∧ accessType' = accessType)) :
    (t.inc accessType outcome streamID).get streamID' accessType' outcome' =
      t.get streamID' accessType' outcome' := by
  rw [get, inc, get]
  by_cases hstream : streamID' = streamID
  · subst hstream
    have htype : accessType' ≠ accessType := fun ht => h ⟨rfl, ht⟩
    rw [AList.lookup_insert]
    cases t.lookup streamID' <;> simp [Function.update_of_ne htype]
  · rw [AList.lookup_insert_ne hstream]

/-- An increment, seen from any counter. -/
theorem get_inc_ite (t : StatTable α) (accessType accessType' : MemAccessType)
    (outcome outcome' : α) (streamID streamID' : ℕ) :
    (t.inc accessType outcome streamID).get streamID' accessType' outcome' =
      t.get streamID' accessType' outcome' +
        if (streamID' = streamID ∧ accessType' = accessType) ∧
        outcome' = outcome then 1 else 0 := by
  by_cases hsame : streamID' = streamID ∧ accessType' = accessType
  · obtain ⟨rfl, rfl⟩ := hsame
    rw [get_inc]
    simp
  · rw [get_inc_other t outcome outcome' hsame]
    simp [hsame]

omit [DecidableEq α] in
@[simp] theorem get_empty (streamID : ℕ) (accessType : MemAccessType) (outcome : α) :
    (∅ : StatTable α).get streamID accessType outcome = 0 := by
  rw [get, AList.lookup_empty]
  rfl

/-- The sum of some counters of an access type. -/
def total (t : StatTable α) (outcomes : List α) (streamID : ℕ) (accessType : MemAccessType) : ℕ :=
  (outcomes.map (t.get streamID accessType)).sum

omit [DecidableEq α] in
theorem total_congr {t t' : StatTable α} {outcomes : List α} {streamID : ℕ}
    {accessType : MemAccessType}
    (h : ∀ o ∈ outcomes, t'.get streamID accessType o = t.get streamID accessType o) :
    t'.total outcomes streamID accessType = t.total outcomes streamID accessType := by
  rw [total, total, List.map_congr_left h]

omit [DecidableEq α] in
@[simp] theorem total_empty (outcomes : List α) (streamID : ℕ) (accessType : MemAccessType) :
    (∅ : StatTable α).total outcomes streamID accessType = 0 := by
  refine List.sum_eq_zero fun n hn => ?_
  obtain ⟨o, -, rfl⟩ := List.mem_map.1 hn
  exact get_empty _ _ _

/-- An increment adds one to the sum of the counters of its stream and type. -/
theorem total_inc (t : StatTable α) {outcomes : List α} (hnodup : outcomes.Nodup) {outcome : α}
    (h : outcome ∈ outcomes) (accessType accessType' : MemAccessType) (streamID streamID' : ℕ) :
    (t.inc accessType outcome streamID).total outcomes streamID' accessType' =
      t.total outcomes streamID' accessType' +
        if streamID' = streamID ∧ accessType' = accessType then 1 else 0 := by
  by_cases hsame : streamID' = streamID ∧ accessType' = accessType
  · obtain ⟨rfl, rfl⟩ := hsame
    have hsum : ∀ l : List α, (l.map fun o => t.get streamID' accessType' o +
        if o = outcome then 1 else 0).sum = (l.map (t.get streamID' accessType')).sum +
          l.count outcome := by
      intro l
      induction l with
      | nil => rfl
      | cons o l ih =>
          rw [List.map_cons, List.sum_cons, ih, List.map_cons, List.sum_cons, List.count_cons]
          by_cases ho : o = outcome
          · simp [ho]
            omega
          · simp [ho]
            omega
    rw [total, List.map_congr_left fun o _ => t.get_inc accessType' outcome o streamID', hsum,
      List.count_eq_one_of_mem hnodup h, if_pos ⟨rfl, rfl⟩, total]
  · rw [if_neg hsame, Nat.add_zero]
    exact total_congr fun o _ => t.get_inc_other outcome o hsame

end StatTable

/-- The members of `cache_stats`. -/
structure CacheStats where
  stats : StatTable CacheRequestStatus
  statsPw : StatTable CacheRequestStatus
  failStats : StatTable CacheReservationFailReason
  cachePortAvailableCycles : ℕ
  cacheDataPortBusyCycles : ℕ
  cacheFillPortBusyCycles : ℕ

/-- `cache_stats::select_stats_status`. -/
def selectStatsStatus (probe access : CacheRequestStatus) : CacheRequestStatus :=
  if probe = .hitReserved ∧ access ≠ .reservationFail then probe
  else if probe = .sectorMiss ∧ access = .miss then probe
  else access

namespace CacheStats

/-- The constructor. -/
def init : CacheStats := ⟨∅, ∅, ∅, 0, 0, 0⟩

/-- `clear_pw`. -/
def clearPw (s : CacheStats) : CacheStats := { s with statsPw := ∅ }

/-- `inc_stats`. -/
def incStats (s : CacheStats) (accessType : MemAccessType) (outcome : CacheRequestStatus)
    (streamID : ℕ) : CacheStats :=
  { s with stats := s.stats.inc accessType outcome streamID }

/-- `inc_stats_pw`. -/
def incStatsPw (s : CacheStats) (accessType : MemAccessType) (outcome : CacheRequestStatus)
    (streamID : ℕ) : CacheStats :=
  { s with statsPw := s.statsPw.inc accessType outcome streamID }

/-- `inc_fail_stats`. -/
def incFailStats (s : CacheStats) (accessType : MemAccessType)
    (outcome : CacheReservationFailReason) (streamID : ℕ) : CacheStats :=
  { s with failStats := s.failStats.inc accessType outcome streamID }

/-- `sample_cache_port_utility`. -/
def sampleCachePortUtility (s : CacheStats) (dataPortBusy fillPortBusy : Bool) : CacheStats :=
  { s with
    cachePortAvailableCycles := s.cachePortAvailableCycles + 1
    cacheDataPortBusyCycles := s.cacheDataPortBusyCycles + if dataPortBusy then 1 else 0
    cacheFillPortBusyCycles := s.cacheFillPortBusyCycles + if fillPortBusy then 1 else 0 }

end CacheStats

end OpenCache
