/-
The windowed miss rate of a tag array.

`new_window` remembers the number of accesses and of misses, and `windowed_miss_rate` divides what
has been added to the second by what has been added to the first.  The number of misses that is
remembered, and the one that it is subtracted from, both count the sector misses; the numerator then
counts all sector misses of the past once more.

* `OpenCache.WindowedTags` — a tag array with its two snapshots;
* `OpenCache.WindowedTags.perform` — the operations on it, the accesses with the status they report;
* `OpenCache.WindowedTags.Counts` — **what the counters and the snapshots say about a run**;
* `OpenCache.WindowedTags.TracksWindow` — the rate is the share of misses in the window;
* `OpenCache.windowed_miss_rate_iff` — it is exactly when no access of the past was a sector miss or
  the window is empty.
-/

import OpenCache.TagArray
import OpenCache.Runs
import Mathlib.Algebra.Order.Field.Rat
import Mathlib.Tactic.FieldSimp

set_option relaxedAutoImplicit false
set_option autoImplicit false

namespace OpenCache

/-- A tag array, with `m_prev_snapshot_access` and `m_prev_snapshot_miss`. -/
structure WindowedTags (cfg : CacheConfig) where
  tags : TagArray cfg
  prevSnapshotAccess : BitVec 32
  prevSnapshotMiss : BitVec 32

/-- The methods that change a tag array. -/
inductive WindowOp
  | access (addr : NewAddrType) (time : Time) (idx : ℕ) (mf : MemFetch)
  | fillIndex (index : ℕ) (mf : MemFetch)
  | fillAddr (addr : NewAddrType) (time : Time) (mask : MemAccessSectorMask)
      (byteMask : MemAccessByteMask) (isWrite : Bool)
  | flush
  | invalidate
  | newWindow

/-- What is seen of them. -/
inductive WindowObs
  | access (status : CacheRequestStatus)
  | other
  | newWindow

/-- The statuses of all accesses. -/
def WindowObs.statuses (trace : List WindowObs) : List CacheRequestStatus :=
  trace.filterMap fun b => match b with
    | .access status => some status
    | _ => none

/-- The statuses of the accesses since the last `new_window`. -/
def WindowObs.window (trace : List WindowObs) : List CacheRequestStatus :=
  trace.foldl (fun statuses b => match b with
    | .access status => statuses ++ [status]
    | .other => statuses
    | .newWindow => []) []

/-- The accesses that have missed, in their line or in their sector. -/
def missesOf (statuses : List CacheRequestStatus) : ℕ :=
  statuses.count .miss + statuses.count .sectorMiss

namespace WindowObs

@[simp] theorem statuses_append (trace : List WindowObs) (b : WindowObs) :
    statuses (trace ++ [b]) = statuses trace ++ statuses [b] := List.filterMap_append

@[simp] theorem window_append (trace : List WindowObs) (b : WindowObs) :
    window (trace ++ [b]) = match b with
      | .access status => window trace ++ [status]
      | .other => window trace
      | .newWindow => [] := by
  rw [window, List.foldl_append]
  rfl

end WindowObs

theorem missesOf_append (statuses : List CacheRequestStatus) (status : CacheRequestStatus) :
    missesOf (statuses ++ [status]) = missesOf statuses + missesOf [status] := by
  simp only [missesOf, List.count_append]
  omega

/-- At most every access has missed. -/
theorem missesOf_le_length (statuses : List CacheRequestStatus) :
    missesOf statuses ≤ statuses.length := by
  induction statuses with
  | nil => exact le_refl 0
  | cons status rest ih =>
      have hone : missesOf [status] ≤ 1 := by cases status <;> decide
      have hcons : missesOf (status :: rest) = missesOf [status] + missesOf rest := by
        simp only [missesOf, List.count_cons, List.count_nil]
        omega
      rw [hcons, List.length_cons]
      omega

namespace WindowedTags

variable {cfg : CacheConfig}

/-- `init`. -/
def init (cfg : CacheConfig) : WindowedTags cfg := ⟨TagArray.init cfg, 0, 0⟩

/-- `new_window`. -/
def newWindow (w : WindowedTags cfg) : WindowedTags cfg :=
  { w with
    prevSnapshotAccess := BitVec.ofNat 32 w.tags.accesses
    prevSnapshotMiss := BitVec.ofNat 32 w.tags.misses + BitVec.ofNat 32 w.tags.sectorMiss }

/-- `windowed_miss_rate`, where the division is that of the rational numbers. -/
def windowedMissRate (w : WindowedTags cfg) : ℚ :=
  let nAccess := BitVec.ofNat 32 w.tags.accesses - w.prevSnapshotAccess
  let nMiss := BitVec.ofNat 32 w.tags.misses + BitVec.ofNat 32 w.tags.sectorMiss -
    w.prevSnapshotMiss
  if nAccess ≠ 0 then
    ((nMiss + BitVec.ofNat 32 w.tags.sectorMiss).toNat : ℚ) / nAccess.toNat
  else 0

/-- One call. -/
def perform (w : WindowedTags cfg) : WindowOp → Step (WindowedTags cfg × WindowObs)
  | .access addr time idx mf => do
      let (tags, r) ← w.tags.access addr time idx mf
      return ({ w with tags }, .access r.status)
  | .fillIndex index mf => do
      let tags ← w.tags.fillIndex index mf
      return ({ w with tags }, .other)
  | .fillAddr addr time mask byteMask isWrite => do
      let tags ← w.tags.fillAddr addr time mask byteMask isWrite
      return ({ w with tags }, .other)
  | .flush => return ({ w with tags := w.tags.flush }, .other)
  | .invalidate => return ({ w with tags := w.tags.invalidate }, .other)
  | .newWindow => return (w.newWindow, .newWindow)

/-- The runs of a tag array. -/
abbrev Run (cfg : CacheConfig) : WindowedTags cfg → List WindowObs → WindowedTags cfg → Prop :=
  Runs.Run perform fun _ _ => True

end WindowedTags

/-! ### The counters of a tag array -/

namespace TagArray

variable {cfg : CacheConfig}

/-- The three counters that the rate is computed from. -/
def counters (ta : TagArray cfg) : ℕ × ℕ × ℕ := (ta.accesses, ta.misses, ta.sectorMiss)

/-- An access counts itself, and its miss. -/
theorem access_counters {ta ta' : TagArray cfg} {addr : NewAddrType} {time : Time} {idx : ℕ}
    {mf : MemFetch} {r : AccessResult} (h : ta.access addr time idx mf = .ok (ta', r)) :
    ta'.counters = (ta.accesses + 1, ta.misses + [r.status].count .miss,
      ta.sectorMiss + [r.status].count .sectorMiss) := by
  obtain ⟨-, haccesses, hmisses, hsectorMiss⟩ := access_members h
  rw [counters, haccesses, hmisses, hsectorMiss]

theorem fillLine_counters (ta : TagArray cfg) (index : ℕ) (i : Fin 4)
    (byteMask : MemAccessByteMask) : (ta.fillLine index i byteMask).counters = ta.counters := by
  unfold fillLine
  dsimp only
  split <;> rfl

theorem fillIndex_counters {ta ta' : TagArray cfg} {index : ℕ} {mf : MemFetch}
    (h : ta.fillIndex index mf = .ok ta') : ta'.counters = ta.counters := by
  obtain ⟨_, -, h⟩ := bind_eq_ok.1 h
  obtain ⟨i, -, h⟩ := bind_eq_ok.1 h
  cases h
  exact fillLine_counters _ _ _ _

theorem fillAddr_counters {ta ta' : TagArray cfg} {addr : NewAddrType} {time : Time}
    {mask : MemAccessSectorMask} {byteMask : MemAccessByteMask} {isWrite : Bool}
    (h : ta.fillAddr addr time mask byteMask isWrite = .ok ta') : ta'.counters = ta.counters := by
  obtain ⟨p, -, h⟩ := bind_eq_ok.1 h
  split at h
  · cases h
    rfl
  · obtain ⟨i, -, h⟩ := bind_eq_ok.1 h
    obtain ⟨new, -, h⟩ := bind_eq_ok.1 h
    cases h
    rw [fillLine_counters]
    split <;> rfl

theorem flush_counters (ta : TagArray cfg) : ta.flush.counters = ta.counters := by
  unfold flush
  split <;> rfl

end TagArray

/-! ### What the counters say -/

/-- A snapshot stays as far behind its counter when both the counter and the window grow. -/
private theorem snapshot_add (a w k : BitVec 32) : a - w = a + k - (w + k) := by bv_omega

/-- What is added since a snapshot. -/
private theorem sub_snapshot (a w : BitVec 32) : a - (a - w) = w := by bv_omega

namespace WindowedTags

variable {cfg : CacheConfig}

/-- The counters count the accesses of a run and their misses, and the snapshots are behind them by
what the window has added. -/
structure Counts (trace : List WindowObs) (w : WindowedTags cfg) : Prop where
  accesses : w.tags.accesses = (WindowObs.statuses trace).length
  misses : w.tags.misses = (WindowObs.statuses trace).count .miss
  sectorMiss : w.tags.sectorMiss = (WindowObs.statuses trace).count .sectorMiss
  window : List.Sublist (WindowObs.window trace) (WindowObs.statuses trace)
  snapshotAccess : w.prevSnapshotAccess =
    BitVec.ofNat 32 w.tags.accesses - BitVec.ofNat 32 (WindowObs.window trace).length
  snapshotMiss : w.prevSnapshotMiss =
    BitVec.ofNat 32 w.tags.misses + BitVec.ofNat 32 w.tags.sectorMiss -
      BitVec.ofNat 32 (missesOf (WindowObs.window trace))

theorem Counts.init (cfg : CacheConfig) : Counts [] (WindowedTags.init cfg) :=
  ⟨rfl, rfl, rfl, List.Sublist.refl _, (BitVec.sub_zero _).symm, by
    rw [show missesOf (WindowObs.window []) = 0 from rfl]
    exact (BitVec.sub_zero _).symm⟩

/-- A call that leaves the counters and the snapshots alone. -/
theorem Counts.other {trace : List WindowObs} {w w' : WindowedTags cfg} (h : Counts trace w)
    (hcounters : w'.tags.counters = w.tags.counters)
    (haccess : w'.prevSnapshotAccess = w.prevSnapshotAccess)
    (hmiss : w'.prevSnapshotMiss = w.prevSnapshotMiss) : Counts (trace ++ [.other]) w' := by
  simp only [TagArray.counters, Prod.mk.injEq] at hcounters
  obtain ⟨ha, hm, hs⟩ := hcounters
  have hstatuses : WindowObs.statuses (trace ++ [.other]) = WindowObs.statuses trace := by
    rw [WindowObs.statuses_append]
    exact List.append_nil _
  refine ⟨?_, ?_, ?_, ?_, ?_, ?_⟩
  · rw [ha, h.accesses, hstatuses]
  · rw [hm, h.misses, hstatuses]
  · rw [hs, h.sectorMiss, hstatuses]
  · rw [WindowObs.window_append, hstatuses]
    exact h.window
  · rw [haccess, h.snapshotAccess, ha, WindowObs.window_append]
  · rw [hmiss, h.snapshotMiss, hm, hs, WindowObs.window_append]

theorem Counts.access {trace : List WindowObs} {w : WindowedTags cfg} (h : Counts trace w)
    {tags : TagArray cfg} {status : CacheRequestStatus}
    (hcounters : tags.counters = (w.tags.accesses + 1, w.tags.misses + [status].count .miss,
      w.tags.sectorMiss + [status].count .sectorMiss)) :
    Counts (trace ++ [.access status]) { w with tags } := by
  simp only [TagArray.counters, Prod.mk.injEq] at hcounters
  obtain ⟨ha, hm, hs⟩ := hcounters
  have hstatuses : WindowObs.statuses (trace ++ [.access status]) =
      WindowObs.statuses trace ++ [status] := WindowObs.statuses_append _ _
  refine ⟨?_, ?_, ?_, ?_, ?_, ?_⟩
  · rw [hstatuses, List.length_append, ← h.accesses]
    exact ha
  · rw [hstatuses, List.count_append, ← h.misses]
    exact hm
  · rw [hstatuses, List.count_append, ← h.sectorMiss]
    exact hs
  · rw [WindowObs.window_append, hstatuses]
    exact h.window.append (List.Sublist.refl _)
  · -- one access more, in the window as in the counter
    rw [WindowObs.window_append, List.length_append, h.snapshotAccess]
    dsimp only
    rw [ha, List.length_singleton, BitVec.ofNat_add, BitVec.ofNat_add]
    exact snapshot_add _ _ _
  · rw [WindowObs.window_append, missesOf_append, h.snapshotMiss]
    dsimp only
    rw [hm, hs]
    have hsum : ∀ m n : ℕ, BitVec.ofNat 32 (w.tags.misses + m) +
        BitVec.ofNat 32 (w.tags.sectorMiss + n) =
        BitVec.ofNat 32 w.tags.misses + BitVec.ofNat 32 w.tags.sectorMiss +
          BitVec.ofNat 32 (m + n) := by
      intro m n
      rw [← BitVec.ofNat_add, ← BitVec.ofNat_add, ← BitVec.ofNat_add]
      congr 1
      omega
    rw [hsum, BitVec.ofNat_add (missesOf _)]
    exact snapshot_add _ _ _

theorem Counts.newWindow {trace : List WindowObs} {w : WindowedTags cfg} (h : Counts trace w) :
    Counts (trace ++ [.newWindow]) w.newWindow := by
  have hstatuses : WindowObs.statuses (trace ++ [.newWindow]) = WindowObs.statuses trace := by
    rw [WindowObs.statuses_append]
    exact List.append_nil _
  refine ⟨?_, ?_, ?_, ?_, ?_, ?_⟩
  · rw [hstatuses]
    exact h.accesses
  · rw [hstatuses]
    exact h.misses
  · rw [hstatuses]
    exact h.sectorMiss
  · rw [WindowObs.window_append]
    exact List.nil_sublist _
  · rw [WindowObs.window_append]
    exact (BitVec.sub_zero _).symm
  · rw [WindowObs.window_append]
    exact (BitVec.sub_zero _).symm

/-- **What the counters and the snapshots say about a run.** -/
theorem counts_of_run {trace : List WindowObs} {w : WindowedTags cfg}
    (hrun : Run cfg (WindowedTags.init cfg) trace w) : Counts trace w := by
  refine hrun.invariant Counts (Counts.init cfg) fun trace w₁ o w₂ b h _ hperform => ?_
  cases o with
  | access addr time idx mf =>
      obtain ⟨⟨tags, r⟩, htags, hperform⟩ := bind_eq_ok.1 hperform
      cases hperform
      exact h.access (TagArray.access_counters htags)
  | fillIndex index mf =>
      obtain ⟨tags, htags, hperform⟩ := bind_eq_ok.1 hperform
      cases hperform
      exact h.other (TagArray.fillIndex_counters htags) rfl rfl
  | fillAddr addr time mask byteMask isWrite =>
      obtain ⟨tags, htags, hperform⟩ := bind_eq_ok.1 hperform
      cases hperform
      exact h.other (TagArray.fillAddr_counters htags) rfl rfl
  | flush =>
      cases hperform
      exact h.other (TagArray.flush_counters _) rfl rfl
  | invalidate =>
      cases hperform
      exact h.other rfl rfl rfl
  | newWindow =>
      cases hperform
      exact h.newWindow

/-! ### The rate -/

/-- The rate is the number of misses of the window divided by the number of its accesses, and so
lies between 0 and 1. -/
def TracksWindow (trace : List WindowObs) (w : WindowedTags cfg) : Prop :=
  (w.windowedMissRate = if WindowObs.window trace = [] then 0 else
      (missesOf (WindowObs.window trace) : ℚ) / (WindowObs.window trace).length) ∧
    0 ≤ w.windowedMissRate ∧ w.windowedMissRate ≤ 1

/-- The rate, from the window and the sector misses of the past. -/
theorem Counts.windowedMissRate_eq {trace : List WindowObs} {w : WindowedTags cfg}
    (h : Counts trace w) (hlt : w.tags.accesses < 2 ^ 32) :
    w.windowedMissRate = if WindowObs.window trace = [] then 0 else
      (((missesOf (WindowObs.window trace) + w.tags.sectorMiss) % 2 ^ 32 : ℕ) : ℚ) /
        (WindowObs.window trace).length := by
  have hlen : (WindowObs.window trace).length < 2 ^ 32 := by
    have := h.window.length_le
    rw [← h.accesses] at this
    omega
  rw [windowedMissRate, h.snapshotAccess, h.snapshotMiss]
  rw [sub_snapshot, sub_snapshot]
  have hzero : BitVec.ofNat 32 (WindowObs.window trace).length ≠ 0 ↔
      WindowObs.window trace ≠ [] := by
    rw [Ne, Ne, ← BitVec.toNat_inj, BitVec.toNat_ofNat, Nat.mod_eq_of_lt hlen,
      ← List.length_eq_zero_iff]
    rfl
  by_cases hempty : WindowObs.window trace = []
  · rw [if_neg (fun hne => hzero.1 hne hempty), if_pos hempty]
  · rw [if_pos (hzero.2 hempty), if_neg hempty, ← BitVec.ofNat_add, BitVec.toNat_ofNat,
      BitVec.toNat_ofNat, Nat.mod_eq_of_lt hlen]

/-- The share of the misses of a window lies between 0 and 1. -/
theorem missShare_mem_unit (statuses : List CacheRequestStatus) :
    0 ≤ (if statuses = [] then (0 : ℚ) else (missesOf statuses : ℚ) / statuses.length) ∧
      (if statuses = [] then (0 : ℚ) else (missesOf statuses : ℚ) / statuses.length) ≤ 1 := by
  by_cases hempty : statuses = []
  · rw [if_pos hempty]
    exact ⟨le_refl 0, zero_le_one⟩
  · have hpos : (0 : ℚ) < statuses.length := by
      exact_mod_cast List.length_pos_of_ne_nil hempty
    have hle : (missesOf statuses : ℚ) ≤ statuses.length := by
      exact_mod_cast missesOf_le_length statuses
    rw [if_neg hempty]
    constructor
    · positivity
    · rw [div_le_one hpos]
      exact hle

/-- The sector misses of the past are counted once more in the numerator. -/
theorem Counts.tracksWindow_iff {trace : List WindowObs} {w : WindowedTags cfg}
    (h : Counts trace w) (hlt : w.tags.accesses < 2 ^ 32) :
    TracksWindow trace w ↔
      .sectorMiss ∉ WindowObs.statuses trace ∨ WindowObs.window trace = [] := by
  have hlength := h.window.length_le
  have hsector := List.count_le_length (a := CacheRequestStatus.sectorMiss)
    (l := WindowObs.statuses trace)
  have hmisses := missesOf_le_length (WindowObs.window trace)
  rw [← h.accesses] at hlength hsector
  rw [← h.sectorMiss] at hsector
  have hzero : .sectorMiss ∉ WindowObs.statuses trace ↔ w.tags.sectorMiss = 0 := by
    rw [h.sectorMiss, List.count_eq_zero]
  have hrate := h.windowedMissRate_eq hlt
  rw [hzero]
  by_cases hempty : WindowObs.window trace = []
  · rw [if_pos hempty] at hrate
    refine iff_of_true ?_ (Or.inr hempty)
    rw [TracksWindow, hrate, if_pos hempty]
    exact ⟨rfl, le_refl 0, zero_le_one⟩
  · rw [if_neg hempty] at hrate
    have hne : ((WindowObs.window trace).length : ℚ) ≠ 0 := by
      exact_mod_cast (List.length_pos_of_ne_nil hempty).ne'
    constructor
    · rintro ⟨heq, -, -⟩
      -- the numerators agree, modulo the word size, only without a sector miss
      rw [hrate, if_neg hempty, div_left_inj' hne, Nat.cast_inj] at heq
      refine Or.inl ?_
      omega
    · intro hcond
      have hnone := hcond.resolve_right hempty
      rw [hnone, Nat.add_zero, Nat.mod_eq_of_lt (by omega)] at hrate
      have hunit := missShare_mem_unit (WindowObs.window trace)
      rw [if_neg hempty] at hunit
      rw [TracksWindow, hrate, if_neg hempty]
      exact ⟨rfl, hunit⟩

end WindowedTags

/-! ### When the rate is right -/

/-- **The windowed miss rate is the share of misses among the accesses of the window exactly when no
access since the beginning was a sector miss, or the window is empty.** -/
theorem windowed_miss_rate_iff {cfg : CacheConfig} {trace : List WindowObs} {w : WindowedTags cfg}
    (hrun : WindowedTags.Run cfg (WindowedTags.init cfg) trace w)
    (hlt : w.tags.accesses < 2 ^ 32) :
    WindowedTags.TracksWindow trace w ↔
      .sectorMiss ∉ WindowObs.statuses trace ∨ WindowObs.window trace = [] :=
  (WindowedTags.counts_of_run hrun).tracksWindow_iff hlt

/-- A sector cache, as the examples use it. -/
private def sectorTags : CacheConfig := .small 'S' 'B' 'm' 'N' 2 true

/-- A read of another block misses: the rate of its window is 1. -/
theorem windowed_miss_rate_first_miss : ∃ trace w,
    WindowedTags.Run sectorTags (WindowedTags.init sectorTags) trace w ∧
      w.tags.accesses < 2 ^ 32 ∧ WindowObs.window trace = [.miss] ∧
      WindowedTags.TracksWindow trace w := by
  have hexec : ∃ trace w, WindowedTags.Run sectorTags (WindowedTags.init sectorTags) trace w ∧
      w.tags.accesses < 2 ^ 32 ∧ WindowObs.window trace = [.miss] ∧
      .sectorMiss ∉ WindowObs.statuses trace :=
    Runs.exists_run_of_exec [.access 0 0 0 (.load 0), .newWindow, .access 128 1 0 (.load 128)]
      (by decide)
  obtain ⟨trace, w, hrun, hlt, hwindow, hnone⟩ := hexec
  exact ⟨trace, w, hrun, hlt, hwindow, (windowed_miss_rate_iff hrun hlt).2 (Or.inl hnone)⟩

/-- A block is missed twice, in two of its sectors; in the next window a third sector is missed, the
only access of the window.  The rate is 3. -/
theorem windowed_miss_rate_exceeds_one : ∃ trace w,
    WindowedTags.Run sectorTags (WindowedTags.init sectorTags) trace w ∧
      w.tags.accesses < 2 ^ 32 ∧ WindowObs.window trace = [.sectorMiss] ∧
      w.windowedMissRate = 3 ∧ ¬WindowedTags.TracksWindow trace w := by
  have hexec : ∃ trace w, WindowedTags.Run sectorTags (WindowedTags.init sectorTags) trace w ∧
      w.tags.accesses < 2 ^ 32 ∧ WindowObs.window trace = [.sectorMiss] ∧
      w.tags.sectorMiss = 2 ∧ .sectorMiss ∈ WindowObs.statuses trace :=
    Runs.exists_run_of_exec [.access 0 0 0 (.load 0), .access 32 1 0 (.load 32), .newWindow,
      .access 64 2 0 (.load 64)] (by decide)
  obtain ⟨trace, w, hrun, hlt, hwindow, hsector, hmem⟩ := hexec
  have hcounts := WindowedTags.counts_of_run hrun
  refine ⟨trace, w, hrun, hlt, hwindow, ?_, fun htracks => ?_⟩
  · rw [hcounts.windowedMissRate_eq hlt, hwindow, hsector]
    have hone : missesOf [.sectorMiss] = 1 := rfl
    norm_num [hone]
  · rcases (hcounts.tracksWindow_iff hlt).1 htracks with h | h
    · exact h hmem
    · rw [hwindow] at h
      cases h

end OpenCache
