/-
`class tag_array`: the lines of a cache, the search for a block or a victim, and the allocation,
the fill and the flush of lines.

The lines are a function of the line index; the ways of set `s` are the indices
`s * m_assoc + way`.

* `OpenCache.TagArray.probe` — the search: the first way whose tag matches and whose sector is not
  invalid decides, and otherwise the least recently used (or oldest) eligible way is the victim;
* `OpenCache.TagArray.access`, `OpenCache.TagArray.fillIndex`, `OpenCache.TagArray.fillAddr` — the
  three ways a line changes on behalf of a request;
* `OpenCache.TagArray.flush`, `OpenCache.TagArray.invalidate` — the two ways all lines change;
* `OpenCache.TagArray.Probed`, `OpenCache.TagArray.probed_of_probe` — **what a probe says about the
  lines**, for each of its five answers;
* `OpenCache.TagArray.access_eq_ok` — what an access does to the lines, in terms of its probe.
-/

import OpenCache.Config
import OpenCache.Block
import Mathlib.Data.Int.Log
import Mathlib.Data.Rat.Floor

set_option relaxedAutoImplicit false
set_option autoImplicit false

namespace OpenCache

/-! ### Single precision -/

/-- Round to the nearest integer, a tie to the even one. -/
def roundHalfEven (x : ℚ) : ℤ :=
  let n := ⌊x⌋
  if x - n < 1 / 2 then n
  else if 1 / 2 < x - n then n + 1
  else if n % 2 = 0 then n else n + 1

/-- The `float` nearest to a nonnegative number; the counts of this program are far from the ends
of the exponent range. -/
def toFloat (q : ℚ) : ℚ :=
  if q = 0 then 0
  else
    let ulp : ℚ := 2 ^ (Int.log 2 q - 23)
    roundHalfEven (q / ulp) * ulp

/-! ### The tag array -/

/-- The members of `tag_array` in a cache with configuration `cfg`. -/
structure TagArray (cfg : CacheConfig) where
  lines : ℕ → CacheBlock cfg.cacheType
  accesses : ℕ
  misses : ℕ
  pendingHit : ℕ
  resFail : ℕ
  sectorMiss : ℕ
  dirty : BitVec 32
  lastFailReason : CacheReservationFailReason
  isUsed : Bool

/-- What an access found: the status, the index it leaves in `idx`, and the block it evicted, if
`wb` is set. -/
structure AccessResult where
  status : CacheRequestStatus
  idx : ℕ
  evicted : Option EvictedBlockInfo

/-- The local variables of the loop of `probe`. -/
structure Scan where
  invalidLine : Option ℕ
  validLine : Option ℕ
  validTimestamp : ℕ
  allReserved : Bool
  sawPinned : Bool

/-- Their values before the loop. -/
def Scan.init : Scan := ⟨none, none, 2 ^ 32 - 1, true, false⟩

/-- How the loop of `probe` ends: with a `return`, or after the last way. -/
inductive ScanResult
  | found (status : CacheRequestStatus) (index : ℕ)
  | exhausted (s : Scan)

/-- What `probe` returns: the status, the index it leaves in `idx`, and the reason it leaves in
`m_last_fail_reason`. -/
structure ProbeResult where
  status : CacheRequestStatus
  idx : ℕ
  failReason : CacheReservationFailReason

/-- The status `probe` returns for a line whose tag matches, or `none` when it goes on with the
line as a replacement candidate. -/
def CacheBlock.matchStatus {k : CacheType} (b : CacheBlock k) (i : Fin 4) (isWrite : Bool) :
    Option CacheRequestStatus :=
  match b.getStatus i with
  | .reserved => some .hitReserved
  | .valid => some .hit
  | .modified => if isWrite || b.isReadable i then some .hit else some .sectorMiss
  | .invalid => if b.isValidLine then some .sectorMiss else none

namespace CacheBlock

variable {k : CacheType} {b : CacheBlock k} {i : Fin 4} {isWrite : Bool}

/-- A line whose tag matches is passed over only when all of it is invalid. -/
theorem matchStatus_eq_none : b.matchStatus i isWrite = none ↔
    b.getStatus i = .invalid ∧ b.isInvalidLine = true := by
  cases hs : b.getStatus i with
  | invalid => simp [matchStatus, hs, isValidLine_of_invalid hs]
  | reserved => simp [matchStatus, hs]
  | valid => simp [matchStatus, hs]
  | modified => simp only [matchStatus, hs]; split <;> simp

theorem matchStatus_eq_hitReserved : b.matchStatus i isWrite = some .hitReserved ↔
    b.getStatus i = .reserved := by
  cases hs : b.getStatus i <;> simp only [matchStatus, hs] <;> grind

theorem matchStatus_eq_hit : b.matchStatus i isWrite = some .hit ↔
    b.getStatus i = .valid ∨
      b.getStatus i = .modified ∧ (isWrite = true ∨ b.isReadable i = true) := by
  cases hs : b.getStatus i <;> simp only [matchStatus, hs] <;> grind

theorem matchStatus_eq_sectorMiss : b.matchStatus i isWrite = some .sectorMiss ↔
    b.getStatus i = .modified ∧ isWrite = false ∧ b.isReadable i = false ∨
      b.getStatus i = .invalid ∧ b.isInvalidLine = false := by
  cases hs : b.getStatus i with
  | invalid => simp [matchStatus, hs, isValidLine_of_invalid hs]
  | reserved => simp [matchStatus, hs]
  | valid => simp [matchStatus, hs]
  | modified => simp only [matchStatus, hs]; grind

/-- A tag match reports one of three statuses. -/
theorem matchStatus_cases {status : CacheRequestStatus}
    (h : b.matchStatus i isWrite = some status) :
    status = .hit ∨ status = .hitReserved ∨ status = .sectorMiss := by
  unfold matchStatus at h
  cases hs : b.getStatus i <;> simp only [hs] at h
  · split at h <;> simp_all
  · simp_all
  · simp_all
  · split at h <;> simp_all

end CacheBlock

namespace TagArray

variable {cfg : CacheConfig}

/-- `init`. -/
def init (cfg : CacheConfig) : TagArray cfg where
  lines := fun _ => CacheBlock.init cfg.cacheType
  accesses := 0
  misses := 0
  pendingHit := 0
  resFail := 0
  sectorMiss := 0
  dirty := 0
  lastFailReason := .lineAllocFail
  isUsed := false

/-- Replace the line at an index. -/
def setLine (ta : TagArray cfg) (index : ℕ) (b : CacheBlock cfg.cacheType) : TagArray cfg :=
  { ta with lines := Function.update ta.lines index b }

/-- `inc_dirty`. -/
def incDirty (ta : TagArray cfg) : TagArray cfg := { ta with dirty := ta.dirty + 1 }

/-! ### The search -/

/-- `dirty_line_percentage >= m_config.m_wr_percent`, computed in single precision. -/
def dirtyLimitReached (ta : TagArray cfg) : Bool :=
  let fraction := toFloat (toFloat ta.dirty.toNat / toFloat (cfg.nset * cfg.assoc : ℕ))
  toFloat (cfg.wrPercent : ℕ) ≤ toFloat (fraction * 100)

/-- A line that `probe` may choose as the victim. -/
def eligible (ta : TagArray cfg) (index : ℕ) : Bool :=
  !(ta.lines index).isPinned && !(ta.lines index).isReservedLine &&
    (!(ta.lines index).isModifiedLine || ta.dirtyLimitReached)

/-- The time by which `m_replacement_policy` compares valid lines. -/
def replacementTime (b : CacheBlock cfg.cacheType) : ℕ :=
  match cfg.replacementPolicy with
  | .lru => b.lastAccessTime.toNat
  | .fifo => b.allocTime.toNat

/-- The part of the loop body that keeps track of the replacement candidate. -/
def considerVictim (ta : TagArray cfg) (index : ℕ) (s : Scan) : Scan :=
  let b := ta.lines index
  if b.isPinned then { s with sawPinned := true }
  else if ta.eligible index then
    if b.isInvalidLine then { s with allReserved := false, invalidLine := some index }
    else if replacementTime b < s.validTimestamp then
      { s with
        allReserved := false
        validTimestamp := replacementTime b
        validLine := some index }
    else { s with allReserved := false }
  else s

/-- The part of the loop body that compares the tag. -/
def matchWay (ta : TagArray cfg) (tag : NewAddrType) (mask : MemAccessSectorMask) (isWrite : Bool)
    (index : ℕ) : Step (Option CacheRequestStatus) :=
  if (ta.lines index).tag = tag then do
    let i ← cfg.getSectorIndex mask
    return (ta.lines index).matchStatus i isWrite
  else return none

/-- The loop of `probe`. -/
def scanWays (ta : TagArray cfg) (tag : NewAddrType) (mask : MemAccessSectorMask)
    (isWrite : Bool) : List ℕ → Scan → Step ScanResult
  | [], s => return .exhausted s
  | index :: rest, s => do
      match ← ta.matchWay tag mask isWrite index with
      | some status => return .found status index
      | none => scanWays ta tag mask isWrite rest (ta.considerVictim index s)

/-- The indices of the ways of a set. -/
def waysOf (cfg : CacheConfig) (setIndex : ℕ) : List ℕ :=
  (List.range cfg.assoc).map fun way => setIndex * cfg.assoc + way

/-- `probe`. -/
def probe (ta : TagArray cfg) (addr : NewAddrType) (idx : ℕ) (mask : MemAccessSectorMask)
    (isWrite : Bool) : Step ProbeResult := do
  let setIndex ← cfg.setIndex addr
  match ← ta.scanWays (cfg.tag addr) mask isWrite (waysOf cfg setIndex) Scan.init with
  | .found status index => return ⟨status, index, .lineAllocFail⟩
  | .exhausted s =>
      if s.allReserved then do
        assertThat (cfg.allocPolicy = .onMiss) .probeAllReserved
        return ⟨.reservationFail, idx, if s.sawPinned then .linePinnedFail else .lineAllocFail⟩
      else
        match s.invalidLine, s.validLine with
        | some index, _ => return ⟨.miss, index, .lineAllocFail⟩
        | none, some index => return ⟨.miss, index, .lineAllocFail⟩
        | none, none => .error .probeNoCandidate

/-! ### Access and fill -/

/-- `evicted_block_info::set_info` on a line. -/
def evictedBlockInfo (b : CacheBlock cfg.cacheType) : EvictedBlockInfo :=
  ⟨b.blockAddr, b.getModifiedSize, b.dirtyByteMask, b.getDirtySectorMask⟩

/-- `access` with eviction information. -/
def access (ta : TagArray cfg) (addr : NewAddrType) (time : Time) (idx : ℕ) (mf : MemFetch) :
    Step (TagArray cfg × AccessResult) := do
  let ta := { ta with accesses := ta.accesses + 1, isUsed := true }
  let p ← ta.probe addr idx mf.accessSectorMask mf.isWrite
  let ta := { ta with lastFailReason := p.failReason }
  let b := ta.lines p.idx
  match p.status with
  | .hitReserved =>
      let ta := { ta with pendingHit := ta.pendingHit + 1 }
      return (ta.setLine p.idx (b.setLastAccessTime time), ⟨.hitReserved, p.idx, none⟩)
  | .hit => return (ta.setLine p.idx (b.setLastAccessTime time), ⟨.hit, p.idx, none⟩)
  | .miss =>
      let ta := { ta with misses := ta.misses + 1 }
      if cfg.allocPolicy = .onMiss then do
        let i ← cfg.getSectorIndex mf.accessSectorMask
        let new := b.allocate (cfg.tag addr) (cfg.blockAddr addr) time i
        if b.isModifiedLine then
          return ({ ta with dirty := ta.dirty - 1 }.setLine p.idx new,
            ⟨.miss, p.idx, some (evictedBlockInfo b)⟩)
        else return (ta.setLine p.idx new, ⟨.miss, p.idx, none⟩)
      else return (ta, ⟨.miss, p.idx, none⟩)
  | .sectorMiss => do
      assertThat (cfg.cacheType = .sector) .sectorMissInNormal
      let ta := { ta with sectorMiss := ta.sectorMiss + 1 }
      if cfg.allocPolicy = .onMiss then do
        let i ← cfg.getSectorIndex mf.accessSectorMask
        let new ← b.allocateSector time i
        let ta := if b.isModifiedLine && !new.isModifiedLine then
          { ta with dirty := ta.dirty - 1 } else ta
        return (ta.setLine p.idx new, ⟨.sectorMiss, p.idx, none⟩)
      else return (ta, ⟨.sectorMiss, p.idx, none⟩)
  | .reservationFail =>
      return ({ ta with resFail := ta.resFail + 1 }, ⟨.reservationFail, p.idx, none⟩)
  | .mshrHit => .error .accessUnknownStatus

/-- `access` without eviction information. -/
def accessNoWriteback (ta : TagArray cfg) (addr : NewAddrType) (time : Time) (idx : ℕ)
    (mf : MemFetch) : Step (TagArray cfg × AccessResult) := do
  let (ta, r) ← ta.access addr time idx mf
  assertThat (r.evicted.isNone = true) .unexpectedWriteback
  return (ta, r)

/-- The common end of both `fill`s: fill the line and count it if it becomes dirty. -/
def fillLine (ta : TagArray cfg) (index : ℕ) (i : Fin 4) (byteMask : MemAccessByteMask) :
    TagArray cfg :=
  let b := ta.lines index
  let new := b.fill i byteMask
  let ta := if new.isModifiedLine && !b.isModifiedLine then ta.incDirty else ta
  ta.setLine index new

/-- `fill(index, time, mf)`. -/
def fillIndex (ta : TagArray cfg) (index : ℕ) (mf : MemFetch) : Step (TagArray cfg) := do
  assertThat (cfg.allocPolicy = .onMiss) .fillByIndexPolicy
  let i ← cfg.getSectorIndex mf.accessSectorMask
  return ta.fillLine index i mf.accessByteMask

/-- The allocation that `fill(addr, ...)` makes when the block, or its sector, is not there. -/
def allocateForFill (addr : NewAddrType) (time : Time) (i : Fin 4) (status : CacheRequestStatus)
    (b : CacheBlock cfg.cacheType) : Step (CacheBlock cfg.cacheType) :=
  if status = .miss then .ok (b.allocate (cfg.tag addr) (cfg.blockAddr addr) time i)
  else if status = .sectorMiss then do
    assertThat (cfg.cacheType = .sector) .sectorMissInNormal
    b.allocateSector time i
  else .ok b

/-- `fill(addr, time, mask, byte_mask, is_write)`. -/
def fillAddr (ta : TagArray cfg) (addr : NewAddrType) (time : Time) (mask : MemAccessSectorMask)
    (byteMask : MemAccessByteMask) (isWrite : Bool) : Step (TagArray cfg) := do
  let p ← ta.probe addr 0 mask isWrite
  let ta := { ta with lastFailReason := p.failReason }
  if p.status = .reservationFail then return ta
  else do
    let i ← cfg.getSectorIndex mask
    let b := ta.lines p.idx
    let new ← allocateForFill addr time i p.status b
    let ta := if b.isModifiedLine && !new.isModifiedLine then
      { ta with dirty := ta.dirty - 1 } else ta
    return (ta.setLine p.idx new).fillLine p.idx i byteMask

/-! ### Flush and invalidate -/

/-- The loop over the sectors in `flush` and `invalidate`. -/
def invalidateLine (b : CacheBlock cfg.cacheType) : CacheBlock cfg.cacheType :=
  (List.finRange 4).foldl (fun b i => b.setStatus .invalid i) b

/-- `flush`. -/
def flush (ta : TagArray cfg) : TagArray cfg :=
  if ta.isUsed then
    { ta with
      lines := fun i =>
        if i < cfg.getNumLines ∧ (ta.lines i).isModifiedLine = true then
          invalidateLine (ta.lines i)
        else ta.lines i
      dirty := 0
      isUsed := false }
  else ta

/-- `invalidate`. -/
def invalidate (ta : TagArray cfg) : TagArray cfg :=
  { ta with
    lines := fun i => if i < cfg.getNumLines then invalidateLine (ta.lines i) else ta.lines i
    dirty := 0
    isUsed := false }

/-! ### The search depends on the lines and the dirty count only -/

section Congr

variable {ta ta' : TagArray cfg} (hl : ta'.lines = ta.lines) (hd : ta'.dirty = ta.dirty)

include hl hd

theorem eligible_congr (index : ℕ) : ta'.eligible index = ta.eligible index := by
  simp only [eligible, dirtyLimitReached, hl, hd]

theorem considerVictim_congr (index : ℕ) (s : Scan) :
    ta'.considerVictim index s = ta.considerVictim index s := by
  simp only [considerVictim, eligible_congr hl hd, hl]

theorem scanWays_congr (tag : NewAddrType) (mask : MemAccessSectorMask) (isWrite : Bool)
    (ways : List ℕ) (s : Scan) :
    ta'.scanWays tag mask isWrite ways s = ta.scanWays tag mask isWrite ways s := by
  induction ways generalizing s with
  | nil => rfl
  | cons index rest ih =>
      have hm : ta'.matchWay tag mask isWrite index = ta.matchWay tag mask isWrite index := by
        simp only [matchWay, hl]
      simp only [scanWays, hm, considerVictim_congr hl hd, ih]

theorem probe_congr (addr : NewAddrType) (idx : ℕ) (mask : MemAccessSectorMask) (isWrite : Bool) :
    ta'.probe addr idx mask isWrite = ta.probe addr idx mask isWrite := by
  simp only [probe, scanWays_congr hl hd]

end Congr

/-! ### What a probe says -/

/-- Line `index` holds the block with tag `tag`: some sector of it is not invalid. -/
def Holds (lines : ℕ → CacheBlock cfg.cacheType) (index : ℕ) (tag : NewAddrType) : Prop :=
  (lines index).tag = tag ∧ (lines index).isInvalidLine = false

/-- What holds of the local variables of the loop after the ways in `done`. -/
structure ScanInv (ta : TagArray cfg) (done : List ℕ) (s : Scan) : Prop where
  invalidLine : ∀ j, s.invalidLine = some j → j ∈ done ∧ ta.eligible j = true
  validLine : ∀ j, s.validLine = some j → j ∈ done ∧ ta.eligible j = true
  allReserved : s.allReserved = true → ∀ j ∈ done, ta.eligible j = false

theorem ScanInv.init (ta : TagArray cfg) : ScanInv ta [] Scan.init :=
  ⟨by simp [Scan.init], by simp [Scan.init], by simp⟩

theorem ScanInv.considerVictim {ta : TagArray cfg} {done : List ℕ} {s : Scan}
    (h : ScanInv ta done s) (index : ℕ) :
    ScanInv ta (done ++ [index]) (ta.considerVictim index s) := by
  have hold : ∀ j, j ∈ done ∧ ta.eligible j = true → j ∈ done ++ [index] ∧ ta.eligible j = true :=
    fun j hj => ⟨List.mem_append_left _ hj.1, hj.2⟩
  have hskip : ta.eligible index = false → s.allReserved = true →
      ∀ j ∈ done ++ [index], ta.eligible j = false := by
    intro hne hr j hj
    rcases List.mem_append.1 hj with hj | hj
    · exact h.allReserved hr j hj
    · rw [List.mem_singleton.1 hj]
      exact hne
  have hnew : ta.eligible index = true → ∀ j, some index = some j →
      j ∈ done ++ [index] ∧ ta.eligible j = true := by
    rintro he j ⟨⟩
    exact ⟨List.mem_append_right _ (List.mem_singleton_self _), he⟩
  unfold TagArray.considerVictim
  dsimp only
  by_cases hp : (ta.lines index).isPinned = true
  · have hne : ta.eligible index = false := by simp [eligible, hp]
    rw [if_pos hp]
    exact ⟨fun j hj => hold j (h.invalidLine j hj), fun j hj => hold j (h.validLine j hj),
      hskip hne⟩
  · rw [if_neg hp]
    by_cases he : ta.eligible index = true
    · rw [if_pos he]
      by_cases hi : (ta.lines index).isInvalidLine = true
      · rw [if_pos hi]
        exact ⟨hnew he, fun j hj => hold j (h.validLine j hj), by simp⟩
      · rw [if_neg hi]
        split
        · exact ⟨fun j hj => hold j (h.invalidLine j hj), hnew he, by simp⟩
        · exact ⟨fun j hj => hold j (h.invalidLine j hj), fun j hj => hold j (h.validLine j hj),
            by simp⟩
    · rw [if_neg he]
      exact ⟨fun j hj => hold j (h.invalidLine j hj), fun j hj => hold j (h.validLine j hj),
        hskip (by simpa using he)⟩

/-- A way that the loop passes over does not hold the block. -/
theorem matchWay_eq_none {ta : TagArray cfg} {tag : NewAddrType} {mask : MemAccessSectorMask}
    {isWrite : Bool} {index : ℕ} (h : ta.matchWay tag mask isWrite index = .ok none) :
    ¬Holds ta.lines index tag := by
  rintro ⟨htag, hlive⟩
  rw [matchWay, if_pos htag] at h
  obtain ⟨i, -, hi⟩ := bind_eq_ok.1 h
  have hnone : (ta.lines index).matchStatus i isWrite = none := by injection hi
  rw [(CacheBlock.matchStatus_eq_none.1 hnone).2] at hlive
  exact absurd hlive (by simp)

/-- A way that the loop returns has the tag, and reports the status of its sector. -/
theorem matchWay_eq_some {ta : TagArray cfg} {tag : NewAddrType} {mask : MemAccessSectorMask}
    {isWrite : Bool} {index : ℕ} {status : CacheRequestStatus}
    (h : ta.matchWay tag mask isWrite index = .ok (some status)) :
    (ta.lines index).tag = tag ∧ cfg.getSectorIndex mask = .ok (cfg.sectorIndex mask) ∧
      (ta.lines index).matchStatus (cfg.sectorIndex mask) isWrite = some status := by
  by_cases htag : (ta.lines index).tag = tag
  · rw [matchWay, if_pos htag] at h
    obtain ⟨i, hi, hs⟩ := bind_eq_ok.1 h
    rw [CacheConfig.sectorIndex_eq hi]
    exact ⟨htag, hi, by injection hs⟩
  · rw [matchWay, if_neg htag] at h
    cases h

/-- What the end of the loop says, for each way it can end. -/
theorem scanWays_spec {ta : TagArray cfg} {tag : NewAddrType} {mask : MemAccessSectorMask}
    {isWrite : Bool} {ways done : List ℕ} {s : Scan} {r : ScanResult}
    (h : ta.scanWays tag mask isWrite ways s = .ok r) (hs : ScanInv ta done s) :
    match r with
    | .found status index => index ∈ ways ∧ (ta.lines index).tag = tag ∧
        cfg.getSectorIndex mask = .ok (cfg.sectorIndex mask) ∧
        (ta.lines index).matchStatus (cfg.sectorIndex mask) isWrite = some status
    | .exhausted s' => ScanInv ta (done ++ ways) s' ∧ ∀ j ∈ ways, ¬Holds ta.lines j tag := by
  induction ways generalizing done s with
  | nil =>
      cases h
      exact ⟨by simpa using hs, by simp⟩
  | cons index rest ih =>
      rw [scanWays] at h
      obtain ⟨m, hm, h⟩ := bind_eq_ok.1 h
      cases m with
      | some status =>
          cases h
          exact ⟨List.mem_cons_self, matchWay_eq_some hm⟩
      | none =>
          have hrec := ih h (hs.considerVictim index)
          cases r with
          | found status j => exact ⟨List.mem_cons_of_mem _ hrec.1, hrec.2⟩
          | exhausted s' =>
              refine ⟨by simpa using hrec.1, ?_⟩
              intro j hj
              rcases List.mem_cons.1 hj with rfl | hj
              · exact matchWay_eq_none hm
              · exact hrec.2 j hj

/-- What the answer of a probe says about the lines. -/
structure Probed (ta : TagArray cfg) (setIndex : ℕ) (tag : NewAddrType)
    (mask : MemAccessSectorMask) (isWrite : Bool) (p : ProbeResult) : Prop where
  /-- A hit, a hit on a reserved sector or a sector miss: the line is in the set, has the tag, and
  its sector is in the state that is reported. -/
  found : p.status = .hit ∨ p.status = .hitReserved ∨ p.status = .sectorMiss →
    p.idx ∈ waysOf cfg setIndex ∧ (ta.lines p.idx).tag = tag ∧
      cfg.getSectorIndex mask = .ok (cfg.sectorIndex mask) ∧
      (ta.lines p.idx).matchStatus (cfg.sectorIndex mask) isWrite = some p.status
  /-- A miss: an eligible way of the set is the victim. -/
  miss : p.status = .miss → p.idx ∈ waysOf cfg setIndex ∧ ta.eligible p.idx = true
  /-- A refusal: no way of the set is eligible, and the cache allocates on misses. -/
  fail : p.status = .reservationFail →
    cfg.allocPolicy = .onMiss ∧ ∀ j ∈ waysOf cfg setIndex, ta.eligible j = false
  /-- A miss or a refusal: no way of the set holds the block. -/
  absent : p.status = .miss ∨ p.status = .reservationFail →
    ∀ j ∈ waysOf cfg setIndex, ¬Holds ta.lines j tag
  /-- There is no other answer. -/
  ne_mshrHit : p.status ≠ .mshrHit

/-- **What a probe says about the lines.** -/
theorem probed_of_probe {ta : TagArray cfg} {addr : NewAddrType} {idx : ℕ}
    {mask : MemAccessSectorMask} {isWrite : Bool} {p : ProbeResult}
    (h : ta.probe addr idx mask isWrite = .ok p) :
    ∃ setIndex, cfg.setIndex addr = .ok setIndex ∧
      Probed ta setIndex (cfg.tag addr) mask isWrite p := by
  obtain ⟨setIndex, hset, h⟩ := bind_eq_ok.1 h
  refine ⟨setIndex, hset, ?_⟩
  obtain ⟨r, hr, h⟩ := bind_eq_ok.1 h
  have hspec := scanWays_spec hr (ScanInv.init ta)
  cases r with
  | found status index =>
      cases h
      obtain ⟨hmem, htag, hi, hstatus⟩ := hspec
      have hc := CacheBlock.matchStatus_cases hstatus
      exact ⟨fun _ => ⟨hmem, htag, hi, hstatus⟩,
        fun h => by rcases hc with hc | hc | hc <;> simp [hc] at h,
        fun h => by rcases hc with hc | hc | hc <;> simp [hc] at h,
        fun h => by rcases hc with hc | hc | hc <;> simp [hc] at h,
        by rcases hc with hc | hc | hc <;> simp [hc]⟩
  | exhausted s =>
      obtain ⟨hinv, habs⟩ := hspec
      rw [List.nil_append] at hinv
      simp only at h
      split at h
      · next hres =>
          obtain ⟨_, hon, h⟩ := bind_eq_ok.1 h
          cases h
          exact ⟨by simp, by simp, fun _ => ⟨assertThat_eq_ok.1 hon, hinv.allReserved hres⟩,
            fun _ => habs, by simp⟩
      · split at h
        · next j hj =>
            cases h
            exact ⟨by simp, fun _ => hinv.invalidLine j hj, by simp, fun _ => habs, by simp⟩
        · next j _ hj =>
            cases h
            exact ⟨by simp, fun _ => hinv.validLine j hj, by simp, fun _ => habs, by simp⟩
        · cases h

/-- Except in a refusal, the answer does not depend on the index passed in. -/
theorem probe_idx {ta : TagArray cfg} {addr : NewAddrType} {idx : ℕ} {mask : MemAccessSectorMask}
    {isWrite : Bool} {p : ProbeResult} (h : ta.probe addr idx mask isWrite = .ok p)
    (hfail : p.status ≠ .reservationFail) (idx' : ℕ) :
    ta.probe addr idx' mask isWrite = .ok p := by
  obtain ⟨setIndex, hset, h⟩ := bind_eq_ok.1 h
  obtain ⟨r, hr, h⟩ := bind_eq_ok.1 h
  refine bind_eq_ok.2 ⟨setIndex, hset, bind_eq_ok.2 ⟨r, hr, ?_⟩⟩
  cases r with
  | found status index => exact h
  | exhausted s =>
      simp only at h ⊢
      split at h
      · obtain ⟨_, -, h⟩ := bind_eq_ok.1 h
        cases h
        exact absurd rfl hfail
      · next hres =>
          rw [if_neg hres]
          exact h

/-- A write and a read get the same answer from a line unless the write hits. -/
theorem matchWay_read_of_write {ta : TagArray cfg} {tag : NewAddrType}
    {mask : MemAccessSectorMask} {index : ℕ} {m : Option CacheRequestStatus}
    (h : ta.matchWay tag mask true index = .ok m) (hhit : m ≠ some .hit) :
    ta.matchWay tag mask false index = .ok m := by
  by_cases htag : (ta.lines index).tag = tag
  · rw [matchWay, if_pos htag] at h ⊢
    obtain ⟨i, hi, hs⟩ := bind_eq_ok.1 h
    injection hs with hs
    rw [hi]
    change Except.ok _ = _
    rw [← hs] at hhit ⊢
    congr 1
    unfold CacheBlock.matchStatus at hhit ⊢
    cases hst : (ta.lines index).getStatus i <;> simp [hst] at hhit ⊢
  · rw [matchWay, if_neg htag] at h ⊢
    exact h

theorem scanWays_read_of_write {ta : TagArray cfg} {tag : NewAddrType}
    {mask : MemAccessSectorMask} {ways : List ℕ} {s : Scan} {r : ScanResult}
    (h : ta.scanWays tag mask true ways s = .ok r) (hhit : ∀ j, r ≠ .found .hit j) :
    ta.scanWays tag mask false ways s = .ok r := by
  induction ways generalizing s with
  | nil => exact h
  | cons index rest ih =>
      rw [scanWays] at h ⊢
      obtain ⟨m, hm, h⟩ := bind_eq_ok.1 h
      have hne : m ≠ some .hit := by
        rintro rfl
        cases h
        exact hhit index rfl
      refine bind_eq_ok.2 ⟨m, matchWay_read_of_write hm hne, ?_⟩
      cases m with
      | some status => exact h
      | none => exact ih h

/-- A write and a read get the same answer unless the write hits. -/
theorem probe_read_of_write {ta : TagArray cfg} {addr : NewAddrType} {idx : ℕ}
    {mask : MemAccessSectorMask} {p : ProbeResult} (h : ta.probe addr idx mask true = .ok p)
    (hhit : p.status ≠ .hit) : ta.probe addr idx mask false = .ok p := by
  obtain ⟨setIndex, hset, h⟩ := bind_eq_ok.1 h
  obtain ⟨r, hr, h⟩ := bind_eq_ok.1 h
  refine bind_eq_ok.2 ⟨setIndex, hset, bind_eq_ok.2 ⟨r, scanWays_read_of_write hr ?_, h⟩⟩
  rintro j rfl
  cases h
  exact hhit rfl

/-! ### What an access does -/

/-- The line after an access that reported `status`, for a request in sector `i` of its block. -/
def touchedLine (cfg : CacheConfig) (addr : NewAddrType) (time : Time) (i : Fin 4)
    (status : CacheRequestStatus) (b : CacheBlock cfg.cacheType) : CacheBlock cfg.cacheType :=
  match status with
  | .hit | .hitReserved => b.setLastAccessTime time
  | .miss =>
      if cfg.allocPolicy = .onMiss then b.allocate (cfg.tag addr) (cfg.blockAddr addr) time i else b
  | .sectorMiss =>
      if cfg.allocPolicy = .onMiss then
        { b.modifySector i CacheBlock.reserveSectorAgain with lastAccessTime := time }
      else b
  | _ => b

/-- The block that an access which reported `status` evicts from a line. -/
def evictedBy (cfg : CacheConfig) (status : CacheRequestStatus) (b : CacheBlock cfg.cacheType) :
    Option EvictedBlockInfo :=
  if status = .miss ∧ cfg.allocPolicy = .onMiss ∧ b.isModifiedLine = true then
    some (evictedBlockInfo b)
  else none

/-- **What an access does**: it probes, updates the line it has found and reports what it has
evicted. -/
theorem access_eq_ok {ta ta' : TagArray cfg} {addr : NewAddrType} {time : Time} {idx : ℕ}
    {mf : MemFetch} {r : AccessResult} (h : ta.access addr time idx mf = .ok (ta', r)) :
    ∃ p, ta.probe addr idx mf.accessSectorMask mf.isWrite = .ok p ∧
      (p.status ≠ .miss ∨ cfg.allocPolicy = .onMiss → p.status ≠ .reservationFail →
        cfg.getSectorIndex mf.accessSectorMask = .ok (cfg.sectorIndex mf.accessSectorMask)) ∧
      r.status = p.status ∧ r.idx = p.idx ∧
      r.evicted = evictedBy cfg p.status (ta.lines p.idx) ∧
      ta'.lines = Function.update ta.lines p.idx (touchedLine cfg addr time
        (cfg.sectorIndex mf.accessSectorMask) p.status (ta.lines p.idx)) := by
  obtain ⟨p, hp', h⟩ := bind_eq_ok.1 h
  have hp : ta.probe addr idx mf.accessSectorMask mf.isWrite = .ok p := by
    rw [← hp']
    refine (probe_congr ?_ ?_ _ _ _ _).symm <;> rfl
  obtain ⟨setIndex, -, hprobed⟩ := probed_of_probe hp
  cases hs : p.status with
  | hit =>
      simp only [hs] at h
      cases h
      exact ⟨p, hp, fun _ _ => (hprobed.found (Or.inl hs)).2.2.1, hs.symm, rfl, by
        simp [evictedBy, hs], by simp [setLine, touchedLine, hs]⟩
  | hitReserved =>
      simp only [hs] at h
      cases h
      exact ⟨p, hp, fun _ _ => (hprobed.found (Or.inr (Or.inl hs))).2.2.1, hs.symm, rfl, by
        simp [evictedBy, hs], by simp [setLine, touchedLine, hs]⟩
  | miss =>
      simp only [hs] at h
      by_cases hon : cfg.allocPolicy = .onMiss
      · rw [if_pos hon] at h
        obtain ⟨i, hi, h⟩ := bind_eq_ok.1 h
        rw [CacheConfig.sectorIndex_eq hi]
        refine ⟨p, hp, fun _ _ => hi, ?_⟩
        split at h
        · next hm =>
            cases h
            exact ⟨hs.symm, rfl, by simp [evictedBy, hs, hon, hm], by
              simp [setLine, touchedLine, hs, hon]⟩
        · next hm =>
            cases h
            exact ⟨hs.symm, rfl, by simp [evictedBy, hs, hm], by
              simp [setLine, touchedLine, hs, hon]⟩
      · rw [if_neg hon] at h
        cases h
        exact ⟨p, hp, by simp [hs, hon], hs.symm, rfl, by simp [evictedBy, hon], by
          simp [touchedLine, hs, hon]⟩
  | reservationFail =>
      simp only [hs] at h
      cases h
      exact ⟨p, hp, by simp [hs], hs.symm, rfl, by simp [evictedBy, hs], by
        simp [touchedLine, hs]⟩
  | sectorMiss =>
      simp only [hs] at h
      obtain ⟨_, -, h⟩ := bind_eq_ok.1 h
      have hi := (hprobed.found (Or.inr (Or.inr hs))).2.2.1
      by_cases hon : cfg.allocPolicy = .onMiss
      · rw [if_pos hon] at h
        obtain ⟨i, hi', h⟩ := bind_eq_ok.1 h
        obtain ⟨new, hnew, h⟩ := bind_eq_ok.1 h
        obtain ⟨_, -, hnew⟩ := bind_eq_ok.1 hnew
        cases hnew
        cases h
        refine ⟨p, hp, fun _ _ => hi, hs.symm, rfl, by simp [evictedBy, hs], ?_⟩
        simp only [setLine, touchedLine, hs, if_pos hon, CacheConfig.sectorIndex_eq hi']
        split <;> rfl
      · rw [if_neg hon] at h
        cases h
        exact ⟨p, hp, fun _ _ => hi, hs.symm, rfl, by simp [evictedBy, hs], by
          simp [touchedLine, hs, hon]⟩
  | mshrHit => exact absurd hs hprobed.ne_mshrHit

/-- Every access counts itself and its miss, and marks the tag array as used. -/
theorem access_members {ta ta' : TagArray cfg} {addr : NewAddrType} {time : Time} {idx : ℕ}
    {mf : MemFetch} {r : AccessResult} (h : ta.access addr time idx mf = .ok (ta', r)) :
    ta'.isUsed = true ∧ ta'.accesses = ta.accesses + 1 ∧
      ta'.misses = ta.misses + [r.status].count .miss ∧
      ta'.sectorMiss = ta.sectorMiss + [r.status].count .sectorMiss := by
  obtain ⟨p, -, h⟩ := bind_eq_ok.1 h
  cases hs : p.status with
  | hit =>
      simp only [hs] at h
      cases h
      exact ⟨rfl, rfl, rfl, rfl⟩
  | hitReserved =>
      simp only [hs] at h
      cases h
      exact ⟨rfl, rfl, rfl, rfl⟩
  | miss =>
      simp only [hs] at h
      split at h
      · obtain ⟨i, -, h⟩ := bind_eq_ok.1 h
        split at h
        · cases h
          exact ⟨rfl, rfl, rfl, rfl⟩
        · cases h
          exact ⟨rfl, rfl, rfl, rfl⟩
      · cases h
        exact ⟨rfl, rfl, rfl, rfl⟩
  | reservationFail =>
      simp only [hs] at h
      cases h
      exact ⟨rfl, rfl, rfl, rfl⟩
  | sectorMiss =>
      simp only [hs] at h
      obtain ⟨_, -, h⟩ := bind_eq_ok.1 h
      split at h
      · obtain ⟨i, -, h⟩ := bind_eq_ok.1 h
        obtain ⟨new, -, h⟩ := bind_eq_ok.1 h
        cases h
        split <;> exact ⟨rfl, rfl, rfl, rfl⟩
      · cases h
        exact ⟨rfl, rfl, rfl, rfl⟩
  | mshrHit =>
      simp only [hs] at h
      cases h

theorem access_isUsed {ta ta' : TagArray cfg} {addr : NewAddrType} {time : Time} {idx : ℕ}
    {mf : MemFetch} {r : AccessResult} (h : ta.access addr time idx mf = .ok (ta', r)) :
    ta'.isUsed = true := (access_members h).1

theorem accessNoWriteback_eq_ok {ta ta' : TagArray cfg} {addr : NewAddrType} {time : Time}
    {idx : ℕ} {mf : MemFetch} {r : AccessResult}
    (h : ta.accessNoWriteback addr time idx mf = .ok (ta', r)) :
    ta.access addr time idx mf = .ok (ta', r) := by
  obtain ⟨⟨ta'', r'⟩, ha, h⟩ := bind_eq_ok.1 h
  obtain ⟨_, -, h⟩ := bind_eq_ok.1 h
  cases h
  exact ha

/-! ### What a fill, a flush and an invalidation do -/

theorem fillLine_lines (ta : TagArray cfg) (index : ℕ) (i : Fin 4) (byteMask : MemAccessByteMask) :
    (ta.fillLine index i byteMask).lines =
      Function.update ta.lines index ((ta.lines index).fill i byteMask) := by
  unfold fillLine
  dsimp only
  split <;> rfl

theorem fillIndex_eq_ok {ta ta' : TagArray cfg} {index : ℕ} {mf : MemFetch}
    (h : ta.fillIndex index mf = .ok ta') :
    cfg.getSectorIndex mf.accessSectorMask = .ok (cfg.sectorIndex mf.accessSectorMask) ∧
      ta'.lines = Function.update ta.lines index
        ((ta.lines index).fill (cfg.sectorIndex mf.accessSectorMask) mf.accessByteMask) := by
  obtain ⟨_, -, h⟩ := bind_eq_ok.1 h
  obtain ⟨i, hi, h⟩ := bind_eq_ok.1 h
  rw [CacheConfig.sectorIndex_eq hi]
  cases h
  exact ⟨hi, fillLine_lines _ _ _ _⟩

/-- No sector of a line survives its invalidation. -/
theorem getStatus_invalidateLine (b : CacheBlock cfg.cacheType) (i : Fin 4) :
    (invalidateLine b).getStatus i = .invalid := by
  have hfold : ∀ (js : List (Fin 4)) (b : CacheBlock cfg.cacheType) (i : Fin 4),
      i ∈ js ∨ b.getStatus i = .invalid →
      (js.foldl (fun b j => b.setStatus .invalid j) b).getStatus i = .invalid := by
    intro js
    induction js with
    | nil => exact fun b i hi => hi.resolve_left List.not_mem_nil
    | cons j js ih =>
        intro b i hi
        refine ih _ i ?_
        by_cases hij : i ∈ js
        · exact Or.inl hij
        · refine Or.inr ?_
          dsimp only
          rw [CacheBlock.getStatus, CacheBlock.setStatus, CacheBlock.sectorAt_modifySector]
          split
          · rfl
          · next hne =>
              refine hi.resolve_left fun hmem => ?_
              rcases List.mem_cons.1 hmem with rfl | hmem
              · exact hne (Or.inr rfl)
              · exact hij hmem
  exact hfold _ b i (Or.inl (List.mem_finRange i))

/-- The line that a fill by address has found or taken, before it is filled. -/
def fillTarget (cfg : CacheConfig) (addr : NewAddrType) (time : Time) (i : Fin 4)
    (status : CacheRequestStatus) (b : CacheBlock cfg.cacheType) : CacheBlock cfg.cacheType :=
  match status with
  | .miss => b.allocate (cfg.tag addr) (cfg.blockAddr addr) time i
  | .sectorMiss => { b.modifySector i CacheBlock.reserveSectorAgain with lastAccessTime := time }
  | _ => b

theorem allocateForFill_eq_ok {addr : NewAddrType} {time : Time} {i : Fin 4}
    {status : CacheRequestStatus} {b new : CacheBlock cfg.cacheType}
    (h : allocateForFill addr time i status b = .ok new) :
    new = fillTarget cfg addr time i status b := by
  unfold allocateForFill at h
  unfold fillTarget
  split at h
  · next hm =>
      cases h
      simp only [hm]
  · split at h
    · next hm =>
        obtain ⟨_, -, h⟩ := bind_eq_ok.1 h
        obtain ⟨_, -, h⟩ := bind_eq_ok.1 h
        cases h
        simp only [hm]
    · next hm hs =>
        cases h
        cases hst : status <;> simp_all

theorem fillAddr_eq_ok {ta ta' : TagArray cfg} {addr : NewAddrType} {time : Time}
    {mask : MemAccessSectorMask} {byteMask : MemAccessByteMask} {isWrite : Bool}
    (h : ta.fillAddr addr time mask byteMask isWrite = .ok ta') :
    ∃ p, ta.probe addr 0 mask isWrite = .ok p ∧
      (p.status = .reservationFail ∧ ta'.lines = ta.lines ∨
        p.status ≠ .reservationFail ∧
          cfg.getSectorIndex mask = .ok (cfg.sectorIndex mask) ∧
          ta'.lines = Function.update ta.lines p.idx ((fillTarget cfg addr time
            (cfg.sectorIndex mask) p.status (ta.lines p.idx)).fill (cfg.sectorIndex mask)
              byteMask)) := by
  obtain ⟨p, hp, h⟩ := bind_eq_ok.1 h
  refine ⟨p, hp, ?_⟩
  split at h
  · next hf =>
      cases h
      exact Or.inl ⟨hf, rfl⟩
  · next hf =>
      obtain ⟨i, hi, h⟩ := bind_eq_ok.1 h
      rw [CacheConfig.sectorIndex_eq hi]
      refine Or.inr ⟨hf, hi, ?_⟩
      obtain ⟨new, hnew, h⟩ := bind_eq_ok.1 h
      have htarget := allocateForFill_eq_ok hnew
      cases h
      rw [fillLine_lines, ← htarget]
      split <;> simp [setLine]

end TagArray

end OpenCache
