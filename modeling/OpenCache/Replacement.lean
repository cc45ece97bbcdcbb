/-
The victim of a miss.

`probe` looks for the way to replace while it compares the tags: the last invalid way, if there is
one, and otherwise the least of the time stamps by which `m_replacement_policy` compares, in one
scan that starts from a sentinel.  The reference is the list of the lines of a set in the order in
which they were last touched, for LRU, or allocated, for FIFO.

* `OpenCache.ScanOrder`, `OpenCache.TagArray.scanWays_order` — what the scan has found so far;
* `OpenCache.TagArray.probe_victim` — **the way that a probe takes**;
* `OpenCache.LineDriver` — a tag array driven by accesses, fills, pins and unpins, with the list;
* `OpenCache.LineDriver.Ordered` — the list is in the order of the stamps;
* `OpenCache.replacement_refines_order` — **the victims are those of the reference order**.
-/

import OpenCache.RecencyList
import OpenCache.TagArray
import OpenCache.Runs

set_option relaxedAutoImplicit false
set_option autoImplicit false

namespace OpenCache

namespace TagArray

variable {cfg : CacheConfig}

/-! ### The scan -/

/-- The time stamp of a line. -/
def stamp (ta : TagArray cfg) (index : ℕ) : ℕ := replacementTime (ta.lines index)

/-- A replacement candidate that holds something. -/
def Candidate (ta : TagArray cfg) (index : ℕ) : Prop :=
  ta.eligible index = true ∧ (ta.lines index).isInvalidLine = false

/-- What the scan has found in the ways in `done`, which are in ascending order. -/
structure ScanOrder (ta : TagArray cfg) (done : List ℕ) (s : Scan) : Prop where
  invalid : ∀ j, s.invalidLine = some j → (ta.lines j).isInvalidLine = true
  noInvalid : s.invalidLine = none → ∀ j ∈ done, ta.eligible j = true →
    (ta.lines j).isInvalidLine = false
  valid : ∀ j, s.validLine = some j → (j ∈ done ∧ ta.Candidate j) ∧ s.validTimestamp = ta.stamp j ∧
    ∀ k ∈ done, ta.Candidate k → k ≠ j → Recency.Before ta.stamp j k
  noValid : s.validLine = none → s.validTimestamp = 2 ^ 32 - 1 ∧
    ∀ k ∈ done, ta.Candidate k → 2 ^ 32 - 1 ≤ ta.stamp k
  someEligible : s.allReserved = false → ∃ j ∈ done, ta.eligible j = true

theorem ScanOrder.init (ta : TagArray cfg) : ScanOrder ta [] Scan.init :=
  ⟨by simp [Scan.init], by simp, by simp [Scan.init], fun _ => ⟨rfl, by simp⟩, by simp [Scan.init]⟩

/-- A way that is no candidate changes nothing. -/
theorem ScanOrder.skip {ta : TagArray cfg} {done : List ℕ} {s s' : Scan} {index : ℕ}
    (h : ScanOrder ta done s) (hnot : ¬ta.eligible index = true)
    (hinvalid : s'.invalidLine = s.invalidLine) (hvalid : s'.validLine = s.validLine)
    (hstamp : s'.validTimestamp = s.validTimestamp) (hreserved : s'.allReserved = s.allReserved) :
    ScanOrder ta (done ++ [index]) s' := by
  have hold : ∀ j ∈ done ++ [index], ta.eligible j = true → j ∈ done := by
    intro j hj he
    rcases List.mem_append.1 hj with hj | hj
    · exact hj
    · exact absurd (List.mem_singleton.1 hj ▸ he) hnot
  constructor
  · rw [hinvalid]
    exact h.invalid
  · rw [hinvalid]
    exact fun hnone j hj he => h.noInvalid hnone j (hold j hj he) he
  · rw [hvalid, hstamp]
    intro j hj
    obtain ⟨⟨hmem, hj⟩, hs, hfirst⟩ := h.valid j hj
    exact ⟨⟨List.mem_append_left _ hmem, hj⟩, hs,
      fun k hk hc => hfirst k (hold k hk hc.1) hc⟩
  · rw [hvalid, hstamp]
    intro hnone
    obtain ⟨hs, hlate⟩ := h.noValid hnone
    exact ⟨hs, fun k hk hc => hlate k (hold k hk hc.1) hc⟩
  · rw [hreserved]
    intro hfree
    obtain ⟨j, hj, he⟩ := h.someEligible hfree
    exact ⟨j, List.mem_append_left _ hj, he⟩

/-- One way more. -/
theorem ScanOrder.considerVictim {ta : TagArray cfg} {done : List ℕ} {s : Scan}
    (h : ScanOrder ta done s) {index : ℕ} (hlast : ∀ j ∈ done, j < index) :
    ScanOrder ta (done ++ [index]) (ta.considerVictim index s) := by
  unfold TagArray.considerVictim
  dsimp only
  by_cases hp : (ta.lines index).isPinned = true
  · rw [if_pos hp]
    exact h.skip (by simp [eligible, hp]) rfl rfl rfl rfl
  · rw [if_neg hp]
    by_cases he : ta.eligible index = true
    · rw [if_pos he]
      have heligible : ∃ j ∈ done ++ [index], ta.eligible j = true := ⟨index, by simp, he⟩
      by_cases hi : (ta.lines index).isInvalidLine = true
      · rw [if_pos hi]
        have hold : ∀ k ∈ done ++ [index], ta.Candidate k → k ∈ done := by
          intro k hk hc
          rcases List.mem_append.1 hk with hk | hk
          · exact hk
          · have hlive := hc.2
            rw [List.mem_singleton.1 hk, hi] at hlive
            cases hlive
        refine ⟨?_, (fun hnone => by cases hnone), ?_, ?_, fun _ => heligible⟩
        · rintro j ⟨⟩
          exact hi
        · intro j hj
          obtain ⟨⟨hmem, hj⟩, hs, hfirst⟩ := h.valid j hj
          exact ⟨⟨List.mem_append_left _ hmem, hj⟩, hs,
            fun k hk hc => hfirst k (hold k hk hc) hc⟩
        · intro hnone
          obtain ⟨hs, hlate⟩ := h.noValid hnone
          exact ⟨hs, fun k hk hc => hlate k (hold k hk hc) hc⟩
      · rw [if_neg hi]
        have hcandidate : ta.Candidate index := ⟨he, by simpa using hi⟩
        have hnoInvalid : s.invalidLine = none → ∀ j ∈ done ++ [index], ta.eligible j = true →
            (ta.lines j).isInvalidLine = false := by
          intro hnone j hj hej
          rcases List.mem_append.1 hj with hj | hj
          · exact h.noInvalid hnone j hj hej
          · rw [List.mem_singleton.1 hj]
            exact hcandidate.2
        split
        · next hless =>
            -- the way is older than all before it
            refine ⟨h.invalid, hnoInvalid, ?_, (fun hnone => by cases hnone), fun _ => heligible⟩
            rintro j ⟨⟩
            refine ⟨⟨by simp, hcandidate⟩, rfl, fun k hk hc hne => Or.inl ?_⟩
            have hk : k ∈ done := (List.mem_append.1 hk).resolve_right fun hk =>
              hne (List.mem_singleton.1 hk)
            have hless : ta.stamp index < s.validTimestamp := hless
            cases hvalid : s.validLine with
            | none =>
                obtain ⟨hs, hlate⟩ := h.noValid hvalid
                have hlate := hlate k hk hc
                omega
            | some j =>
                obtain ⟨-, hs, hfirst⟩ := h.valid j hvalid
                by_cases hkj : k = j
                · rw [hkj]
                  omega
                · rcases hfirst k hk hc hkj with hold | ⟨hold, -⟩ <;> omega
        · next hless =>
            have hless : ¬ta.stamp index < s.validTimestamp := hless
            refine ⟨h.invalid, hnoInvalid, ?_, ?_, fun _ => heligible⟩
            · intro j hj
              obtain ⟨⟨hmem, hj⟩, hs, hfirst⟩ := h.valid j hj
              refine ⟨⟨List.mem_append_left _ hmem, hj⟩, hs, fun k hk hc hne => ?_⟩
              rcases List.mem_append.1 hk with hk | hk
              · exact hfirst k hk hc hne
              · -- a tie is won by the way that came first
                rw [List.mem_singleton.1 hk]
                have hlt := hlast j hmem
                rcases Nat.lt_or_ge (ta.stamp j) (ta.stamp index) with hold | hold
                · exact Or.inl hold
                · exact Or.inr ⟨by omega, hlt⟩
            · intro hnone
              obtain ⟨hs, hlate⟩ := h.noValid hnone
              refine ⟨hs, fun k hk hc => ?_⟩
              rcases List.mem_append.1 hk with hk | hk
              · exact hlate k hk hc
              · rw [List.mem_singleton.1 hk]
                omega
    · rw [if_neg he]
      exact h.skip he rfl rfl rfl rfl

/-- The scan over all ways, when none of them matches. -/
theorem scanWays_order {ta : TagArray cfg} {tag : NewAddrType} {mask : MemAccessSectorMask}
    {isWrite : Bool} {ways done : List ℕ} {s s' : Scan}
    (h : ta.scanWays tag mask isWrite ways s = .ok (.exhausted s')) (hs : ScanOrder ta done s)
    (hsorted : (done ++ ways).Pairwise (· < ·)) : ScanOrder ta (done ++ ways) s' := by
  induction ways generalizing done s with
  | nil =>
      cases h
      simpa using hs
  | cons index rest ih =>
      rw [scanWays] at h
      obtain ⟨m, -, h⟩ := bind_eq_ok.1 h
      cases m with
      | some status => cases h
      | none =>
          have hlast : ∀ j ∈ done, j < index := fun j hj =>
            (List.pairwise_append.1 hsorted).2.2 j hj index List.mem_cons_self
          rw [List.append_cons] at hsorted ⊢
          exact ih h (hs.considerVictim hlast) hsorted

theorem waysOf_sorted (cfg : CacheConfig) (setIndex : ℕ) :
    (waysOf cfg setIndex).Pairwise (· < ·) := by
  refine List.Pairwise.map _ (fun a b hab => ?_) List.pairwise_lt_range
  omega

/-- The answer of a probe that matches no way. -/
theorem probe_exhausted {ta : TagArray cfg} {addr : NewAddrType} {idx : ℕ}
    {mask : MemAccessSectorMask} {isWrite : Bool} {p : ProbeResult}
    (h : ta.probe addr idx mask isWrite = .ok p) (hmiss : p.status = .miss) :
    ∃ setIndex s, cfg.setIndex addr = .ok setIndex ∧ ScanOrder ta (waysOf cfg setIndex) s ∧
      (s.invalidLine = some p.idx ∨ s.invalidLine = none ∧ s.validLine = some p.idx) := by
  obtain ⟨setIndex, hset, h⟩ := bind_eq_ok.1 h
  obtain ⟨r, hr, h⟩ := bind_eq_ok.1 h
  cases r with
  | found status index =>
      obtain ⟨-, -, -, hstatus⟩ := scanWays_spec hr (ScanInv.init ta)
      cases h
      have hcases := CacheBlock.matchStatus_cases hstatus
      simp only at hmiss
      simp [hmiss] at hcases
  | exhausted s =>
      have horder := scanWays_order hr (ScanOrder.init ta)
        (by simpa using waysOf_sorted cfg setIndex)
      refine ⟨setIndex, s, hset, by simpa using horder, ?_⟩
      simp only at h
      split at h
      · obtain ⟨_, -, h⟩ := bind_eq_ok.1 h
        cases h
        cases hmiss
      · split at h
        · next hinvalid =>
            cases h
            exact Or.inl hinvalid
        · next hinvalid hvalid =>
            cases h
            exact Or.inr ⟨hinvalid, hvalid⟩
        · cases h

/-- **The way that a probe takes**: an invalid one, if the set has one that is eligible, and
otherwise the first in the order of the stamps. -/
theorem probe_victim {ta : TagArray cfg} {addr : NewAddrType} {idx setIndex : ℕ}
    {mask : MemAccessSectorMask} {isWrite : Bool} {p : ProbeResult}
    (h : ta.probe addr idx mask isWrite = .ok p) (hmiss : p.status = .miss)
    (hset : cfg.setIndex addr = .ok setIndex) :
    (ta.lines p.idx).isInvalidLine = false →
      ∀ k ∈ waysOf cfg setIndex, ta.eligible k = true →
        (ta.lines k).isInvalidLine = false ∧ (k ≠ p.idx → Recency.Before ta.stamp p.idx k) := by
  obtain ⟨setIndex', s, hset', horder, hidx⟩ := probe_exhausted h hmiss
  obtain rfl : setIndex' = setIndex := Except.ok.inj (hset'.symm.trans hset)
  intro hlive k hk he
  rcases hidx with hinvalid | ⟨hinvalid, hvalid⟩
  · rw [horder.invalid p.idx hinvalid] at hlive
    cases hlive
  · have hklive := horder.noInvalid hinvalid k hk he
    exact ⟨hklive, (horder.valid p.idx hvalid).2.2 k hk ⟨he, hklive⟩⟩

/-- The scan of the ways of a request with one sector returns. -/
theorem scanWays_returns {ta : TagArray cfg} {mask : MemAccessSectorMask} {i : Fin 4}
    (hi : cfg.getSectorIndex mask = .ok i) (tag : NewAddrType) (isWrite : Bool) (ways : List ℕ)
    (s : Scan) : ∃ r, ta.scanWays tag mask isWrite ways s = .ok r := by
  induction ways generalizing s with
  | nil => exact ⟨_, rfl⟩
  | cons index rest ih =>
      obtain ⟨m, hm⟩ : ∃ m, ta.matchWay tag mask isWrite index = .ok m := by
        unfold matchWay
        split
        · rw [hi]
          exact ⟨_, rfl⟩
        · exact ⟨_, rfl⟩
      rw [scanWays, hm]
      cases m with
      | some status => exact ⟨_, rfl⟩
      | none => exact ih _

/-- **A probe finds a candidate if there is one**, as long as the stamps are below the sentinel: it
does not abort. -/
theorem probe_returns {ta : TagArray cfg} {addr : NewAddrType} {mask : MemAccessSectorMask}
    {setIndex : ℕ} {i : Fin 4} (hon : cfg.allocPolicy = .onMiss)
    (hset : cfg.setIndex addr = .ok setIndex) (hi : cfg.getSectorIndex mask = .ok i)
    (hstamp : ∀ j, ta.stamp j < 2 ^ 32 - 1) (idx : ℕ) (isWrite : Bool) :
    ∃ p, ta.probe addr idx mask isWrite = .ok p := by
  obtain ⟨r, hr⟩ := scanWays_returns hi (cfg.tag addr) isWrite (waysOf cfg setIndex) Scan.init
  cases hprobe : ta.probe addr idx mask isWrite with
  | ok p => exact ⟨p, rfl⟩
  | error e =>
      exfalso
      rcases bind_eq_error.1 hprobe with h | ⟨setIndex', hset', h⟩
      · rw [hset] at h
        cases h
      obtain rfl : setIndex' = setIndex := Except.ok.inj (hset'.symm.trans hset)
      rcases bind_eq_error.1 h with h | ⟨r', hr', h⟩
      · rw [hr] at h
        cases h
      cases r' with
      | found status index => cases h
      | exhausted s =>
          have horder :=
            scanWays_order hr' (ScanOrder.init ta) (by simpa using waysOf_sorted cfg setIndex')
          rw [List.nil_append] at horder
          simp only at h
          split at h
          · rcases bind_eq_error.1 h with h | ⟨_, -, h⟩
            · rw [assertThat, if_pos hon] at h
              cases h
            · cases h
          · next hfree =>
              split at h
              · cases h
              · cases h
              · next hinvalid hvalid =>
                  -- the eligible way has a stamp below the sentinel, and would have been taken
                  obtain ⟨j, hj, he⟩ := horder.someEligible (by simpa using hfree)
                  have hlate :=
                    (horder.noValid hvalid).2 j hj ⟨he, horder.noInvalid hinvalid j hj he⟩
                  have hearly := hstamp j
                  omega

/-! ### The dirty limit -/

theorem toFloat_nonneg {q : ℚ} (h : 0 ≤ q) : 0 ≤ toFloat q := by
  unfold toFloat
  split
  · exact le_refl 0
  · have hulp : (0 : ℚ) < 2 ^ (Int.log 2 q - 23) := zpow_pos two_pos _
    refine mul_nonneg ?_ hulp.le
    have hfloor : 0 ≤ ⌊q / 2 ^ (Int.log 2 q - 23)⌋ := Int.floor_nonneg.2 (div_nonneg h hulp.le)
    have hround : 0 ≤ roundHalfEven (q / 2 ^ (Int.log 2 q - 23)) := by
      unfold roundHalfEven
      dsimp only
      split
      · exact hfloor
      · split
        · omega
        · split <;> omega
    exact_mod_cast hround

/-- With `m_wr_percent` 0 the dirty lines have always reached their limit. -/
theorem dirtyLimitReached_of_zero (hwr : cfg.wrPercent = 0) (ta : TagArray cfg) :
    ta.dirtyLimitReached = true := by
  unfold dirtyLimitReached
  rw [hwr]
  have hzero : toFloat ((0 : ℕ) : ℚ) = 0 := by simp [toFloat]
  rw [hzero]
  refine decide_eq_true (toFloat_nonneg (mul_nonneg (toFloat_nonneg (div_nonneg ?_ ?_)) (by simp)))
  · exact toFloat_nonneg (Nat.cast_nonneg _)
  · exact toFloat_nonneg (Nat.cast_nonneg _)

end TagArray

/-! ### The driver -/

/-- A tag array and the reference: the lines of each set in the order of their last touches, and the
least time of the next access. -/
structure LineDriver (cfg : CacheConfig) where
  tags : TagArray cfg
  order : ℕ → List ℕ
  next : ℕ

/-- The calls of the driver: an access comes with the value that the caller has left in `idx`. -/
inductive LineOp
  | access (addr : NewAddrType) (time : Time) (idx : ℕ) (mf : MemFetch)
  | fill (index : ℕ) (mf : MemFetch)
  | pin (index : ℕ)
  | unpin (index : ℕ)

namespace LineDriver

variable {cfg : CacheConfig}

/-- Before the first call no line was touched. -/
def init (cfg : CacheConfig) : LineDriver cfg := ⟨TagArray.init cfg, TagArray.waysOf cfg, 0⟩

/-- The outcomes that put a line at the end of the reference order. -/
def touches (cfg : CacheConfig) (status : CacheRequestStatus) : Bool :=
  match cfg.replacementPolicy with
  | .lru => status = .hit ∨ status = .hitReserved ∨ status = .miss ∨ status = .sectorMiss
  | .fifo => status = .miss

/-- One call.  A line that was never touched has the time 0 of its constructor, and a touch at time
0 leaves it among those. -/
def perform (d : LineDriver cfg) : LineOp → Step (LineDriver cfg × Option AccessResult)
  | .access addr time idx mf => do
      let (tags, r) ← d.tags.access addr time idx mf
      let order := if touches cfg r.status ∧ 0 < time.toNat then
        fun s => Recency.touch r.idx (d.order s) else d.order
      return (⟨tags, order, time.toNat + 1⟩, some r)
  | .fill index mf => do
      let tags ← d.tags.fillIndex index mf
      return ({ d with tags }, none)
  | .pin index => return ({ d with tags := d.tags.setLine index (d.tags.lines index).pin }, none)
  | .unpin index => do
      let block ← (d.tags.lines index).unpin
      return ({ d with tags := d.tags.setLine index block }, none)

/-- The times of the accesses increase, and stay below the sentinel. -/
def Promise (d : LineDriver cfg) : LineOp → Prop
  | .access _ time _ _ => d.next ≤ time.toNat ∧ time.toNat < 2 ^ 32 - 1
  | _ => True

instance (d : LineDriver cfg) (o : LineOp) : Decidable (d.Promise o) := by
  induction o using LineOp.casesOn <;> unfold Promise <;> infer_instance

/-- The reference order is the order of the stamps, which are in the past. -/
structure Ordered (d : LineDriver cfg) : Prop where
  perm : ∀ s, (d.order s).Perm (TagArray.waysOf cfg s)
  sorted : ∀ s, (d.order s).Pairwise (Recency.Before d.tags.stamp)
  past : ∀ i, d.tags.stamp i < d.next ∨ d.tags.stamp i = 0
  next_le : d.next ≤ 2 ^ 32 - 1

namespace Ordered

variable {d : LineDriver cfg}

theorem init : (init cfg).Ordered where
  perm _ := List.Perm.refl _
  sorted s := by
    refine (TagArray.waysOf_sorted cfg s).imp fun hlt => Or.inr ⟨?_, hlt⟩
    rfl
  past i := by
    refine Or.inr ?_
    unfold TagArray.stamp TagArray.replacementTime
    cases cfg.replacementPolicy <;> rfl
  next_le := Nat.zero_le _

theorem stamp_lt (h : d.Ordered) (i : ℕ) : d.tags.stamp i < 2 ^ 32 - 1 := by
  have hnext := h.next_le
  rcases h.past i with hi | hi <;> omega

/-- Calls that leave the stamps alone. -/
theorem of_stamp (h : d.Ordered) {tags : TagArray cfg} (hstamp : tags.stamp = d.tags.stamp) :
    ({ d with tags } : LineDriver cfg).Ordered where
  perm := h.perm
  sorted s := by
    dsimp only
    rw [hstamp]
    exact h.sorted s
  past i := by
    dsimp only
    rw [hstamp]
    exact h.past i
  next_le := h.next_le

/-- The stamps after one line was replaced by one with the same stamp. -/
theorem stamp_update {ta ta' : TagArray cfg} {index : ℕ} {b : CacheBlock cfg.cacheType}
    (hlines : ta'.lines = Function.update ta.lines index b)
    (hb : TagArray.replacementTime b = ta.stamp index) : ta'.stamp = ta.stamp := by
  funext i
  rw [TagArray.stamp, hlines]
  by_cases hi : i = index
  · rw [hi, Function.update_self, hb]
  · rw [Function.update_of_ne hi, TagArray.stamp]

/-- The stamp of a line after an access that has found it. -/
theorem replacementTime_touchedLine (hon : cfg.allocPolicy = .onMiss) (addr : NewAddrType)
    (time : Time) (i : Fin 4) (status : CacheRequestStatus) (b : CacheBlock cfg.cacheType) :
    TagArray.replacementTime (TagArray.touchedLine cfg addr time i status b) =
      if touches cfg status then time.toNat else TagArray.replacementTime b := by
  have hallocate : ∀ {k : CacheType} (b : CacheBlock k) (tag blockAddr : NewAddrType),
      (b.allocate tag blockAddr time i).allocTime = time ∧
        (b.allocate tag blockAddr time i).lastAccessTime = time := by
    intro k b tag blockAddr
    rcases b with ⟨_, _, _, _, _, _, _, _, ⟨s⟩ | ⟨s⟩⟩ <;> exact ⟨rfl, rfl⟩
  unfold TagArray.replacementTime touches
  cases cfg.replacementPolicy with
  | lru =>
      cases status <;> simp [TagArray.touchedLine, hon, CacheBlock.setLastAccessTime, hallocate]
  | fifo =>
      cases status <;> simp [TagArray.touchedLine, hon, CacheBlock.setLastAccessTime, hallocate,
        CacheBlock.modifySector]

theorem access (hon : cfg.allocPolicy = .onMiss) (h : d.Ordered) {addr : NewAddrType} {time : Time}
    {idx : ℕ} {mf : MemFetch} {tags : TagArray cfg} {r : AccessResult}
    (hpromise : d.Promise (.access addr time idx mf))
    (haccess : d.tags.access addr time idx mf = .ok (tags, r)) :
    (⟨tags, if touches cfg r.status ∧ 0 < time.toNat then
      fun s => Recency.touch r.idx (d.order s) else d.order, time.toNat + 1⟩ :
        LineDriver cfg).Ordered := by
  obtain ⟨hnext, htime⟩ := hpromise
  obtain ⟨p, -, -, hstatus, hidx, -, hlines⟩ := TagArray.access_eq_ok haccess
  rw [← hstatus, ← hidx] at hlines
  have hothers : ∀ i, i ≠ r.idx → tags.stamp i = d.tags.stamp i := by
    intro i hi
    rw [TagArray.stamp, hlines, Function.update_of_ne hi, TagArray.stamp]
  have hself : tags.stamp r.idx =
      if touches cfg r.status then time.toNat else d.tags.stamp r.idx := by
    rw [TagArray.stamp, hlines, Function.update_self, replacementTime_touchedLine hon]
    rfl
  have hpast : ∀ i, tags.stamp i < time.toNat + 1 ∨ tags.stamp i = 0 := by
    intro i
    have hi := h.past i
    by_cases heq : i = r.idx
    · rw [heq] at hi ⊢
      rw [hself]
      split <;> omega
    · rw [hothers i heq]
      omega
  have hnodup : ∀ s, (d.order s).Nodup := fun s =>
    (h.perm s).nodup_iff.2 ((TagArray.waysOf_sorted cfg s).imp fun hlt => Nat.ne_of_lt hlt)
  by_cases htouch : touches cfg r.status = true ∧ 0 < time.toNat
  · rw [if_pos htouch]
    rw [if_pos htouch.1] at hself
    refine ⟨fun s => (Recency.touch_perm _ _).trans (h.perm s), fun s => ?_, hpast, by
      dsimp only; omega⟩
    refine Recency.pairwise_touch (hnodup s) (h.sorted s) (fun x _ hx => hothers x hx) ?_
    intro x _ _
    have hx := h.past x
    rw [hself]
    omega
  · rw [if_neg htouch]
    have hsame : tags.stamp = d.tags.stamp := by
      funext i
      by_cases heq : i = r.idx
      · rw [heq, hself]
        split
        · next ht =>
            -- a touch at time 0, before which every stamp is 0
            have hi := h.past r.idx
            have hzero : ¬0 < time.toNat := fun hpos => htouch ⟨ht, hpos⟩
            omega
        · rfl
      · exact hothers i heq
    refine ⟨h.perm, fun s => ?_, hpast, by dsimp only; omega⟩
    dsimp only
    rw [hsame]
    exact h.sorted s

/-- **Every call keeps the reference in order.** -/
theorem step (hon : cfg.allocPolicy = .onMiss) (h : d.Ordered) {o : LineOp} {d' : LineDriver cfg}
    {b : Option AccessResult} (hpromise : d.Promise o) (hperform : d.perform o = .ok (d', b)) :
    d'.Ordered := by
  cases o with
  | access addr time idx mf =>
      obtain ⟨⟨tags, r⟩, haccess, hperform⟩ := bind_eq_ok.1 hperform
      cases hperform
      exact h.access hon hpromise haccess
  | fill index mf =>
      obtain ⟨tags, hfill, hperform⟩ := bind_eq_ok.1 hperform
      cases hperform
      refine h.of_stamp (stamp_update (TagArray.fillIndex_eq_ok hfill).2 ?_)
      unfold CacheBlock.fill
      dsimp only
      split <;> rfl
  | pin index =>
      cases hperform
      exact h.of_stamp (stamp_update rfl rfl)
  | unpin index =>
      obtain ⟨block, hblock, hperform⟩ := bind_eq_ok.1 hperform
      obtain ⟨_, -, hblock⟩ := bind_eq_ok.1 hblock
      cases hblock
      cases hperform
      exact h.of_stamp (stamp_update rfl rfl)

end Ordered

/-- In every run the reference is in order. -/
theorem ordered_of_run (hon : cfg.allocPolicy = .onMiss) {trace : List (Option AccessResult)}
    {d : LineDriver cfg} (h : Runs.Run perform Promise (init cfg) trace d) : d.Ordered :=
  h.invariant (fun _ d => d.Ordered) Ordered.init fun _ _ _ _ _ hordered hpromise hperform =>
    hordered.step hon hpromise hperform

end LineDriver

/-! ### The victims -/

namespace TagArray

variable {cfg : CacheConfig}

/-- An invalid way that is not pinned. -/
def isFree (ta : TagArray cfg) (index : ℕ) : Bool :=
  (ta.lines index).isInvalidLine && !(ta.lines index).isPinned

/-- A way that is neither pinned nor reserved. -/
def isReplaceable (ta : TagArray cfg) (index : ℕ) : Bool :=
  !(ta.lines index).isPinned && !(ta.lines index).isReservedLine

theorem eligible_eq_isReplaceable (hwr : cfg.wrPercent = 0) (ta : TagArray cfg) (index : ℕ) :
    ta.eligible index = ta.isReplaceable index := by
  rw [eligible, dirtyLimitReached_of_zero hwr, Bool.or_true, Bool.and_true, isReplaceable]

/-- An invalid line has no reserved sector. -/
theorem isReplaceable_of_isFree {ta : TagArray cfg} {index : ℕ} (h : ta.isFree index = true) :
    ta.isReplaceable index = true := by
  obtain ⟨hinvalid, hpin⟩ := Bool.and_eq_true_iff.1 h
  refine Bool.and_eq_true_iff.2 ⟨hpin, ?_⟩
  cases hreserved : (ta.lines index).isReservedLine with
  | false => rfl
  | true =>
      obtain ⟨i, hi⟩ := (CacheBlock.isReservedLine_iff _).1 hreserved
      rw [(CacheBlock.isInvalidLine_iff _).1 hinvalid i] at hi
      cases hi

/-- A probe refuses exactly when the block is absent and no way can be replaced. -/
theorem Probed.refused_iff {ta : TagArray cfg} {setIndex : ℕ} {tag : NewAddrType}
    {mask : MemAccessSectorMask} {isWrite : Bool} {p : ProbeResult}
    (h : Probed ta setIndex tag mask isWrite p) : p.status = .reservationFail ↔
      (∀ j ∈ waysOf cfg setIndex, ¬Holds ta.lines j tag) ∧
        ∀ j ∈ waysOf cfg setIndex, ta.eligible j = false := by
  constructor
  · intro hfail
    exact ⟨h.absent (Or.inr hfail), (h.fail hfail).2⟩
  · rintro ⟨habsent, hnone⟩
    have hfound : ¬(p.status = .hit ∨ p.status = .hitReserved ∨ p.status = .sectorMiss) := by
      intro hfound
      obtain ⟨hmem, htag, -, hmatch⟩ := h.found hfound
      refine habsent p.idx hmem ⟨htag, ?_⟩
      cases hinvalid : (ta.lines p.idx).isInvalidLine with
      | false => rfl
      | true =>
          rw [CacheBlock.matchStatus_eq_none.2
            ⟨(CacheBlock.isInvalidLine_iff _).1 hinvalid _, hinvalid⟩] at hmatch
          cases hmatch
    have hmiss : p.status ≠ .miss := by
      intro hmiss
      obtain ⟨hmem, he⟩ := h.miss hmiss
      rw [hnone p.idx hmem] at he
      cases he
    have hne := h.ne_mshrHit
    cases hs : p.status <;> simp_all

end TagArray

/-- The way that a miss takes from a set in which no invalid way is free: the first in the reference
order that can be replaced. -/
theorem LineDriver.Ordered.victim {cfg : CacheConfig} (hwr : cfg.wrPercent = 0)
    {d : LineDriver cfg} (h : d.Ordered) {addr : NewAddrType} {idx setIndex : ℕ}
    {mask : MemAccessSectorMask} {isWrite : Bool} {p : ProbeResult}
    (hp : d.tags.probe addr idx mask isWrite = .ok p) (hmiss : p.status = .miss)
    (hset : cfg.setIndex addr = .ok setIndex) (hlive : (d.tags.lines p.idx).isInvalidLine = false)
    (hmem : p.idx ∈ TagArray.waysOf cfg setIndex) (he : d.tags.eligible p.idx = true) :
    ((d.order setIndex).filter fun j => !(d.tags.lines j).isInvalidLine).find?
      d.tags.isReplaceable = some p.idx := by
  have hsorted := (h.sorted setIndex).sublist
    (List.filter_sublist (p := fun j => !(d.tags.lines j).isInvalidLine))
  refine Recency.find?_of_oldest hsorted ?_ ?_ ?_
  · exact List.mem_filter.2 ⟨(h.perm setIndex).mem_iff.2 hmem, by simp [hlive]⟩
  · rw [← TagArray.eligible_eq_isReplaceable hwr]
    exact he
  · intro k hk hreplaceable hne
    have hk := (h.perm setIndex).mem_iff.1 (List.mem_filter.1 hk).1
    rw [← TagArray.eligible_eq_isReplaceable hwr] at hreplaceable
    exact (TagArray.probe_victim hp hmiss hset hlive k hk hreplaceable).2 hne

/-- **The victims are those of the reference order.**  In every run of a tag array that allocates on
misses, with `m_wr_percent` 0 and increasing times: no probe aborts for want of a victim; an access
that misses allocates an invalid way that is not pinned, if the set has one, and otherwise the first
line of the reference order that is neither pinned nor reserved; and it is refused exactly when the
block is absent and every way is pinned or reserved. -/
theorem replacement_refines_order {cfg : CacheConfig} (hon : cfg.allocPolicy = .onMiss)
    (hwr : cfg.wrPercent = 0) {trace : List (Option AccessResult)} {d : LineDriver cfg}
    (hrun : Runs.Run LineDriver.perform LineDriver.Promise (LineDriver.init cfg) trace d) :
    (∀ addr setIndex mask i idx isWrite, cfg.setIndex addr = .ok setIndex →
      cfg.getSectorIndex mask = .ok i → ∃ p, d.tags.probe addr idx mask isWrite = .ok p) ∧
    ∀ addr time idx mf d' r, d.perform (.access addr time idx mf) = .ok (d', some r) →
      ∃ setIndex, cfg.setIndex addr = .ok setIndex ∧
        (r.status = .miss →
          d'.tags.lines = Function.update d.tags.lines r.idx
            ((d.tags.lines r.idx).allocate (cfg.tag addr) (cfg.blockAddr addr) time
              (cfg.sectorIndex mf.accessSectorMask)) ∧
          ((∃ j ∈ TagArray.waysOf cfg setIndex, d.tags.isFree j = true) →
            r.idx ∈ TagArray.waysOf cfg setIndex ∧ d.tags.isFree r.idx = true) ∧
          ((∀ j ∈ TagArray.waysOf cfg setIndex, d.tags.isFree j = false) →
            ((d.order setIndex).filter fun j => !(d.tags.lines j).isInvalidLine).find?
              d.tags.isReplaceable = some r.idx)) ∧
        (r.status = .reservationFail ↔
          (∀ j ∈ TagArray.waysOf cfg setIndex,
            ¬TagArray.Holds d.tags.lines j (cfg.tag addr)) ∧
          ∀ j ∈ TagArray.waysOf cfg setIndex, d.tags.isReplaceable j = false) := by
  have hordered := LineDriver.ordered_of_run hon hrun
  constructor
  · intro addr setIndex mask i idx isWrite hset hi
    exact TagArray.probe_returns hon hset hi hordered.stamp_lt idx isWrite
  · intro addr time idx mf d' r hperform
    obtain ⟨⟨tags, r'⟩, haccess, hperform⟩ := bind_eq_ok.1 hperform
    cases hperform
    obtain ⟨p, hp, -, hstatus, hidx, -, hlines⟩ := TagArray.access_eq_ok haccess
    obtain ⟨setIndex, hset, hprobed⟩ := TagArray.probed_of_probe hp
    simp only [hstatus, hidx]
    refine ⟨setIndex, hset, fun hmiss => ?_, ?_⟩
    · obtain ⟨hmem, he⟩ := hprobed.miss hmiss
      have hreplaceable := he
      rw [TagArray.eligible_eq_isReplaceable hwr] at hreplaceable
      refine ⟨?_, fun hfree => ⟨hmem, ?_⟩, fun hnone => ?_⟩
      · simpa only [TagArray.touchedLine, hmiss, if_pos hon] using hlines
      · obtain ⟨j, hj, hjfree⟩ := hfree
        have hje := TagArray.isReplaceable_of_isFree hjfree
        rw [← TagArray.eligible_eq_isReplaceable hwr] at hje
        refine Bool.and_eq_true_iff.2 ⟨?_, (Bool.and_eq_true_iff.1 hreplaceable).1⟩
        by_contra hlive
        have hjlive := (TagArray.probe_victim hp hmiss hset (by simpa using hlive) j hj hje).1
        rw [TagArray.isFree, hjlive] at hjfree
        cases hjfree
      · refine hordered.victim hwr hp hmiss hset ?_ hmem he
        have hnot := hnone p.idx hmem
        rw [TagArray.isFree, (Bool.and_eq_true_iff.1 hreplaceable).1, Bool.and_true] at hnot
        exact hnot
    · rw [hprobed.refused_iff]
      simp only [TagArray.eligible_eq_isReplaceable hwr]

/-- Two blocks are fetched into a set of two ways and the first is read again; a third block then
takes the way of the second. -/
theorem replacement_refines_order_lru :
    ∃ trace d, Runs.Run LineDriver.perform LineDriver.Promise
      (LineDriver.init (CacheConfig.small 'N' 'R' 'm' 'N' 2 false)) trace d ∧
      ∃ d' r, d.perform (.access 256 4 0 (MemFetch.load 256)) = .ok (d', some r) ∧
        r.status = .miss ∧ r.idx = 0 ∧
        ((d.order 0).filter fun j => !(d.tags.lines j).isInvalidLine).find?
          d.tags.isReplaceable = some 0 := by
  obtain ⟨trace, d, hrun, hnone, hmiss⟩ :
      ∃ trace d, Runs.Run LineDriver.perform LineDriver.Promise
        (LineDriver.init (CacheConfig.small 'N' 'R' 'm' 'N' 2 false)) trace d ∧
        (∀ j ∈ TagArray.waysOf (CacheConfig.small 'N' 'R' 'm' 'N' 2 false) 0,
          d.tags.isFree j = false) ∧
        ((d.perform (.access 256 4 0 (MemFetch.load 256))).toOption.map fun x =>
          x.2.map fun r => (r.status, r.idx)) = some (some (.miss, 0)) :=
    Runs.exists_run_of_exec [.access 0 1 0 (MemFetch.load 0), .fill 1 (MemFetch.load 0),
      .access 128 2 0 (MemFetch.load 128), .fill 0 (MemFetch.load 128),
      .access 0 3 0 (MemFetch.load 0)] (by decide)
  refine ⟨trace, d, hrun, ?_⟩
  cases hperform : d.perform (.access 256 4 0 (MemFetch.load 256)) with
  | error e =>
      rw [hperform] at hmiss
      cases hmiss
  | ok x =>
      obtain ⟨d', b⟩ := x
      rw [hperform] at hmiss
      obtain ⟨r, rfl, hr⟩ := Option.map_eq_some_iff.1 (Option.some_inj.1 hmiss)
      obtain ⟨hstatus, hidx⟩ := Prod.mk.injEq _ _ _ _ ▸ hr
      obtain ⟨setIndex, hset, hvictim, -⟩ := (replacement_refines_order (by decide) (by decide)
        hrun).2 256 4 0 (MemFetch.load 256) d' r hperform
      obtain rfl : setIndex = 0 := Except.ok.inj (hset.symm.trans (by decide))
      have hfirst := (hvictim hstatus).2.2 hnone
      rw [hidx] at hfirst
      exact ⟨d', r, rfl, hstatus, hidx, hfirst⟩

end OpenCache
