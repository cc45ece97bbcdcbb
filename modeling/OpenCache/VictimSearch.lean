/-
The search for a victim, and the time stamp it starts from.

`probe` looks for the least time stamp of the valid candidates.  The scan starts from the stamp
`(unsigned)-1` and takes a line when its stamp is less, so that a line which was touched, or
allocated, at the time `(unsigned)-1` itself is never taken.  Times are 32-bit numbers, and this is
one of them.  The comment at the `abort()` after the scan says that an unreserved block is either
invalid or replaceable.

* `OpenCache.TagArray.FindsEligible`, `OpenCache.TagArray.Takes` — what the search has found, and
  what it should answer then;
* `OpenCache.TagArray.probe_aborts_iff` — **when the search aborts**, in any state;
* `OpenCache.TagCall`, `OpenCache.TagArray.perform` — a tag array with all its methods, and the
  updates that the caches make to its lines;
* `OpenCache.TagArray.Stamped` — **the invariant**: every stamp is 0 or a time that was passed in;
* `OpenCache.victim_search_iff` — **when the search finds a victim**, in every reachable state;
* `OpenCache.victim_search_aborts` — a line that is eligible, and the search aborts.
-/

import OpenCache.Replacement
import OpenCache.Raises

set_option relaxedAutoImplicit false
set_option autoImplicit false

namespace OpenCache

open Raises

/-- The stamp from which the search starts, `(unsigned)-1`. -/
def sentinel : Time := -1

@[simp] theorem toNat_sentinel : sentinel.toNat = 2 ^ 32 - 1 := by decide

namespace TagArray

variable {cfg : CacheConfig}

/-! ### The outcome of a search -/

/-- The loop of `probe` has passed over every way of the set, and one of them is eligible. -/
structure FindsEligible (ta : TagArray cfg) (addr : NewAddrType) (mask : MemAccessSectorMask)
    (isWrite : Bool) (setIndex : ℕ) : Prop where
  set : cfg.setIndex addr = .ok setIndex
  passed : ∀ j ∈ waysOf cfg setIndex, ta.matchWay (cfg.tag addr) mask isWrite j = .ok none
  found : ∃ j ∈ waysOf cfg setIndex, ta.eligible j = true

/-- A way that the search can take: an invalid one, or one whose stamp is below the sentinel. -/
def Takeable (ta : TagArray cfg) (index : ℕ) : Prop :=
  ta.eligible index = true ∧
    ((ta.lines index).isInvalidLine = true ∨ ta.stamp index ≠ sentinel.toNat)

instance (ta : TagArray cfg) (index : ℕ) : Decidable (ta.Takeable index) := by
  unfold Takeable
  infer_instance

/-- The answer of a search is a candidate: an eligible way of the set, which is an invalid one if
there is one, and has the least stamp otherwise. -/
structure Takes (ta : TagArray cfg) (setIndex : ℕ) (p : ProbeResult) : Prop where
  status : p.status = .miss
  mem : p.idx ∈ waysOf cfg setIndex
  eligible : ta.eligible p.idx = true
  least : (ta.lines p.idx).isInvalidLine = false → ∀ k ∈ waysOf cfg setIndex,
    ta.eligible k = true → (ta.lines k).isInvalidLine = false ∧ ta.stamp p.idx ≤ ta.stamp k

/-- A stamp is a 32-bit number. -/
theorem stamp_le_sentinel (ta : TagArray cfg) (index : ℕ) : ta.stamp index ≤ sentinel.toNat := by
  rw [toNat_sentinel]
  unfold stamp replacementTime
  split <;> omega

/-! ### The scan -/

/-- The stamp of the scan goes below the sentinel with the first valid way that it takes. -/
structure Descending (s : Scan) : Prop where
  le : s.validTimestamp ≤ sentinel.toNat
  lt : ∀ j, s.validLine = some j → s.validTimestamp < sentinel.toNat

theorem Descending.init : Descending Scan.init := ⟨le_refl _, by simp [Scan.init]⟩

theorem Descending.considerVictim {ta : TagArray cfg} {s : Scan} (h : Descending s) (index : ℕ) :
    Descending (ta.considerVictim index s) := by
  unfold TagArray.considerVictim
  dsimp only
  split
  · exact ⟨h.le, h.lt⟩
  · split
    · split
      · exact ⟨h.le, h.lt⟩
      · split
        · next hless =>
            have hlt : replacementTime (ta.lines index) < sentinel.toNat :=
              lt_of_lt_of_le hless h.le
            exact ⟨hlt.le, fun _ _ => hlt⟩
        · exact ⟨h.le, h.lt⟩
    · exact h

/-- The loop goes through all ways exactly when it passes over each of them. -/
theorem scanWays_exhausted_iff {ta : TagArray cfg} {tag : NewAddrType} {mask : MemAccessSectorMask}
    {isWrite : Bool} {ways : List ℕ} {s : Scan} :
    (∃ s', ta.scanWays tag mask isWrite ways s = .ok (.exhausted s')) ↔
      ∀ j ∈ ways, ta.matchWay tag mask isWrite j = .ok none := by
  induction ways generalizing s with
  | nil => exact ⟨fun _ => by simp, fun _ => ⟨s, rfl⟩⟩
  | cons index rest ih =>
      rw [List.forall_mem_cons, ← ih (s := ta.considerVictim index s)]
      constructor
      · rintro ⟨s', h⟩
        rw [scanWays] at h
        obtain ⟨m, hm, h⟩ := bind_eq_ok.1 h
        cases m with
        | some status => cases h
        | none => exact ⟨hm, s', h⟩
      · rintro ⟨hm, s', h⟩
        exact ⟨s', by rw [scanWays, hm]; exact h⟩

theorem descending_of_scanWays {ta : TagArray cfg} {tag : NewAddrType} {mask : MemAccessSectorMask}
    {isWrite : Bool} {ways : List ℕ} {s s' : Scan} (hs : Descending s)
    (h : ta.scanWays tag mask isWrite ways s = .ok (.exhausted s')) : Descending s' := by
  induction ways generalizing s with
  | nil =>
      cases h
      exact hs
  | cons index rest ih =>
      rw [scanWays] at h
      obtain ⟨m, -, h⟩ := bind_eq_ok.1 h
      cases m with
      | some status => cases h
      | none => exact ih (hs.considerVictim index) h

/-- What is known of the local variables of the loop after the last way. -/
structure SearchEnd (ta : TagArray cfg) (setIndex : ℕ) (s : Scan) : Prop where
  inv : ScanInv ta (waysOf cfg setIndex) s
  order : ScanOrder ta (waysOf cfg setIndex) s
  descending : Descending s

theorem searchEnd_of_scanWays {ta : TagArray cfg} {tag : NewAddrType} {mask : MemAccessSectorMask}
    {isWrite : Bool} {setIndex : ℕ} {s : Scan}
    (h : ta.scanWays tag mask isWrite (waysOf cfg setIndex) Scan.init = .ok (.exhausted s)) :
    SearchEnd ta setIndex s where
  inv := by simpa using (scanWays_spec h (ScanInv.init ta)).1
  order := by
    simpa using scanWays_order h (ScanOrder.init ta) (by simpa using waysOf_sorted cfg setIndex)
  descending := descending_of_scanWays Descending.init h

/-- The scan marks an eligible way as soon as it meets one. -/
theorem SearchEnd.allReserved_iff {ta : TagArray cfg} {setIndex : ℕ} {s : Scan}
    (h : SearchEnd ta setIndex s) :
    s.allReserved = false ↔ ∃ j ∈ waysOf cfg setIndex, ta.eligible j = true := by
  refine ⟨h.order.someEligible, ?_⟩
  rintro ⟨j, hj, he⟩
  by_contra hreserved
  rw [h.inv.allReserved (by simpa using hreserved) j hj] at he
  cases he

/-! ### When the search aborts -/

section Search

variable {ta : TagArray cfg} {addr : NewAddrType} {mask : MemAccessSectorMask} {isWrite : Bool}
  {setIndex : ℕ}

/-- The loop of a search that finds an eligible way ends with the last way, and not all are
reserved. -/
theorem FindsEligible.scan (h : ta.FindsEligible addr mask isWrite setIndex) :
    ∃ s, ta.scanWays (cfg.tag addr) mask isWrite (waysOf cfg setIndex) Scan.init =
      .ok (.exhausted s) ∧ s.allReserved = false ∧ SearchEnd ta setIndex s := by
  obtain ⟨s, hs⟩ := scanWays_exhausted_iff.2 h.passed
  have hend := searchEnd_of_scanWays hs
  exact ⟨s, hs, hend.allReserved_iff.2 h.found, hend⟩

/-- A search that can take a way takes one. -/
theorem FindsEligible.takes (h : ta.FindsEligible addr mask isWrite setIndex)
    (htake : ∃ j ∈ waysOf cfg setIndex, ta.Takeable j) (idx : ℕ) :
    ∃ p, ta.probe addr idx mask isWrite = .ok p ∧ ta.Takes setIndex p := by
  obtain ⟨s, hs, hfree, hend⟩ := h.scan
  have hprobe : ∀ index, (s.invalidLine = some index ∨
      s.invalidLine = none ∧ s.validLine = some index) →
      ta.probe addr idx mask isWrite = .ok ⟨.miss, index, .lineAllocFail⟩ := by
    intro index hindex
    refine bind_eq_ok.2 ⟨setIndex, h.set, bind_eq_ok.2 ⟨_, hs, ?_⟩⟩
    rcases hindex with hinvalid | ⟨hinvalid, hvalid⟩
    · simp only [hfree, Bool.false_eq_true, if_false, hinvalid]
      rfl
    · simp only [hfree, Bool.false_eq_true, if_false, hinvalid, hvalid]
      rfl
  cases hinvalid : s.invalidLine with
  | some index =>
      obtain ⟨hmem, he⟩ := hend.inv.invalidLine index hinvalid
      refine ⟨⟨.miss, index, .lineAllocFail⟩, hprobe index (Or.inl hinvalid), rfl, hmem, he, ?_⟩
      intro hlive
      rw [hend.order.invalid index hinvalid] at hlive
      cases hlive
  | none =>
      cases hvalid : s.validLine with
      | some index =>
          obtain ⟨⟨hmem, he, -⟩, -, hfirst⟩ := hend.order.valid index hvalid
          refine ⟨⟨.miss, index, .lineAllocFail⟩, hprobe index (Or.inr ⟨hinvalid, hvalid⟩), rfl,
            hmem, he, fun _ k hk hek => ?_⟩
          have hklive := hend.order.noInvalid hinvalid k hk hek
          refine ⟨hklive, ?_⟩
          by_cases hkj : k = index
          · exact (congrArg ta.stamp hkj).ge
          · rcases hfirst k hk ⟨hek, hklive⟩ hkj with hold | ⟨hold, -⟩
            · exact hold.le
            · exact hold.le
      | none =>
          -- every eligible way is valid and has at least the stamp of the sentinel
          exfalso
          obtain ⟨j, hj, he, hcase⟩ := htake
          have hlive := hend.order.noInvalid hinvalid j hj he
          have hlate := (hend.order.noValid hvalid).2 j hj ⟨he, hlive⟩
          rw [hlive] at hcase
          exact hcase.resolve_left (by simp) (le_antisymm (ta.stamp_le_sentinel j) hlate)

/-- A search that can take no way aborts. -/
theorem FindsEligible.aborts (h : ta.FindsEligible addr mask isWrite setIndex)
    (hnone : ¬∃ j ∈ waysOf cfg setIndex, ta.Takeable j) (idx : ℕ) :
    ta.probe addr idx mask isWrite = .error .probeNoCandidate := by
  obtain ⟨s, hs, hfree, hend⟩ := h.scan
  have hinvalid : s.invalidLine = none := by
    by_contra hsome
    obtain ⟨j, hj⟩ := Option.ne_none_iff_exists'.1 hsome
    obtain ⟨hmem, he⟩ := hend.inv.invalidLine j hj
    exact hnone ⟨j, hmem, he, Or.inl (hend.order.invalid j hj)⟩
  have hvalid : s.validLine = none := by
    by_contra hsome
    obtain ⟨j, hj⟩ := Option.ne_none_iff_exists'.1 hsome
    obtain ⟨⟨hmem, he, -⟩, hstamp, -⟩ := hend.order.valid j hj
    have hlt := hend.descending.lt j hj
    rw [hstamp] at hlt
    exact hnone ⟨j, hmem, he, Or.inr hlt.ne⟩
  refine bind_eq_error.2 (Or.inr ⟨setIndex, h.set, bind_eq_error.2 (Or.inr ⟨_, hs, ?_⟩)⟩)
  simp only [hfree, Bool.false_eq_true, if_false, hinvalid, hvalid]

/-- **When a search that finds an eligible way answers with a candidate.** -/
theorem FindsEligible.takes_iff (h : ta.FindsEligible addr mask isWrite setIndex) (idx : ℕ) :
    (∃ p, ta.probe addr idx mask isWrite = .ok p ∧ ta.Takes setIndex p) ↔
      ∃ j ∈ waysOf cfg setIndex, ta.Takeable j := by
  refine ⟨?_, fun htake => h.takes htake idx⟩
  rintro ⟨p, hp, -⟩
  by_contra hnone
  rw [h.aborts hnone idx] at hp
  cases hp

/-- The assertions that are not the `abort()` of the search. -/
def OtherAbort (e : Abort) : Prop := e ≠ .probeNoCandidate

theorem getSectorIndex_other (cfg : CacheConfig) (mask : MemAccessSectorMask) :
    Only OtherAbort (cfg.getSectorIndex mask) := by
  unfold CacheConfig.getSectorIndex
  split
  · exact .ok _
  · exact .ite (fun _ => .ok _) fun _ => .error (by simp [OtherAbort])

theorem assertThat_other {p : Prop} [Decidable p] {a : Abort} (h : OtherAbort a) :
    Only OtherAbort (assertThat p a) := by
  unfold assertThat
  exact .ite (fun _ => .ok _) fun _ => .error h

theorem setIndex_other (cfg : CacheConfig) (addr : NewAddrType) :
    Only OtherAbort (cfg.setIndex addr) := by
  refine .bind ?_ fun i _ => .bind (assertThat_other (by simp [OtherAbort])) fun _ _ => .ok _
  unfold CacheConfig.hashIndex
  dsimp only
  split
  · exact .ite (fun _ => .ok _) fun _ => .error (by simp [OtherAbort])
  all_goals exact .ok _

theorem scanWays_other (ta : TagArray cfg) (tag : NewAddrType) (mask : MemAccessSectorMask)
    (isWrite : Bool) (ways : List ℕ) (s : Scan) :
    Only OtherAbort (ta.scanWays tag mask isWrite ways s) := by
  induction ways generalizing s with
  | nil => exact .ok _
  | cons index rest ih =>
      refine .bind ?_ fun m _ => ?_
      · unfold matchWay
        exact .ite (fun _ => .bind (getSectorIndex_other cfg mask) fun _ _ => .ok _) fun _ => .ok _
      · cases m with
        | none => exact ih _
        | some status => exact .ok _

/-- A probe reaches the `abort()` of the search only when it has found an eligible way. -/
theorem findsEligible_of_aborts {idx : ℕ}
    (h : ta.probe addr idx mask isWrite = .error .probeNoCandidate) :
    ∃ setIndex, ta.FindsEligible addr mask isWrite setIndex := by
  rcases bind_eq_error.1 h with h | ⟨setIndex, hset, h⟩
  · exact absurd rfl (setIndex_other cfg addr _ h)
  rcases bind_eq_error.1 h with h | ⟨r, hr, h⟩
  · exact absurd rfl (scanWays_other ta _ mask isWrite _ _ _ h)
  cases r with
  | found status index => cases h
  | exhausted s =>
      refine ⟨setIndex, hset, scanWays_exhausted_iff.1 ⟨s, hr⟩,
        (searchEnd_of_scanWays hr).allReserved_iff.1 ?_⟩
      -- a search in which all ways are reserved ends before the `abort()`
      by_contra hreserved
      simp only [if_pos (Bool.of_not_eq_false hreserved)] at h
      rcases bind_eq_error.1 h with h | ⟨_, -, h⟩
      · exact absurd rfl (assertThat_other (by simp [OtherAbort]) _ h)
      · cases h

/-- **When a probe aborts**: it finds an eligible way, and can take none. -/
theorem probe_aborts_iff {idx : ℕ} : ta.probe addr idx mask isWrite = .error .probeNoCandidate ↔
    ∃ setIndex, ta.FindsEligible addr mask isWrite setIndex ∧
      ¬∃ j ∈ waysOf cfg setIndex, ta.Takeable j := by
  constructor
  · intro h
    obtain ⟨setIndex, hfinds⟩ := findsEligible_of_aborts h
    refine ⟨setIndex, hfinds, fun htake => ?_⟩
    obtain ⟨p, hp, -⟩ := hfinds.takes htake idx
    rw [h] at hp
    cases hp
  · rintro ⟨setIndex, hfinds, hnone⟩
    exact hfinds.aborts hnone idx

end Search

/-! ### The times of a line -/

/-- The times of `b'` are those of `b`, but for those that are `time`. -/
structure Retimed {k : CacheType} (time : Option Time) (b b' : CacheBlock k) : Prop where
  alloc : b'.allocTime = b.allocTime ∨ some b'.allocTime = time
  lastAccess : b'.lastAccessTime = b.lastAccessTime ∨ some b'.lastAccessTime = time

namespace Retimed

variable {k : CacheType} {time : Option Time} {b b' b'' : CacheBlock k}

theorem refl (time : Option Time) (b : CacheBlock k) : Retimed time b b :=
  ⟨Or.inl rfl, Or.inl rfl⟩

/-- An update that leaves both times alone. -/
theorem of_eq (halloc : b'.allocTime = b.allocTime)
    (haccess : b'.lastAccessTime = b.lastAccessTime) : Retimed time b b' :=
  ⟨Or.inl halloc, Or.inl haccess⟩

theorem trans (h : Retimed time b b') (h' : Retimed time b' b'') : Retimed time b b'' where
  alloc := by
    rcases h'.alloc with halloc | halloc
    · rw [halloc]
      exact h.alloc
    · exact Or.inr halloc
  lastAccess := by
    rcases h'.lastAccess with haccess | haccess
    · rw [haccess]
      exact h.lastAccess
    · exact Or.inr haccess

theorem allocate (b : CacheBlock k) (tag blockAddr : NewAddrType) (time : Time) (i : Fin 4) :
    Retimed (some time) b (b.allocate tag blockAddr time i) := by
  rcases b with ⟨_, _, _, _, _, _, _, _, ⟨s⟩ | ⟨s⟩⟩ <;> exact ⟨Or.inr rfl, Or.inr rfl⟩

theorem fill (b : CacheBlock k) (i : Fin 4) (byteMask : MemAccessByteMask) :
    Retimed time b (b.fill i byteMask) := by
  unfold CacheBlock.fill
  dsimp only
  split <;> exact of_eq rfl rfl

/-- A line that an access has found or taken. -/
theorem touchedLine (addr : NewAddrType) (time : Time) (i : Fin 4) (status : CacheRequestStatus)
    (b : CacheBlock cfg.cacheType) :
    Retimed (some time) b (TagArray.touchedLine cfg addr time i status b) := by
  unfold TagArray.touchedLine
  cases status with
  | hit => exact ⟨Or.inl rfl, Or.inr rfl⟩
  | hitReserved => exact ⟨Or.inl rfl, Or.inr rfl⟩
  | miss =>
      dsimp only
      split
      · exact allocate b _ _ time i
      · exact refl _ b
  | reservationFail => exact refl _ b
  | sectorMiss =>
      dsimp only
      split
      · exact ⟨Or.inl rfl, Or.inr rfl⟩
      · exact refl _ b
  | mshrHit => exact refl _ b

/-- A line that a fill by address has found or taken. -/
theorem fillTarget (addr : NewAddrType) (time : Time) (i : Fin 4) (status : CacheRequestStatus)
    (b : CacheBlock cfg.cacheType) :
    Retimed (some time) b (TagArray.fillTarget cfg addr time i status b) := by
  unfold TagArray.fillTarget
  cases status with
  | miss => exact allocate b _ _ time i
  | sectorMiss => exact ⟨Or.inl rfl, Or.inr rfl⟩
  | hit => exact refl _ b
  | hitReserved => exact refl _ b
  | reservationFail => exact refl _ b
  | mshrHit => exact refl _ b

theorem invalidateLine (b : CacheBlock cfg.cacheType) :
    Retimed time b (TagArray.invalidateLine b) := by
  unfold TagArray.invalidateLine
  induction List.finRange 4 generalizing b with
  | nil => exact refl _ b
  | cons i rest ih =>
      have hset : Retimed time b (b.setStatus .invalid i) := of_eq rfl rfl
      exact hset.trans (ih _)

/-- The stamp of a line is one of its times. -/
theorem replacementTime {b b' : CacheBlock cfg.cacheType} (h : Retimed time b b') :
    TagArray.replacementTime b' = TagArray.replacementTime b ∨
      ∃ t, time = some t ∧ TagArray.replacementTime b' = t.toNat := by
  unfold TagArray.replacementTime
  cases cfg.replacementPolicy with
  | lru => exact h.lastAccess.imp (congrArg BitVec.toNat) fun ht => ⟨_, ht.symm, rfl⟩
  | fifo => exact h.alloc.imp (congrArg BitVec.toNat) fun ht => ⟨_, ht.symm, rfl⟩

end Retimed

end TagArray

/-! ### A tag array with all its methods -/

/-- The updates that the caches make to a line that they get from `get_block`. -/
inductive BlockUpdate
  | setStatus (status : CacheBlockState) (i : Fin 4)
  | setIgnoreOnFill (ignore : Bool) (i : Fin 4)
  | setModifiedOnFill (modified : Bool) (i : Fin 4)
  | setReadableOnFill (readable : Bool) (i : Fin 4)
  | setMReadable (readable : Bool) (i : Fin 4)
  | setByteMaskOnFill (modified : Bool)
  | setByteMask (byteMask : MemAccessByteMask)
  | pin
  | unpin

/-- The line after an update. -/
def BlockUpdate.apply {k : CacheType} (b : CacheBlock k) : BlockUpdate → Step (CacheBlock k)
  | .setStatus status i => return b.setStatus status i
  | .setIgnoreOnFill ignore i => return b.setIgnoreOnFill ignore i
  | .setModifiedOnFill modified i => return b.setModifiedOnFill modified i
  | .setReadableOnFill readable i => return b.setReadableOnFill readable i
  | .setMReadable readable i => return b.setMReadable readable i
  | .setByteMaskOnFill modified => return b.putByteMaskOnFill modified
  | .setByteMask byteMask => return b.setByteMask byteMask
  | .pin => return b.pin
  | .unpin => b.unpin

/-- No update of a line changes its times. -/
theorem BlockUpdate.retimed {k : CacheType} {time : Option Time} {b b' : CacheBlock k}
    {u : BlockUpdate} (h : u.apply b = .ok b') : TagArray.Retimed time b b' := by
  cases u with
  | unpin =>
      obtain ⟨_, -, h⟩ := bind_eq_ok.1 h
      cases h
      exact .of_eq rfl rfl
  | _ =>
      cases h
      exact .of_eq rfl rfl

/-- The calls of a tag array.  A call comes with the value that the caller has left in `idx`. -/
inductive TagCall
  | probe (addr : NewAddrType) (idx : ℕ) (mask : MemAccessSectorMask) (isWrite : Bool)
  | access (addr : NewAddrType) (time : Time) (idx : ℕ) (mf : MemFetch)
  | fill (addr : NewAddrType) (time : Time) (mask : MemAccessSectorMask)
      (byteMask : MemAccessByteMask) (isWrite : Bool)
  | fillIndex (index : ℕ) (mf : MemFetch)
  | update (index : ℕ) (u : BlockUpdate)
  | incDirty
  | flush
  | invalidate

namespace TagArray

variable {cfg : CacheConfig}

/-- One call, and the time that comes with it.  The fill by index gets a time too, but leaves the
times by which lines are replaced alone. -/
def perform (ta : TagArray cfg) : TagCall → Step (TagArray cfg × Option Time)
  | .probe addr idx mask isWrite => do
      let p ← ta.probe addr idx mask isWrite
      return ({ ta with lastFailReason := p.failReason }, none)
  | .access addr time idx mf => do
      let (ta, _) ← ta.access addr time idx mf
      return (ta, some time)
  | .fill addr time mask byteMask isWrite => do
      let ta ← ta.fillAddr addr time mask byteMask isWrite
      return (ta, some time)
  | .fillIndex index mf => do
      let ta ← ta.fillIndex index mf
      return (ta, none)
  | .update index u => do
      let b ← u.apply (ta.lines index)
      return (ta.setLine index b, none)
  | .incDirty => return (ta.incDirty, none)
  | .flush => return (ta.flush, none)
  | .invalidate => return (ta.invalidate, none)

/-- Every stamp is the 0 of the constructors, or a time that has come with a call. -/
def Stamped (times : List (Option Time)) (ta : TagArray cfg) : Prop :=
  ∀ j, ta.stamp j = 0 ∨ ∃ t, some t ∈ times ∧ ta.stamp j = t.toNat

namespace Stamped

variable {times : List (Option Time)} {ta ta' : TagArray cfg}

theorem init (cfg : CacheConfig) : Stamped [] (TagArray.init cfg) := by
  intro j
  refine Or.inl ?_
  unfold stamp replacementTime
  cases cfg.replacementPolicy <;> rfl

/-- A call that gives the lines no other times than its own. -/
theorem of_lines (h : Stamped times ta) {time : Option Time}
    (hlines : ∀ j, Retimed time (ta.lines j) (ta'.lines j)) : Stamped (times ++ [time]) ta' := by
  intro j
  have hold : ta.stamp j = 0 ∨ ∃ t, some t ∈ times ++ [time] ∧ ta.stamp j = t.toNat :=
    (h j).imp_right fun ⟨t, ht, hj⟩ => ⟨t, List.mem_append_left _ ht, hj⟩
  rcases (hlines j).replacementTime with hsame | ⟨t, rfl, ht⟩
  · rw [stamp, hsame]
    exact hold
  · exact Or.inr ⟨t, by simp, ht⟩

/-- A call that replaces one line. -/
theorem of_update (h : Stamped times ta) {time : Option Time} {index : ℕ}
    {b : CacheBlock cfg.cacheType} (hlines : ta'.lines = Function.update ta.lines index b)
    (hb : Retimed time (ta.lines index) b) : Stamped (times ++ [time]) ta' := by
  refine h.of_lines fun j => ?_
  rw [hlines]
  by_cases hj : j = index
  · subst hj
    rwa [Function.update_self]
  · rw [Function.update_of_ne hj]
    exact .refl _ _

/-- **Every call keeps the stamps among the times of the calls.** -/
theorem step (h : Stamped times ta) {call : TagCall} {time : Option Time}
    (hperform : ta.perform call = .ok (ta', time)) : Stamped (times ++ [time]) ta' := by
  cases call with
  | probe addr idx mask isWrite =>
      obtain ⟨p, -, hperform⟩ := bind_eq_ok.1 hperform
      cases hperform
      exact h.of_lines fun _ => .refl _ _
  | access addr t idx mf =>
      obtain ⟨⟨ta'', r⟩, haccess, hperform⟩ := bind_eq_ok.1 hperform
      cases hperform
      obtain ⟨p, -, -, -, -, -, hlines⟩ := access_eq_ok haccess
      exact h.of_update hlines (.touchedLine _ _ _ _ _)
  | fill addr t mask byteMask isWrite =>
      obtain ⟨ta'', hfill, hperform⟩ := bind_eq_ok.1 hperform
      cases hperform
      obtain ⟨p, -, ⟨-, hlines⟩ | ⟨-, -, hlines⟩⟩ := fillAddr_eq_ok hfill
      · refine h.of_lines fun j => ?_
        rw [hlines]
        exact .refl _ _
      · exact h.of_update hlines ((Retimed.fillTarget _ _ _ _ _).trans (.fill _ _ _))
  | fillIndex index mf =>
      obtain ⟨ta'', hfill, hperform⟩ := bind_eq_ok.1 hperform
      cases hperform
      exact h.of_update (fillIndex_eq_ok hfill).2 (.fill _ _ _)
  | update index u =>
      obtain ⟨b, hb, hperform⟩ := bind_eq_ok.1 hperform
      cases hperform
      exact h.of_update rfl (BlockUpdate.retimed hb)
  | incDirty =>
      cases hperform
      exact h.of_lines fun _ => .refl _ _
  | flush =>
      cases hperform
      refine h.of_lines fun j => ?_
      unfold flush
      split
      · dsimp only
        split
        · exact .invalidateLine _
        · exact .refl _ _
      · exact .refl _ _
  | invalidate =>
      cases hperform
      refine h.of_lines fun j => ?_
      unfold invalidate
      dsimp only
      split
      · exact .invalidateLine _
      · exact .refl _ _

end Stamped

/-- The calls come at any times, in any order. -/
abbrev Reaches (cfg : CacheConfig) : List (Option Time) → TagArray cfg → Prop :=
  Runs.Run perform (fun _ _ => True) (init cfg)

/-- **In every run the stamps are among the times of the calls.** -/
theorem stamped_of_run {times : List (Option Time)} {ta : TagArray cfg}
    (h : Reaches cfg times ta) : Stamped times ta :=
  h.invariant Stamped (Stamped.init cfg) fun _ _ _ _ _ hstamped _ hperform =>
    hstamped.step hperform

/-- A line that carries a time below the sentinel, or no time at all, can be taken. -/
theorem Stamped.stamp_ne {times : List (Option Time)} {ta : TagArray cfg} (h : Stamped times ta)
    (htimes : some sentinel ∉ times) (j : ℕ) : ta.stamp j ≠ sentinel.toNat := by
  rcases h j with hzero | ⟨t, ht, hj⟩
  · rw [hzero]
    decide
  · rw [hj]
    intro hlast
    obtain rfl := BitVec.eq_of_toNat_eq hlast
    exact htimes ht

theorem FindsEligible.takeable {ta : TagArray cfg} {addr : NewAddrType}
    {mask : MemAccessSectorMask} {isWrite : Bool} {setIndex : ℕ}
    (h : ta.FindsEligible addr mask isWrite setIndex) (hstamp : ∀ j, ta.stamp j ≠ sentinel.toNat) :
    ∃ j ∈ waysOf cfg setIndex, ta.Takeable j := by
  obtain ⟨j, hj, he⟩ := h.found
  exact ⟨j, hj, he, Or.inr (hstamp j)⟩

/-! ### No call aborts in the search -/

/-- A tag array in which no probe aborts for want of a candidate. -/
def Searches (ta : TagArray cfg) : Prop :=
  ∀ addr idx mask isWrite, Only OtherAbort (ta.probe addr idx mask isWrite)

theorem searches_of_stamp {ta : TagArray cfg} (hstamp : ∀ j, ta.stamp j ≠ sentinel.toNat) :
    ta.Searches := by
  rintro addr idx mask isWrite e h rfl
  obtain ⟨setIndex, hfinds, hnone⟩ := probe_aborts_iff.1 h
  exact hnone (hfinds.takeable hstamp)

theorem allocateSector_other {k : CacheType} (b : CacheBlock k) (time : Time) (i : Fin 4) :
    Only OtherAbort (b.allocateSector time i) :=
  .bind (assertThat_other (by simp [OtherAbort])) fun _ _ => .ok _

namespace Searches

variable {ta : TagArray cfg} (h : ta.Searches)

include h

theorem access (addr : NewAddrType) (time : Time) (idx : ℕ) (mf : MemFetch) :
    Only OtherAbort (ta.access addr time idx mf) := by
  have hprobe : ({ ta with accesses := ta.accesses + 1, isUsed := true } : TagArray cfg).probe addr
      idx mf.accessSectorMask mf.isWrite = ta.probe addr idx mf.accessSectorMask mf.isWrite := by
    refine probe_congr ?_ ?_ _ _ _ _ <;> rfl
  refine .bind (by rw [hprobe]; exact h _ _ _ _) fun p _ => ?_
  cases hs : p.status with
  | hit => exact .ok _
  | hitReserved => exact .ok _
  | miss =>
      refine .ite (fun _ => .bind (getSectorIndex_other cfg _) fun i _ => ?_) fun _ => .ok _
      exact .ite (fun _ => .ok _) fun _ => .ok _
  | reservationFail => exact .ok _
  | sectorMiss =>
      refine .bind (assertThat_other (by simp [OtherAbort])) fun _ _ => ?_
      exact .ite (fun _ => .bind (getSectorIndex_other cfg _) fun i _ =>
        .bind (allocateSector_other _ _ _) fun _ _ => .ok _) fun _ => .ok _
  | mshrHit => exact .error (by simp [OtherAbort])

theorem fillAddr (addr : NewAddrType) (time : Time) (mask : MemAccessSectorMask)
    (byteMask : MemAccessByteMask) (isWrite : Bool) :
    Only OtherAbort (ta.fillAddr addr time mask byteMask isWrite) := by
  refine .bind (h _ _ _ _) fun p _ => .ite (fun _ => .ok _) fun _ =>
    .bind (getSectorIndex_other cfg _) fun i _ => .bind ?_ fun _ _ => .ok _
  unfold allocateForFill
  refine .ite (fun _ => .ok _) fun _ => .ite (fun _ => ?_) fun _ => .ok _
  exact .bind (assertThat_other (by simp [OtherAbort])) fun _ _ => allocateSector_other _ _ _

theorem perform (call : TagCall) : Only OtherAbort (ta.perform call) := by
  cases call with
  | probe addr idx mask isWrite => exact .bind (h _ _ _ _) fun _ _ => .ok _
  | access addr time idx mf => exact .bind (h.access _ _ _ _) fun _ _ => .ok _
  | fill addr time mask byteMask isWrite => exact .bind (h.fillAddr _ _ _ _ _) fun _ _ => .ok _
  | fillIndex index mf =>
      refine .bind (.bind (assertThat_other (by simp [OtherAbort])) fun _ _ =>
        .bind (getSectorIndex_other cfg _) fun _ _ => .ok _) fun _ _ => .ok _
  | update index u =>
      refine .bind ?_ fun _ _ => .ok _
      cases u with
      | unpin => exact .bind (assertThat_other (by simp [OtherAbort])) fun _ _ => .ok _
      | _ => exact .ok _
  | incDirty => exact .ok _
  | flush => exact .ok _
  | invalidate => exact .ok _

end Searches

end TagArray

/-! ### When the search finds a victim -/

/-- **When the search finds a victim.**  In every reachable state of a tag array of any
configuration, whose calls come at any times in any order: a probe that finds an eligible way
answers with a candidate exactly when some eligible way is invalid, or carries a time below the
sentinel.  As long as no call has come at the time of the sentinel, it always does, and no call
aborts in the search. -/
theorem victim_search_iff {cfg : CacheConfig} {times : List (Option Time)} {ta : TagArray cfg}
    (hrun : TagArray.Reaches cfg times ta) :
    (∀ addr idx mask isWrite setIndex, ta.FindsEligible addr mask isWrite setIndex →
      ((∃ p, ta.probe addr idx mask isWrite = .ok p ∧ ta.Takes setIndex p) ↔
        ∃ j ∈ TagArray.waysOf cfg setIndex, ta.Takeable j)) ∧
    (some sentinel ∉ times →
      (∀ addr idx mask isWrite setIndex, ta.FindsEligible addr mask isWrite setIndex →
        ∃ p, ta.probe addr idx mask isWrite = .ok p ∧ ta.Takes setIndex p) ∧
      ∀ call, ta.perform call ≠ .error .probeNoCandidate) := by
  refine ⟨fun addr idx mask isWrite setIndex hfinds => hfinds.takes_iff idx, fun htimes => ?_⟩
  have hstamp := (TagArray.stamped_of_run hrun).stamp_ne htimes
  refine ⟨fun addr idx mask isWrite setIndex hfinds => hfinds.takes (hfinds.takeable hstamp) idx,
    fun call h => ?_⟩
  exact (TagArray.searches_of_stamp hstamp).perform call _ h rfl

/-- Two blocks are fetched into a set of two ways, the first before the clock wraps around and the
second after that; a third block then takes the way of the second. -/
theorem victim_search_iff_wrapped : ∃ times ta,
    TagArray.Reaches (CacheConfig.small 'N' 'R' 'm' 'N' 2 false) times ta ∧
      some sentinel ∉ times ∧ ta.FindsEligible 256 {0} false 0 ∧
      (∃ j ∈ TagArray.waysOf (CacheConfig.small 'N' 'R' 'm' 'N' 2 false) 0, ta.Takeable j) ∧
      (∃ p, ta.probe 256 0 {0} false = .ok p ∧ ta.Takes 0 p) ∧
      ta.perform (.access 256 6 0 (MemFetch.load 256)) ≠ .error .probeNoCandidate := by
  obtain ⟨times, ta, hrun, htimes, hpassed, hfound⟩ :
      ∃ times ta, TagArray.Reaches (CacheConfig.small 'N' 'R' 'm' 'N' 2 false) times ta ∧
        some sentinel ∉ times ∧
        (∀ j ∈ TagArray.waysOf (CacheConfig.small 'N' 'R' 'm' 'N' 2 false) 0,
          ta.matchWay 256 {0} false j = .ok none) ∧
        ∃ j ∈ TagArray.waysOf (CacheConfig.small 'N' 'R' 'm' 'N' 2 false) 0, ta.eligible j = true :=
    Runs.exists_run_of_exec [.access 0 (-2) 0 (MemFetch.load 0), .fillIndex 1 (MemFetch.load 0),
      .access 128 5 0 (MemFetch.load 128), .fillIndex 0 (MemFetch.load 128)] (by decide)
  have hfinds : ta.FindsEligible 256 {0} false 0 := ⟨by decide, hpassed, hfound⟩
  have htakes := ((victim_search_iff hrun).2 htimes).1 256 0 {0} false 0 hfinds
  exact ⟨times, ta, hrun, htimes, hfinds,
    ((victim_search_iff hrun).1 256 0 {0} false 0 hfinds).1 htakes, htakes,
    ((victim_search_iff hrun).2 htimes).2 _⟩

/-- One line, touched at the time of the sentinel and filled, and a miss: the line is eligible, and
the search aborts. -/
theorem victim_search_aborts : ∃ times ta,
    TagArray.Reaches (CacheConfig.small 'N' 'R' 'm' 'N' 1 false) times ta ∧
      ta.FindsEligible 128 {0} false 0 ∧
      ¬(∃ p, ta.probe 128 0 {0} false = .ok p ∧ ta.Takes 0 p) ∧
      ta.perform (.access 128 7 0 (MemFetch.load 128)) = .error .probeNoCandidate := by
  obtain ⟨times, ta, hrun, hpassed, hfound, hnone, haborts⟩ :
      ∃ times ta, TagArray.Reaches (CacheConfig.small 'N' 'R' 'm' 'N' 1 false) times ta ∧
        (∀ j ∈ TagArray.waysOf (CacheConfig.small 'N' 'R' 'm' 'N' 1 false) 0,
          ta.matchWay 128 {0} false j = .ok none) ∧
        (∃ j ∈ TagArray.waysOf (CacheConfig.small 'N' 'R' 'm' 'N' 1 false) 0,
          ta.eligible j = true) ∧
        (¬∃ j ∈ TagArray.waysOf (CacheConfig.small 'N' 'R' 'm' 'N' 1 false) 0, ta.Takeable j) ∧
        Runs.failure (ta.perform (.access 128 7 0 (MemFetch.load 128))) = some .probeNoCandidate :=
    Runs.exists_run_of_exec [.access 0 sentinel 0 (MemFetch.load 0),
      .fillIndex 0 (MemFetch.load 0)] (by decide)
  have hfinds : ta.FindsEligible 128 {0} false 0 := ⟨by decide, hpassed, hfound⟩
  exact ⟨times, ta, hrun, hfinds, fun htakes => hnone ((hfinds.takes_iff 0).1 htakes),
    Runs.failure_eq_some.1 haborts⟩

end OpenCache
