/-
Which assertions each method can fail on.

Most assertions are about the configuration and the requests.  Four groups of them are about the
state: the reference counts, the choice of a victim, the MSHR table, and the requests that wait for
a fill.  The lemmas of this module walk through the methods and say which of these groups each of
them can reach; the other modules show that the groups are never reached.

* `OpenCache.Abort.Concern` — the four groups;
* `OpenCache.Cache.access_only` — an access reaches the victim assertion in its first probe only,
  and the table assertions in `mshr_table::add` only;
* `OpenCache.Cache.fill_only`, `OpenCache.Cache.nextAccess_only`, `OpenCache.Cache.cycle_only` — the
  other methods.
-/

import OpenCache.Cases
import OpenCache.Raises

set_option relaxedAutoImplicit false
set_option autoImplicit false

namespace OpenCache

open Raises

/-- The groups of assertions that are about the state of a cache. -/
inductive Abort.Concern
  | pins
  | victim
  | table
  | fill
  deriving DecidableEq, Repr

/-- The group an assertion belongs to, if it is about the state. -/
def Abort.concern : Abort → Option Abort.Concern
  | .unpinZero => some .pins
  | .probeAllReserved => some .victim
  | .mshrAddEntries | .mshrAddMerged | .markReadyNoEntry | .markReadySize
  | .mshrNextAccessNotReady | .nextAccessEmptyList => some .table
  | .fillNoOriginal | .fillNotWaiting | .fillNotValid | .fillPolicy => some .fill
  | _ => none

/-- The `assert(0)` branches that follow the checks of the miss queue and the table. -/
def Abort.afterChecks : Abort → Bool
  | .sendReadRequestUnreachable | .wrMissWaNaiveUnreachable
  | .wrMissWaFetchOnWriteUnreachable => true
  | _ => false

/-- The assertions of `tex_cache` and its FIFOs. -/
def Abort.ofTexture : Abort → Bool
  | .fifoPushFull | .fifoPopEmpty | .fifoPeekIndex | .fifoPeekUnwritten | .texAccessDataSize
  | .texAccessReservationFail | .texAccessHitReserved | .texCycleRobRequest | .texCycleRobIndex
  | .texCycleHitInvalid | .texCycleHitBlock | .texFillNoOriginal | .texFillNotWaiting
  | .texFillNotValid | .texFillRobEmpty | .texFillReady | .texFillBlock => true
  | _ => false

/-- The assertions about the configuration and the requests. -/
def Abort.ofInput (e : Abort) : Bool := e.concern.isNone && !e.afterChecks && !e.ofTexture

theorem Abort.concern_of_ofInput {e : Abort} (h : e.ofInput = true) : e.concern = none :=
  Option.isNone_iff_eq_none.1 (Bool.and_eq_true_iff.1 (Bool.and_eq_true_iff.1 h).1).1

variable {P : Abort → Prop} {cfg : CacheConfig}

/-- The assertions about the configuration and the requests, but for the one against a `SECTOR_MISS`
in a `NORMAL` cache. -/
def Abort.plain (e : Abort) : Bool := e.ofInput && decide (e ≠ .sectorMissInNormal)

theorem Abort.ofInput_of_plain {e : Abort} (h : e.plain = true) : e.ofInput = true :=
  (Bool.and_eq_true_iff.1 h).1

/-- The tags answer `SECTOR_MISS` in a sector cache only, or the assertion against it is allowed. -/
def SectorMissAllowed (P : Abort → Prop) (cfg : CacheConfig) (status : CacheRequestStatus) : Prop :=
  status = .sectorMiss → cfg.cacheType = .sector ∨ P .sectorMissInNormal

theorem SectorMissAllowed.of (h : P .sectorMissInNormal) (status : CacheRequestStatus) :
    SectorMissAllowed P cfg status :=
  fun _ => Or.inr h

/-- The assertion against a `SECTOR_MISS`, where it is allowed. -/
theorem SectorMissAllowed.assert_only {status : CacheRequestStatus}
    (h : SectorMissAllowed P cfg status) (hs : status = .sectorMiss) :
    cfg.cacheType ≠ .sector → P .sectorMissInNormal :=
  fun hne => (h hs).resolve_left hne

theorem assertThat_only {p : Prop} [Decidable p] {a : Abort} (h : ¬p → P a) :
    Only P (assertThat p a) := by
  unfold assertThat
  exact .ite (fun _ => .ok _) fun hp => .error (h hp)

/-! ### The MSHR table -/

namespace MshrTable

variable {numEntries maxMerged : ℕ} (htable : ∀ e : Abort, e.concern = some .table → P e)

include htable

theorem add_only (t : MshrTable numEntries maxMerged) (a : NewAddrType) (mf : Token) :
    Only P (t.add a mf) :=
  .bind (assertThat_only fun _ => htable _ rfl) fun _ _ =>
    .bind (assertThat_only fun _ => htable _ rfl) fun _ _ => .ok _

theorem markReady_only (t : MshrTable numEntries maxMerged) (a : NewAddrType) :
    Only P (t.markReady a) :=
  .bind (assertThat_only fun _ => htable _ rfl) fun _ _ =>
    .bind (assertThat_only fun _ => htable _ rfl) fun _ _ => .ok _

theorem nextAccess_only (t : MshrTable numEntries maxMerged) : Only P t.nextAccess := by
  unfold nextAccess
  split
  · exact .error (htable _ rfl)
  · split
    · exact .error (htable _ rfl)
    · exact .ite (fun _ => .ok _) fun _ => .ok _

end MshrTable

/-! ### The tags -/

section Tags

variable (hP : ∀ e : Abort, e.plain = true → P e)

include hP

theorem CacheConfig.getSectorIndex_only (mask : MemAccessSectorMask) :
    Only P (cfg.getSectorIndex mask) := by
  unfold CacheConfig.getSectorIndex
  split
  · exact .ok _
  · exact .ite (fun _ => .ok _) fun _ => .error (hP _ rfl)

theorem CacheConfig.setIndex_only (addr : NewAddrType) : Only P (cfg.setIndex addr) := by
  refine .bind ?_ fun i _ => .bind (assertThat_only fun _ => hP _ rfl) fun _ _ => .ok _
  unfold CacheConfig.hashIndex
  dsimp only
  split
  · exact .ite (fun _ => .ok _) fun _ => .error (hP _ rfl)
  all_goals exact .ok _

namespace TagArray

theorem matchWay_only (ta : TagArray cfg) (tag : NewAddrType) (mask : MemAccessSectorMask)
    (isWrite : Bool) (index : ℕ) : Only P (ta.matchWay tag mask isWrite index) := by
  unfold matchWay
  exact .ite (fun _ => .bind (CacheConfig.getSectorIndex_only hP mask) fun _ _ => .ok _)
    fun _ => .ok _

theorem scanWays_only (ta : TagArray cfg) (tag : NewAddrType) (mask : MemAccessSectorMask)
    (isWrite : Bool) (ways : List ℕ) (s : Scan) :
    Only P (ta.scanWays tag mask isWrite ways s) := by
  induction ways generalizing s with
  | nil => exact .ok _
  | cons index rest ih =>
      refine .bind (matchWay_only hP ta tag mask isWrite index) fun m _ => ?_
      cases m with
      | none => exact ih _
      | some status => exact .ok _

/-- A probe that demands `ON_MISS` is the only one that can fail because of the lines. -/
theorem probe_only (hvictim : P .probeAllReserved) (ta : TagArray cfg) (addr : NewAddrType)
    (idx : ℕ) (mask : MemAccessSectorMask) (isWrite : Bool) :
    Only P (ta.probe addr idx mask isWrite) := by
  refine .bind (CacheConfig.setIndex_only hP addr) fun setIndex _ =>
    .bind (scanWays_only hP ta _ mask isWrite _ _) fun r _ => ?_
  cases r with
  | found status index => exact .ok _
  | exhausted s =>
      refine .ite (fun _ => .bind (assertThat_only fun _ => hvictim) fun _ _ => .ok _) fun _ => ?_
      split
      · exact .ok _
      · exact .ok _
      · exact .error (hP _ rfl)

theorem allocateSector_only {k : CacheType} (b : CacheBlock k) (time : Time) (i : Fin 4) :
    Only P (b.allocateSector time i) :=
  .bind (assertThat_only fun _ => hP _ rfl) fun _ _ => .ok _

/-- After its probe, an access fails because of the configuration or the request. -/
theorem access_only_of_probe {ta : TagArray cfg} {addr : NewAddrType} {idx : ℕ} {mf : MemFetch}
    (h : Only P (ta.probe addr idx mf.accessSectorMask mf.isWrite))
    (hsector : ∀ p, ta.probe addr idx mf.accessSectorMask mf.isWrite = .ok p →
      SectorMissAllowed P cfg p.status) (time : Time) :
    Only P (ta.access addr time idx mf) := by
  have hprobe : ({ ta with accesses := ta.accesses + 1, isUsed := true } : TagArray cfg).probe addr
      idx mf.accessSectorMask mf.isWrite = ta.probe addr idx mf.accessSectorMask mf.isWrite := by
    refine probe_congr ?_ ?_ _ _ _ _ <;> rfl
  refine .bind (by rw [hprobe]; exact h) fun p' hp' => ?_
  rw [hprobe] at hp'
  have hallowed := hsector p' hp'
  cases hs : p'.status with
  | hit => exact .ok _
  | hitReserved => exact .ok _
  | miss =>
      refine .ite (fun _ => .bind (CacheConfig.getSectorIndex_only hP _) fun i _ => ?_)
        fun _ => .ok _
      exact .ite (fun _ => .ok _) fun _ => .ok _
  | reservationFail => exact .ok _
  | sectorMiss =>
      refine .bind (assertThat_only (hallowed.assert_only hs)) fun _ _ => ?_
      exact .ite (fun _ => .bind (CacheConfig.getSectorIndex_only hP _) fun i _ =>
        .bind (allocateSector_only hP _ _ _) fun _ _ => .ok _) fun _ => .ok _
  | mshrHit => exact .error (hP _ rfl)

theorem access_only {ta : TagArray cfg} {addr : NewAddrType} {idx : ℕ} {mf : MemFetch}
    {p : ProbeResult} (h : ta.probe addr idx mf.accessSectorMask mf.isWrite = .ok p)
    (hsector : SectorMissAllowed P cfg p.status) (time : Time) :
    Only P (ta.access addr time idx mf) := by
  refine access_only_of_probe hP (by rw [h]; exact .ok _) (fun p' hp' => ?_) time
  rw [Except.ok.inj (hp'.symm.trans h)]
  exact hsector

theorem accessNoWriteback_only {ta : TagArray cfg} {addr : NewAddrType} {idx : ℕ} {mf : MemFetch}
    {p : ProbeResult} (h : ta.probe addr idx mf.accessSectorMask mf.isWrite = .ok p)
    (hsector : SectorMissAllowed P cfg p.status) (time : Time) :
    Only P (ta.accessNoWriteback addr time idx mf) :=
  .bind (access_only hP h hsector time) fun _ _ =>
    .bind (assertThat_only fun _ => hP _ rfl) fun _ _ =>
    .ok _

theorem fillIndex_only (ta : TagArray cfg) (index : ℕ) (mf : MemFetch) :
    Only P (ta.fillIndex index mf) :=
  .bind (assertThat_only fun _ => hP _ rfl) fun _ _ =>
    .bind (CacheConfig.getSectorIndex_only hP _) fun _ _ => .ok _

/-- A fill by address can reach the victim assertion in its probe. -/
theorem fillAddr_only {ta : TagArray cfg} {addr : NewAddrType} {mask : MemAccessSectorMask}
    {isWrite : Bool} (h : Only P (ta.probe addr 0 mask isWrite))
    (hsector : ∀ p, ta.probe addr 0 mask isWrite = .ok p → SectorMissAllowed P cfg p.status)
    (time : Time) (byteMask : MemAccessByteMask) :
    Only P (ta.fillAddr addr time mask byteMask isWrite) := by
  refine .bind h fun p hp => .ite (fun _ => .ok _) fun _ =>
    .bind (CacheConfig.getSectorIndex_only hP _) fun i _ => .bind ?_ fun _ _ => .ok _
  unfold allocateForFill
  refine .ite (fun _ => .ok _) fun _ => .ite (fun hs => ?_) fun _ => .ok _
  exact .bind (assertThat_only ((hsector p hp).assert_only hs)) fun _ _ =>
    allocateSector_only hP _ _ _

end TagArray

/-! ### The handlers -/

namespace Cache

theorem markModified_only (c : Cache cfg) (m : MemFetch) (idx : ℕ) :
    Only P (c.markModified m idx) :=
  .bind (CacheConfig.getSectorIndex_only hP _) fun _ _ => .ok _

theorem updateMReadable_only (c : Cache cfg) (m : MemFetch) (idx : ℕ) :
    Only P (c.updateMReadable m idx) := by
  unfold updateMReadable
  induction List.finRange 4 generalizing c with
  | nil => exact .ok _
  | cons i rest ih =>
      rw [List.foldlM_cons]
      refine .bind ?_ fun c' _ => ih c'
      unfold updateMReadableSector
      exact .ite (fun _ => .bind (CacheConfig.getSectorIndex_only hP _) fun _ _ => .ok _)
        fun _ => .ok _

theorem accessTags_only {c : Cache cfg} {addr : NewAddrType} {idx : ℕ} {m : MemFetch}
    {p : ProbeResult} (h : c.tagArray.probe addr idx m.accessSectorMask m.isWrite = .ok p)
    (hsector : SectorMissAllowed P cfg p.status) (time : Time) (readOnly : Bool) :
    Only P (c.accessTags addr idx m time readOnly) :=
  .ite (fun _ => TagArray.accessNoWriteback_only hP h hsector time) fun _ =>
    TagArray.access_only hP h hsector time

section Add

variable {c : Cache cfg}
  (hadd : ∀ a mf, c.mshrs.full a = false → Only P (c.mshrs.add a mf))

include hadd

theorem acceptMiss_only {addr a : NewAddrType} {idx : ℕ} {mf : Token} {p : ProbeResult}
    (h : c.tagArray.probe addr idx (c.mfs mf).accessSectorMask (c.mfs mf).isWrite = .ok p)
    (hsector : SectorMissAllowed P cfg p.status) (hfull : c.mshrs.full a = false) (time : Time)
    (readOnly : Bool) : Only P (c.acceptMiss addr a idx mf time readOnly) :=
  .bind (accessTags_only hP h hsector time readOnly) fun _ _ =>
    .bind (hadd a mf hfull) fun _ _ => .ok _

/-- The read miss handler fails in `mshr_table::add` only, and adds only to a table with room. -/
theorem sendReadRequest_only {addr : NewAddrType} {idx : ℕ} {mf : Token} {p : ProbeResult}
    (h : c.tagArray.probe addr idx (c.mfs mf).accessSectorMask (c.mfs mf).isWrite = .ok p)
    (hsector : SectorMissAllowed P cfg p.status) (hroom : c.missQueue.length < cfg.missQueueSize)
    (time : Time) (events : List CacheEvent) (readOnly wa : Bool) :
    Only P (c.sendReadRequest addr idx mf time events readOnly wa) := by
  unfold sendReadRequest
  dsimp only
  refine .ite (fun hmerge => ?_) fun hnmerge => .ite (fun hnew => ?_) fun hnnew =>
    .ite (fun _ => .ok _) fun hmerged => .ite (fun _ => .ok _) fun hfull => ?_
  · have hfull : c.mshrs.full (cfg.mshrAddr (c.mfs mf).addr) = false := by
      simpa using (Bool.and_eq_true_iff.1 hmerge).2
    exact .bind (acceptMiss_only hP hadd h hsector hfull time readOnly) fun _ _ => .ok _
  · have hfull : c.mshrs.full (cfg.mshrAddr (c.mfs mf).addr) = false := by
      simpa using (Bool.and_eq_true_iff.1 (Bool.and_eq_true_iff.1 hnew).1).2
    exact .bind (acceptMiss_only hP hadd h hsector hfull time readOnly) fun _ _ => .ok _
  · -- the four branches are all there are when the queue has room
    exfalso
    cases hhit : c.mshrs.probe (cfg.mshrAddr (c.mfs mf).addr) <;>
      cases havail : c.mshrs.full (cfg.mshrAddr (c.mfs mf).addr) <;> simp_all

/-- The read miss handler, for a read that a write has allocated. -/
theorem sendAllocated_only {c' : Cache cfg} {n : Token} {addr : NewAddrType} {m : MemFetch}
    {p : ProbeResult} (hp : c.Probes addr m p) (hwrite : m.isWrite = true) (hhit : p.status ≠ .hit)
    (hfail : p.status ≠ .reservationFail) (hsector : SectorMissAllowed P cfg p.status)
    (hta : c'.tagArray = c.tagArray)
    (hmshrs : c'.mshrs = c.mshrs) (hread : (c'.mfs n).isWrite = false)
    (hmask : (c'.mfs n).accessSectorMask = m.accessSectorMask)
    (hroom : c'.missQueue.length < cfg.missQueueSize) (idx : ℕ) (time : Time)
    (events : List CacheEvent) :
    Only P (c'.sendReadRequest (cfg.blockAddr addr) idx n time events false true) := by
  rw [Probes, hwrite] at hp
  have hprobe : c.tagArray.probe (cfg.blockAddr addr) idx m.accessSectorMask false = .ok p :=
    TagArray.probe_idx (TagArray.probe_read_of_write hp hhit) hfail idx
  rw [← hta, ← hmask, ← hread] at hprobe
  rw [← hmshrs] at hadd
  exact sendReadRequest_only hP hadd hprobe hsector hroom time events _ _

end Add

section Handlers

variable {c : Cache cfg} {addr : NewAddrType} {mf : Token} {p : ProbeResult}
  (hp : c.Probes addr (c.mfs mf) p) (hfail : p.status ≠ .reservationFail)
  (hsector : SectorMissAllowed P cfg p.status)

include hp hfail hsector

theorem wrHitWb_only (idx : ℕ) (time : Time) (events : List CacheEvent) :
    Only P (c.wrHitWb addr idx mf time events) :=
  .bind (TagArray.accessNoWriteback_only hP (TagArray.probe_idx hp hfail idx) hsector time)
    fun _ _ =>
    .bind (markModified_only hP _ _ _) fun _ _ => .bind (updateMReadable_only hP _ _ _) fun _ _ =>
      .ok _

theorem wrHitWt_only (idx : ℕ) (time : Time) (events : List CacheEvent) :
    Only P (c.wrHitWt addr idx mf time events) :=
  .ite (fun _ => .ok _) fun _ =>
    .bind (TagArray.accessNoWriteback_only hP (TagArray.probe_idx hp hfail idx) hsector time)
      fun _ _ => .bind (markModified_only hP _ _ _) fun _ _ =>
        .bind (updateMReadable_only hP _ _ _) fun _ _ => .ok _

omit hp hfail hsector in
theorem wrHitWe_only (idx : ℕ) (events : List CacheEvent) :
    Only P (c.wrHitWe idx mf events) :=
  .ite (fun _ => .ok _) fun _ => .bind (CacheConfig.getSectorIndex_only hP _) fun _ _ => .ok _

theorem wrHit_only (idx : ℕ) (time : Time) (events : List CacheEvent) :
    Only P (c.wrHit addr idx mf time events) := by
  unfold wrHit
  split
  · exact .error (hP _ rfl)
  · exact wrHitWb_only hP hp hfail hsector idx time events
  · exact wrHitWt_only hP hp hfail hsector idx time events
  · exact wrHitWe_only hP idx events
  · exact .ite (fun _ => wrHitWe_only hP idx events) fun _ =>
      wrHitWb_only hP hp hfail hsector idx time events

theorem rdHitBase_only (idx : ℕ) (time : Time) (events : List CacheEvent) :
    Only P (c.rdHitBase addr idx mf time events) :=
  .bind (TagArray.accessNoWriteback_only hP (TagArray.probe_idx hp hfail idx) hsector time)
    fun _ _ => .ok _

end Handlers

section Misses

variable {c : Cache cfg} {addr : NewAddrType} {mf : Token} {p : ProbeResult}
  (hp : c.Probes addr (c.mfs mf) p) (hfail : p.status ≠ .reservationFail)
  (hsector : SectorMissAllowed P cfg p.status)
  (hadd : ∀ a mf, c.mshrs.full a = false → Only P (c.mshrs.add a mf))

omit hP in
/-- A fetch that is refused is refused for a reason. -/
theorem fetchRefusal_only {c : Cache cfg} {numMiss : ℕ} {a : NewAddrType}
    (h : c.fetchRefused numMiss a = true) (unreachable : Abort) :
    Only P (c.fetchRefusal numMiss a unreachable) := by
  refine .ite (fun _ => .ok _) fun hqueue => .ite (fun _ => .ok _) fun hmerged =>
    .ite (fun _ => .ok _) fun hfull => ?_
  have hroom : c.missQueue.length < cfg.missQueueSize := by
    rw [missQueueFull, decide_eq_true_eq, not_le] at hqueue
    omega
  exfalso
  unfold fetchRefused at h
  cases hhit : c.mshrs.probe a <;> cases havail : c.mshrs.full a <;> simp_all

include hp hfail hsector hadd

theorem rdMissBase_only (types : DataCacheTypes) (idx : ℕ) (time : Time)
    (events : List CacheEvent) : Only P (c.rdMissBase types addr idx mf time events) := by
  refine .ite (fun _ => .ok _) fun hqueue =>
    .bind ?_ fun r _ => .ite (fun _ => .ok _) fun _ => .ok _
  have hroom : c.missQueue.length < cfg.missQueueSize := by
    rw [missQueueFull, decide_eq_true_eq, not_le] at hqueue
    omega
  exact sendReadRequest_only hP hadd (TagArray.probe_idx hp hfail idx) hsector hroom time events _ _

variable (hwrite : (c.mfs mf).isWrite = true) (hhit : p.status ≠ .hit)

include hwrite hhit

theorem wrMissWaNaive_only (types : DataCacheTypes) (idx : ℕ) (time : Time)
    (events : List CacheEvent) (status : CacheRequestStatus) :
    Only P (c.wrMissWaNaive types addr idx mf time events status) := by
  refine .ite (fun hrefused => .bind (fetchRefusal_only hrefused _) fun _ _ => .ok _)
    fun hgo => .bind ?_ fun r _ => ?_
  · have hqueue := (fetchRefused_eq_false (by simpa using hgo)).1
    refine sendAllocated_only hP hadd hp hwrite hhit hfail hsector ?_ ?_ ?_ ?_ ?_ idx time _
    · rfl
    · rfl
    · simp [MemFetch.new]
    · simp [MemFetch.new, MemFetch.memAccessSectorMask_self]
    · change (c.missQueue ++ [mf]).length < cfg.missQueueSize
      rw [List.length_append, List.length_singleton]
      omega
  · exact .ite (fun _ => .bind (assertThat_only fun _ => hP _ rfl) fun _ _ => .ok _) fun _ => .ok _

theorem wrMissWaFetchOnWritePartial_only (types : DataCacheTypes) (idx : ℕ) (time : Time)
    (events : List CacheEvent) :
    Only P (c.wrMissWaFetchOnWritePartial types addr idx mf time events) := by
  refine .ite (fun hrefused => .bind (fetchRefusal_only hrefused _) fun _ _ => .ok _)
    fun hgo => .ite (fun _ => .ok _) fun _ => .bind ?_ fun r _ => ?_
  · have hqueue := (fetchRefused_eq_false (by simpa using hgo)).1
    refine sendAllocated_only hP hadd hp hwrite hhit hfail hsector ?_ ?_ ?_ ?_ ?_ idx time _
    · rfl
    · rfl
    · simp [MemFetch.new]
    · simp [MemFetch.new, MemFetch.memAccessSectorMask_self]
    · exact (Nat.lt_succ_self _).trans hqueue
  · exact .bind (CacheConfig.getSectorIndex_only hP _) fun _ _ =>
      .ite (fun _ => .ok _) fun _ => .ok _

omit hadd hwrite hhit in
theorem wrMissWaFetchOnWriteFull_only (types : DataCacheTypes) (idx : ℕ) (time : Time)
    (events : List CacheEvent) :
    Only P (c.wrMissWaFetchOnWriteFull types addr idx mf time events) := by
  refine .ite (fun _ => .ok _) fun _ =>
    .bind (TagArray.access_only hP (TagArray.probe_idx hp hfail idx) hsector time) fun r _ =>
      .bind (assertThat_only fun _ => hP _ rfl) fun _ _ =>
        .bind (markModified_only hP _ _ _) fun c' _ => .bind ?_ fun _ _ =>
          .ite (fun _ => .ok _) fun _ => .ok _
  exact .ite (fun _ => .bind (CacheConfig.getSectorIndex_only hP _) fun _ _ => .ok _) fun _ => .ok _

omit hadd hwrite hhit in
theorem wrMissWaLazyFetchOnRead_only (types : DataCacheTypes) (idx : ℕ) (time : Time)
    (events : List CacheEvent) :
    Only P (c.wrMissWaLazyFetchOnRead types addr idx mf time events) := by
  unfold wrMissWaLazyFetchOnRead
  have hprobe := TagArray.probe_idx hp hfail idx
  refine .ite (fun _ => .ok _) fun _ => ?_
  split
  next c₁ events₁ hc₁ =>
  have hta : c₁.tagArray = c.tagArray := by
    split at hc₁ <;> cases hc₁ <;> rfl
  rw [hta]
  refine .bind (TagArray.access_only hP hprobe hsector time) fun r _ =>
    .bind (assertThat_only fun _ => hP _ rfl) fun _ _ =>
      .bind (markModified_only hP _ _ _) fun c' _ =>
        .bind (CacheConfig.getSectorIndex_only hP _) fun i _ =>
          .bind (updateMReadable_only hP _ _ _) fun _ _ => .ite (fun _ => .ok _) fun _ => .ok _

theorem wrMiss_only (types : DataCacheTypes) (idx : ℕ) (time : Time) (events : List CacheEvent)
    (status : CacheRequestStatus) :
    Only P (c.wrMiss types addr idx mf time events status) := by
  unfold wrMiss
  split
  · exact .ite (fun _ => .ok _) fun _ => .ok _
  · exact wrMissWaNaive_only hP hp hfail hsector hadd hwrite hhit types idx time events status
  · exact .ite (fun _ => wrMissWaFetchOnWriteFull_only hP hp hfail hsector types idx time events)
      fun _ =>
      wrMissWaFetchOnWritePartial_only hP hp hfail hsector hadd hwrite hhit types idx time events
  · exact wrMissWaLazyFetchOnRead_only hP hp hfail hsector types idx time events

end Misses

/-! ### The methods -/

omit hP in
theorem useDataPort_only (hP : ∀ e : Abort, e.plain = true → P e) (c : Cache cfg) (m : MemFetch)
    (outcome : CacheRequestStatus) (events : List CacheEvent) :
    Only P (c.useDataPort m outcome events) := by
  unfold useDataPort
  dsimp only
  split
  · exact .ok _
  · split <;> exact .ok _
  · split <;> exact .ok _
  · exact .ok _
  · exact .ok _
  · exact .error (hP _ rfl)

section Access

variable {c : Cache cfg} {addr : NewAddrType} {mf : Token}
  (hadd : ∀ a mf, c.mshrs.full a = false → Only P (c.mshrs.add a mf))

include hadd

theorem callHandler_only (types : DataCacheTypes) {p : ProbeResult}
    (hp : c.Probes addr (c.mfs mf) p) (hsector : SectorMissAllowed P cfg p.status) (idx : ℕ)
    (time : Time) (events : List CacheEvent) :
    Only P (c.callHandler types (c.mfs mf).isWrite p.status addr idx mf time events) := by
  refine .ite (fun hw => .ite (fun _ => ?_) fun hhit => .ite (fun hor => ?_) fun _ => .ok _)
    fun _ => .ite (fun _ => ?_) fun _ => .ite (fun hfail => ?_) fun _ => .ok _
  · exact wrHit_only hP hp (by simp_all) hsector idx time events
  · by_cases hfail : p.status = .reservationFail
    · rw [wrMiss, hor.resolve_left (not_not_intro hfail)]
      exact .ite (fun _ => .ok _) fun _ => .ok _
    · exact wrMiss_only hP hp hfail hsector hadd hw hhit types idx time events p.status
  · exact rdHitBase_only hP hp (by simp_all) hsector idx time events
  · exact rdMissBase_only hP hp hfail hsector hadd types idx time events

theorem processTagProbe_only (types : DataCacheTypes) {p : ProbeResult}
    (hp : c.Probes addr (c.mfs mf) p) (hsector : SectorMissAllowed P cfg p.status) (time : Time)
    (events : List CacheEvent) :
    Only P (c.processTagProbe types (c.mfs mf).isWrite p.status addr p.idx mf time events) :=
  .ite (fun _ => .bind (useDataPort_only hP _ _ _ _) fun _ _ => .ok _) fun _ =>
    .bind (callHandler_only hP hadd types hp hsector _ time events) fun _ _ =>
      .bind (useDataPort_only hP _ _ _ _) fun _ _ => .ok _

theorem readOnlyTagProbe_only {p : ProbeResult} (hp : c.Probes addr (c.mfs mf) p)
    (hsector : SectorMissAllowed P cfg p.status) (time : Time) (events : List CacheEvent) :
    Only P (c.readOnlyTagProbe p addr mf time events) := by
  refine .ite (fun hhit => .ite (fun _ => .ok _) fun _ => .bind ?_ fun r _ => ?_)
    fun _ => .ite (fun hfail => .ite (fun _ => .ok _) fun hqueue => .bind ?_ fun _ _ => .ok _)
      fun _ => .ok _
  · exact TagArray.accessNoWriteback_only hP
      (TagArray.probe_idx hp (by simp [hhit]) p.idx) hsector time
  · exact .ite (fun _ => .ok _) fun _ => .ok _
  · have hroom : c.missQueue.length < cfg.missQueueSize := by
      rw [missQueueFull, decide_eq_true_eq, not_le] at hqueue
      omega
    exact sendReadRequest_only hP hadd (TagArray.probe_idx hp hfail p.idx)
      hsector hroom time events _ _

/-- An access reaches the victim assertion in its first probe only, and the assertions of the MSHR
table in `mshr_table::add` only. -/
theorem access_only (hprobe : Only P (c.tagArray.probe (cfg.blockAddr addr) noIndex
      (c.mfs mf).accessSectorMask (c.mfs mf).isWrite))
    (hsector : ∀ p, c.Probes addr (c.mfs mf) p → SectorMissAllowed P cfg p.status)
    (cls : CacheClass) (time : Time) (events : List CacheEvent) :
    Only P (c.access cls addr mf time events) := by
  have hprobed : ∀ c₁ p, c.probeTags addr (c.mfs mf) = .ok (c₁, p) →
      c₁.mfs = c.mfs ∧ c₁.Probes addr (c₁.mfs mf) p ∧ SectorMissAllowed P cfg p.status ∧
        ∀ a t, c₁.mshrs.full a = false → Only P (c₁.mshrs.add a t) := by
    intro c₁ p h
    obtain ⟨rfl, hp⟩ := probeTags_eq_ok h
    exact ⟨rfl, hp, hsector p (probes_of_probeTags h), hadd⟩
  have htags : Only P (c.probeTags addr (c.mfs mf)) := .bind hprobe fun _ _ => .ok _
  cases cls with
  | readOnlyCache =>
      refine .bind (assertThat_only fun _ => hP _ rfl) fun _ _ =>
        .bind (assertThat_only fun _ => hP _ rfl) fun _ _ =>
          .bind (assertThat_only fun _ => hP _ rfl) fun _ _ =>
            .bind htags fun r hr => .bind ?_ fun _ _ => .ok _
      obtain ⟨c₁, p⟩ := r
      obtain ⟨-, hp, hsector₁, hadd₁⟩ := hprobed c₁ p hr
      exact readOnlyTagProbe_only hP hadd₁ hp hsector₁ time events
  | dataCache types =>
      refine .bind (assertThat_only fun _ => hP _ rfl) fun _ _ =>
        .bind (assertThat_only fun _ => hP _ rfl) fun _ _ =>
          .bind htags fun r hr => .bind ?_ fun _ _ => .ok _
      obtain ⟨c₁, p⟩ := r
      obtain ⟨hmfs, hp, hsector₁, hadd₁⟩ := hprobed c₁ p hr
      rw [← hmfs]
      exact processTagProbe_only hP hadd₁ types hp hsector₁ time events

end Access

theorem cycle_only (c : Cache cfg) (memportFull : Bool) : Only P (c.cycle memportFull) := by
  refine .bind ?_ fun _ _ => .ok _
  induction c.hitResponseQueue with
  | nil => exact .ok _
  | cons e rest ih =>
      exact .bind (assertThat_only fun _ => hP _ rfl) fun _ _ => .bind ih fun _ _ =>
        .ite (fun _ => .ok _) fun _ => .ok _

/-- A response fails when nobody waits for it, when its MSHR entry is gone, or in its probe. -/
theorem fillComplete_only {c : Cache cfg} {mf : Token}
    (hpolicy : cfg.allocPolicy = .streaming → P .fillPolicy)
    (hnone : c.extraMfFields.lookup mf = none → P .fillNotWaiting)
    (hsome : ∀ e, c.extraMfFields.lookup mf = some e →
      (e.valid = false → P .fillNotValid) ∧ Only P (c.mshrs.markReady e.blockAddr) ∧
        (cfg.allocPolicy = .onFill → Only P (c.tagArray.probe e.blockAddr 0
            (c.mfs mf).accessSectorMask (c.mfs mf).isWrite) ∧
          ∀ p, c.tagArray.probe e.blockAddr 0 (c.mfs mf).accessSectorMask (c.mfs mf).isWrite =
            .ok p → SectorMissAllowed P cfg p.status)) (time : Time) :
    Only P (c.fillComplete mf time) := by
  unfold fillComplete
  cases he : c.extraMfFields.lookup mf with
  | none => exact .error (hnone he)
  | some e =>
      obtain ⟨hvalid, hready, hprobe⟩ := hsome e he
      refine .bind (assertThat_only fun h => hvalid (by simpa using h)) fun _ _ => ?_
      dsimp only
      split
      · exact .bind (TagArray.fillIndex_only hP _ _ _) fun _ _ => .bind hready fun _ _ => .ok _
      · next hp =>
          refine .bind (TagArray.fillAddr_only hP ?_ ?_ time _) fun _ _ =>
            .bind hready fun _ _ => .ok _
          · simpa using (hprobe hp).1
          · simpa using (hprobe hp).2
      · next hp => exact .bind (.error (hpolicy hp)) fun _ _ => .bind hready fun _ _ => .ok _

/-- The request that a response answers. -/
def answeredBy (c : Cache cfg) (mf : Token) : Option Token :=
  if cfg.mshrType = .sectorAssoc then (c.mfs mf).originalMf else some mf

theorem fill_only {c : Cache cfg} {mf : Token}
    (hpolicy : cfg.allocPolicy = .streaming → P .fillPolicy)
    (horiginal : c.answeredBy mf = none → P .fillNoOriginal)
    (hnone : ∀ t ∈ c.answeredBy mf, c.extraMfFields.lookup t = none → P .fillNotWaiting)
    (hsome : ∀ t ∈ c.answeredBy mf, ∀ e, c.extraMfFields.lookup t = some e →
      (e.valid = false → P .fillNotValid) ∧ Only P (c.mshrs.markReady e.blockAddr) ∧
        (cfg.allocPolicy = .onFill → Only P (c.tagArray.probe e.blockAddr 0
            (c.mfs t).accessSectorMask (c.mfs t).isWrite) ∧
          ∀ p, c.tagArray.probe e.blockAddr 0 (c.mfs t).accessSectorMask (c.mfs t).isWrite =
            .ok p → SectorMissAllowed P cfg p.status)) (time : Time) :
    Only P (c.fill mf time) := by
  unfold fill
  by_cases hassoc : cfg.mshrType = .sectorAssoc
  · simp only [answeredBy, if_pos hassoc] at horiginal hnone hsome
    rw [if_pos hassoc]
    cases ho : (c.mfs mf).originalMf with
    | none => exact .error (horiginal ho)
    | some t =>
        cases he : c.extraMfFields.lookup t with
        | none =>
            simp only [he]
            exact .error (hnone t ho he)
        | some e =>
            simp only [he]
            refine .ite (fun _ => .ok _) fun _ => fillComplete_only hP hpolicy ?_ ?_ time
            · simp
            · intro e' he'
              obtain rfl := Option.some_inj.1 ((AList.lookup_insert _).symm.trans he')
              exact hsome t ho e he
  · simp only [answeredBy, if_neg hassoc] at hnone hsome
    rw [if_neg hassoc]
    exact fillComplete_only hP hpolicy (hnone mf rfl) (hsome mf rfl) time

omit hP in
theorem unpinResponse_only {c : Cache cfg} {mf : Token}
    (h : ∀ idx, c.pendingResponseIndices.lookup mf = some idx →
      (c.tagArray.lines idx).pendingResponseCount = 0 → P .unpinZero) :
    Only P (c.unpinResponse mf) := by
  unfold unpinResponse
  split
  · exact .ok _
  · next idx hidx =>
      exact .bind (.bind (assertThat_only fun hz => h idx hidx (Nat.eq_zero_of_not_pos hz))
        fun _ _ => .ok _) fun _ _ => .ok _

/-- `next_access` fails when nothing is ready, when the table has nothing to return, or when the
line of the request has no pin. -/
theorem nextAccess_only {c : Cache cfg}
    (htable : c.accessReady = true → c.readyResponseQueue = [] → Only P c.mshrs.nextAccess)
    (hpin : ∀ mf idx, c.pendingResponseIndices.lookup mf = some idx →
      (c.tagArray.lines idx).pendingResponseCount = 0 → P .unpinZero) : Only P c.nextAccess := by
  refine .bind (assertThat_only fun _ => hP _ rfl) fun _ hready => ?_
  split
  · exact .bind (unpinResponse_only (hpin _)) fun _ _ => .ok _
  · next hq =>
      exact .bind (htable (assertThat_eq_ok.1 hready) hq) fun r _ =>
        .bind (unpinResponse_only (hpin _)) fun _ _ => .ok _

end Cache

end Tags

end OpenCache
