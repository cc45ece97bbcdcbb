/-
On reads, `read_only_cache` and a `data_cache` with the policy `WRITE_BACK` do the same.

The two `access` functions have their own branches for hits, misses and refusals, and they call
different overloads of `tag_array::access`.  A read makes no line dirty, so neither overload ever
has a block to write back.  What remains is the room that a miss asks for in the miss queue: one
slot in `read_only_cache`, two in `data_cache`, which matters when exactly one is free.

* `OpenCache.CacheConfig.withWritePolicy` — a configuration with another write policy;
* `OpenCache.TagArray.Clean` — no sector is dirty, or will be;
* `OpenCache.Cache.Alike` — the two caches differ in the use of the data port only;
* `OpenCache.Cache.access_alike` — **a read does the same to both**;
* `OpenCache.read_only_agrees_with_write_back` — **the two classes stay in step**.
-/

import OpenCache.Lockstep
import OpenCache.System

set_option relaxedAutoImplicit false
set_option autoImplicit false

namespace OpenCache

open Lockstep (Agree)

/-! ### Another write policy -/

/-- A configuration with another write policy. -/
def CacheConfig.withWritePolicy (cfg : CacheConfig) (writePolicy : WritePolicy) : CacheConfig :=
  { cfg with writePolicy }

/-- `init` accepts the string of a read-only cache that allocates on misses also with the policy
`WRITE_BACK`. -/
theorem CacheConfig.init_writeBack {old c : CacheConfig} {t : ScannedConfig}
    (h : init old { t with wp := 'R' } = .ok c) (hon : c.allocPolicy = .onMiss) :
    init old { t with wp := 'B' } = .ok (c.withWritePolicy .writeBack) := by
  obtain ⟨ct, rp, wp, ap, mt, wap, sif, hct, hrp, -, hap, hmt, hwap, -, hfetch, hsector, hwidth,
    hsif, rfl⟩ := init_eq_ok.1 h
  refine init_eq_ok.2 ⟨ct, rp, .writeBack, ap, mt, wap, sif, hct, hrp, rfl, hap, hmt, hwap, ?_,
    hfetch, hsector, hwidth, hsif, rfl⟩
  change (if ap = .streaming then .onFill else ap) = AllocationPolicy.onMiss at hon
  rw [hon]
  rintro ⟨h | h, -⟩ <;> cases h

namespace TagArray

variable {cfg : CacheConfig} (wp : WritePolicy)

/-- The same tag array in a cache with another write policy. -/
def withWritePolicy (ta : TagArray cfg) : TagArray (cfg.withWritePolicy wp) where
  lines := ta.lines
  accesses := ta.accesses
  misses := ta.misses
  pendingHit := ta.pendingHit
  resFail := ta.resFail
  sectorMiss := ta.sectorMiss
  dirty := ta.dirty
  lastFailReason := ta.lastFailReason
  isUsed := ta.isUsed

theorem scanWays_withWritePolicy (ta : TagArray cfg) (tag : NewAddrType)
    (mask : MemAccessSectorMask) (isWrite : Bool) (ways : List ℕ) (s : Scan) :
    (ta.withWritePolicy wp).scanWays tag mask isWrite ways s =
      ta.scanWays tag mask isWrite ways s := by
  induction ways generalizing s with
  | nil => rfl
  | cons index rest ih =>
      have hmatch : (ta.withWritePolicy wp).matchWay tag mask isWrite index =
          ta.matchWay tag mask isWrite index := rfl
      have hvictim : (ta.withWritePolicy wp).considerVictim index s = ta.considerVictim index s :=
        rfl
      simp only [scanWays, hmatch, hvictim, ih]

theorem probe_withWritePolicy (ta : TagArray cfg) (addr : NewAddrType) (idx : ℕ)
    (mask : MemAccessSectorMask) (isWrite : Bool) :
    (ta.withWritePolicy wp).probe addr idx mask isWrite = ta.probe addr idx mask isWrite := by
  have hways : ∀ s, (ta.withWritePolicy wp).scanWays ((cfg.withWritePolicy wp).tag addr) mask
      isWrite (waysOf (cfg.withWritePolicy wp) s) Scan.init =
        ta.scanWays (cfg.tag addr) mask isWrite (waysOf cfg s) Scan.init := fun s =>
    scanWays_withWritePolicy wp ta _ mask isWrite _ _
  unfold probe
  simp only [hways]
  rfl

/-- An access to the tags does the same, whatever the write policy. -/
theorem access_withWritePolicy (ta : TagArray cfg) (addr : NewAddrType) (time : Time) (idx : ℕ)
    (mf : MemFetch) :
    Agree (fun x y => y = (x.1.withWritePolicy wp, x.2)) (ta.access addr time idx mf)
      ((ta.withWritePolicy wp).access addr time idx mf) := by
  refine .bind (.of_eq (probe_withWritePolicy wp
    { ta with accesses := ta.accesses + 1, isUsed := true } addr idx mf.accessSectorMask
      mf.isWrite)) fun p p' _ _ hp => ?_
  subst hp
  cases p'.status with
  | hit => exact .ok rfl
  | hitReserved => exact .ok rfl
  | reservationFail => exact .ok rfl
  | mshrHit => exact .error _
  | miss =>
      refine .ite Iff.rfl (fun _ => .bind (.refl _) fun i i' _ _ hi => ?_) fun _ => .ok rfl
      subst hi
      exact .ite Iff.rfl (fun _ => .ok rfl) fun _ => .ok rfl
  | sectorMiss =>
      refine .bind (.refl _) fun _ _ _ _ _ => .ite Iff.rfl (fun _ => .bind (.refl _)
        fun i i' _ _ hi => ?_) fun _ => .ok rfl
      subst hi
      refine .bind (.refl _) fun new new' _ _ hnew => .ok ?_
      subst hnew
      dsimp only
      split
      · next h =>
          split
          · rfl
          · next h' => exact absurd h h'
      · next h =>
          split
          · next h' => exact absurd h' h
          · rfl

end TagArray

/-! ### Clean lines -/

/-- No sector of a line is dirty, or will be when it is filled. -/
def CacheBlock.Clean {k : CacheType} (b : CacheBlock k) : Prop :=
  ∀ i, b.getStatus i ≠ .modified ∧ (b.sectorAt i).setModifiedOnFill = false

namespace CacheBlock.Clean

variable {k : CacheType} {b : CacheBlock k}

theorem init : (CacheBlock.init k).Clean := by
  intro i
  simp [getStatus, SectorState.init]

theorem modifySector (h : b.Clean) {f : SectorState → SectorState} {i : Fin 4}
    (hf : (f (b.sectorAt i)).status ≠ .modified ∧ (f (b.sectorAt i)).setModifiedOnFill = false) :
    (b.modifySector i f).Clean := by
  intro j
  rw [getStatus, sectorAt_modifySector]
  split
  · next hij =>
      rcases hij with hnormal | rfl
      · rwa [sectorAt_of_normal b hnormal j i]
      · exact hf
  · exact h j

theorem allocate (b : CacheBlock k) (tag blockAddr : NewAddrType) (time : Time) (i : Fin 4) :
    (b.allocate tag blockAddr time i).Clean := by
  intro j
  rcases b with ⟨_, _, _, _, _, _, _, _, ⟨s⟩ | ⟨s⟩⟩
  · simp [CacheBlock.allocate, getStatus, sectorAt, BlockSectors.get, reserveSector]
  · simp only [CacheBlock.allocate, getStatus, sectorAt, BlockSectors.get_modify]
    split <;> simp [reserveSector, SectorState.init]

theorem reserveSectorAgain (h : b.Clean) (i : Fin 4) (time : Time) :
    ({ b.modifySector i CacheBlock.reserveSectorAgain with lastAccessTime := time } :
      CacheBlock k).Clean := by
  have hstatus : (b.sectorAt i).status ≠ .modified := (h i).1
  exact h.modifySector (f := CacheBlock.reserveSectorAgain)
    ⟨by simp [CacheBlock.reserveSectorAgain], by simp [CacheBlock.reserveSectorAgain, hstatus]⟩

theorem fill (h : b.Clean) (i : Fin 4) (byteMask : MemAccessByteMask) :
    (b.fill i byteMask).Clean := by
  have hfilled : (b.modifySector i (fillSector k)).Clean :=
    h.modifySector ⟨by simp [fillSector, (h i).2], (h i).2⟩
  unfold CacheBlock.fill
  dsimp only
  split <;> exact hfilled

theorem isModifiedLine (h : b.Clean) : b.isModifiedLine = false := by
  cases hm : b.isModifiedLine with
  | false => rfl
  | true =>
      obtain ⟨i, hi⟩ := (isModifiedLine_iff b).1 hm
      exact absurd hi (h i).1

end CacheBlock.Clean

namespace TagArray

variable {cfg : CacheConfig} {ta ta' : TagArray cfg}

/-- All lines are clean. -/
def Clean (ta : TagArray cfg) : Prop := ∀ index, (ta.lines index).Clean

theorem Clean.of_update (h : ta.Clean) {index : ℕ} {b : CacheBlock cfg.cacheType} (hb : b.Clean)
    (hlines : ta'.lines = Function.update ta.lines index b) : ta'.Clean := by
  intro j
  rw [hlines]
  by_cases hj : j = index
  · rw [hj, Function.update_self]
    exact hb
  · rw [Function.update_of_ne hj]
    exact h j

theorem Clean.touchedLine (h : ta.Clean) (addr : NewAddrType) (time : Time) (i : Fin 4)
    (status : CacheRequestStatus) (index : ℕ) :
    (touchedLine cfg addr time i status (ta.lines index)).Clean := by
  have hline := h index
  unfold TagArray.touchedLine
  split
  · exact hline
  · exact hline
  · split
    · exact .allocate _ _ _ _ _
    · exact hline
  · split
    · exact hline.reserveSectorAgain _ _
    · exact hline
  · exact hline

/-- An access to clean lines leaves them clean and evicts nothing. -/
theorem Clean.access (h : ta.Clean) {addr : NewAddrType} {time : Time} {idx : ℕ} {mf : MemFetch}
    {r : AccessResult} (haccess : ta.access addr time idx mf = .ok (ta', r)) :
    ta'.Clean ∧ r.evicted = none := by
  obtain ⟨p, -, -, -, -, hevicted, hlines⟩ := access_eq_ok haccess
  refine ⟨h.of_update (h.touchedLine _ _ _ _ _) hlines, ?_⟩
  rw [hevicted, evictedBy, (h p.idx).isModifiedLine]
  simp

end TagArray

/-! ### The caches -/

namespace Cache

variable {cfg : CacheConfig} {wp : WritePolicy}

/-- The same cache with another write policy, and with its own use of the data port. -/
def withWritePolicy (c : Cache cfg) (wp : WritePolicy) (occupied busy : ℕ) :
    Cache (cfg.withWritePolicy wp) where
  tagArray := c.tagArray.withWritePolicy wp
  mshrs := c.mshrs
  missQueue := c.missQueue
  extraMfFields := c.extraMfFields
  hitResponseQueue := c.hitResponseQueue
  readyResponseQueue := c.readyResponseQueue
  pendingResponseIndices := c.pendingResponseIndices
  stats := { c.stats with cacheDataPortBusyCycles := busy }
  dataPortOccupiedCycles := occupied
  fillPortOccupiedCycles := c.fillPortOccupiedCycles
  mfs := c.mfs
  created := c.created

/-- Two caches that differ in the write policy and in the use of the data port only. -/
def Alike (c : Cache cfg) (c' : Cache (cfg.withWritePolicy wp)) : Prop :=
  ∃ occupied busy, c' = c.withWritePolicy wp occupied busy

theorem accessNoWriteback_alike {ta : TagArray cfg} (h : ta.Clean) (addr : NewAddrType)
    (time : Time) (idx : ℕ) (mf : MemFetch) :
    Agree (fun x y => y = (x.1.withWritePolicy wp, x.2) ∧ x.1.Clean)
      (ta.accessNoWriteback addr time idx mf)
      ((ta.withWritePolicy wp).accessNoWriteback addr time idx mf) := by
  refine .bind (ta.access_withWritePolicy wp addr time idx mf) fun x y hx _ hxy => ?_
  subst hxy
  exact .bind (.refl _) fun _ _ _ _ _ => .ok ⟨rfl, (h.access hx).1⟩

/-- The overloads of `tag_array::access` agree on clean lines: there is nothing to write back. -/
theorem accessNoWriteback_withWritePolicy {ta : TagArray cfg} (h : ta.Clean) (addr : NewAddrType)
    (time : Time) (idx : ℕ) (mf : MemFetch) :
    Agree (fun x y => y = (x.1.withWritePolicy wp, x.2) ∧ x.1.Clean ∧ x.2.evicted = none)
      (ta.accessNoWriteback addr time idx mf)
      ((ta.withWritePolicy wp).access addr time idx mf) := by
  have hagree := ta.access_withWritePolicy wp addr time idx mf
  have hclean : ∀ {ta' r}, ta.access addr time idx mf = .ok (ta', r) → ta'.Clean ∧
      r.evicted = none := h.access
  unfold TagArray.accessNoWriteback
  generalize hx : ta.access addr time idx mf = x at hagree hclean
  generalize (ta.withWritePolicy wp).access addr time idx mf = y at hagree
  cases hagree with
  | error e => exact .error e
  | @ok a b hab =>
      subst hab
      obtain ⟨ta', r⟩ := a
      obtain ⟨hta', hr⟩ := hclean rfl
      refine (?_ : Agree _ (assertThat (r.evicted.isNone = true) .unexpectedWriteback >>= _) _)
      rw [assertThat_of _ (by rw [hr]; rfl)]
      exact .ok ⟨rfl, hta', hr⟩

section Reads

variable {c : Cache cfg} (hclean : c.tagArray.Clean) (occupied busy : ℕ)

include hclean

/-- What the read miss handlers begin with. -/
theorem acceptMiss_alike (blockAddr mshrAddr : NewAddrType) (idx : ℕ) (mf : Token) (time : Time) :
    Agree (fun x y => y = (x.1.withWritePolicy wp occupied busy, x.2) ∧ x.1.tagArray.Clean ∧
        x.2.evicted = none)
      (c.acceptMiss blockAddr mshrAddr idx mf time true)
      ((c.withWritePolicy wp occupied busy).acceptMiss blockAddr mshrAddr idx mf time false) := by
  refine .bind (accessNoWriteback_withWritePolicy hclean blockAddr time idx (c.mfs mf))
    fun x y _ _ hxy => ?_
  obtain ⟨rfl, hta, hr⟩ := hxy
  refine .bind (.refl _) fun mshrs mshrs' _ _ hmshrs => .ok ?_
  subst hmshrs
  by_cases hdefer : cfg.deferHitResponse = true
  · have hdefer' : (cfg.withWritePolicy wp).deferHitResponse = true := hdefer
    simp only [if_pos hdefer, if_pos hdefer']
    refine ⟨rfl, ?_, hr⟩
    exact hta.of_update (b := (x.1.lines x.2.idx).pin) (hta x.2.idx) rfl
  · have hdefer' : ¬(cfg.withWritePolicy wp).deferHitResponse = true := hdefer
    simp only [if_neg hdefer, if_neg hdefer']
    exact ⟨rfl, hta, hr⟩

/-- The read miss handlers. -/
theorem sendReadRequest_alike (blockAddr : NewAddrType) (idx : ℕ) (mf : Token) (time : Time)
    (events : List CacheEvent) :
    Agree (fun x y => y = (x.1.withWritePolicy wp occupied busy, x.2) ∧ x.1.tagArray.Clean ∧
        x.2.evicted = none)
      (c.sendReadRequest blockAddr idx mf time events true false)
      ((c.withWritePolicy wp occupied busy).sendReadRequest blockAddr idx mf time events false
        false) := by
  unfold sendReadRequest
  refine .ite Iff.rfl (fun _ => ?_) fun _ => .ite Iff.rfl (fun _ => ?_) fun _ =>
    .ite Iff.rfl (fun _ => .ok ⟨rfl, hclean, rfl⟩) fun _ =>
      .ite Iff.rfl (fun _ => .ok ⟨rfl, hclean, rfl⟩) fun _ => .error _
  · refine .bind (acceptMiss_alike hclean occupied busy _ _ _ _ _) fun x y _ _ hxy => ?_
    obtain ⟨rfl, hta, hr⟩ := hxy
    exact .ok ⟨rfl, hta, hr⟩
  · refine .bind (acceptMiss_alike hclean occupied busy _ _ _ _ _) fun x y _ _ hxy => ?_
    obtain ⟨rfl, hta, hr⟩ := hxy
    exact .ok ⟨rfl, hta, hr⟩

/-- The branches for misses. -/
theorem rdMissBase_alike {mf : Token} (hroom : c.missQueue.length + 1 ≠ cfg.missQueueSize)
    (types : DataCacheTypes) (addr : NewAddrType) (idx : ℕ) (time : Time)
    (events : List CacheEvent) :
    Agree (fun x y => y = (x.1.withWritePolicy wp occupied busy, x.2) ∧ x.1.tagArray.Clean ∧
        (x.2.1 = .miss ∨ x.2.1 = .reservationFail))
      (if c.missQueueFull 0 then
        .ok (c.incFailStats (c.mfs mf) .missQueueFull, .reservationFail, events)
      else do
        let (c, r) ← c.sendReadRequest (cfg.blockAddr addr) idx mf time events true false
        return (c, if r.doMiss then .miss else .reservationFail, r.events))
      ((c.withWritePolicy wp occupied busy).rdMissBase types addr idx mf time events) := by
  have hfull : (c.withWritePolicy wp occupied busy).missQueueFull 1 = true ↔
      c.missQueueFull 0 = true := by
    simp only [missQueueFull, decide_eq_true_eq]
    change cfg.missQueueSize ≤ c.missQueue.length + 1 ↔ _
    omega
  refine .ite hfull (fun _ => .ok ⟨rfl, hclean, Or.inr rfl⟩) fun _ => .bind
    (sendReadRequest_alike hclean occupied busy _ _ _ _ _) fun x y _ _ hxy => ?_
  obtain ⟨rfl, hta, hr⟩ := hxy
  cases hmiss : x.2.doMiss with
  | true =>
      simp only [hmiss, if_true, sendWriteback, hr]
      exact .ok ⟨rfl, hta, Or.inl rfl⟩
  | false =>
      simp only [hmiss, Bool.false_eq_true, if_false]
      exact .ok ⟨rfl, hta, Or.inr rfl⟩

omit hclean in
/-- The data port takes any request of a data cache. -/
theorem useDataPort_returns {status : CacheRequestStatus} (hstatus : status ≠ .mshrHit)
    (m : MemFetch) (events : List CacheEvent) :
    ∃ n, c.useDataPort m status events = .ok { c with dataPortOccupiedCycles := n } := by
  unfold useDataPort
  cases status with
  | hit => exact ⟨_, rfl⟩
  | sectorMiss => exact ⟨c.dataPortOccupiedCycles, rfl⟩
  | reservationFail => exact ⟨c.dataPortOccupiedCycles, rfl⟩
  | mshrHit => exact absurd rfl hstatus
  | miss | hitReserved =>
      simp only
      cases wasWritebackSent events with
      | some ev => exact ⟨_, rfl⟩
      | none => exact ⟨c.dataPortOccupiedCycles, rfl⟩

/-- The branches for hits: the response may be queued, and a data cache uses the data port. -/
theorem hit_alike {addr : NewAddrType} {mf : Token} {p : ProbeResult}
    (hp : c.Probes addr (c.mfs mf) p) (hhit : p.status = .hit)
    (hqueue : ¬(cfg.deferHitResponse && c.hitResponseQueueFull) = true) (types : DataCacheTypes)
    (time : Time) (events : List CacheEvent) :
    Agree (fun x y => x.1.Alike y.1 ∧ x.1.tagArray.Clean ∧ y.2 = x.2)
      (c.readOnlyTagProbe p addr mf time events)
      ((c.withWritePolicy wp occupied busy).processTagProbe types false p.status addr p.idx mf time
        events) := by
  have hqueue' : ¬(p.status = .hit ∧ (cfg.withWritePolicy wp).deferHitResponse = true ∧
      (c.withWritePolicy wp occupied busy).hitResponseQueueFull = true) := by
    rintro ⟨-, hdefer, hfull⟩
    exact hqueue (Bool.and_eq_true_iff.2 ⟨hdefer, hfull⟩)
  unfold readOnlyTagProbe processTagProbe
  dsimp only
  rw [if_pos hhit, if_neg hqueue, if_neg hqueue']
  unfold callHandler rdHitBase
  simp only [Bool.false_eq_true, if_false, if_pos hhit]
  rw [bind_assoc]
  refine .bind (accessNoWriteback_alike hclean _ _ _ _) fun x y hx _ hxy => ?_
  obtain ⟨rfl, hta⟩ := hxy
  obtain ⟨ta, r⟩ := x
  obtain ⟨hstatus, hidx⟩ : r.status = .hit ∧ r.idx = p.idx := by
    obtain ⟨p', hp', -, hs, hi, -⟩ := TagArray.access_eq_ok (TagArray.accessNoWriteback_eq_ok hx)
    rw [TagArray.probe_idx hp (by simp [hhit]) p.idx] at hp'
    rw [hs, hi, ← Except.ok.inj hp']
    exact ⟨hhit, rfl⟩
  simp only [pure_bind, hstatus, hidx, hhit, true_and, and_true, decide_true, Bool.and_true]
  have hport : ∀ c₁ : Cache cfg, c₁.tagArray.Clean →
      Agree (fun x y => x.1.Alike y.1 ∧ x.1.tagArray.Clean ∧ y.2 = x.2)
        (.ok (c₁, .hit, events) : Step (Handled cfg))
        (do
          let c ← (c₁.withWritePolicy wp occupied busy).useDataPort (c₁.mfs mf) .hit events
          return (c, .hit, events)) := by
    intro c₁ hc₁
    have hne : CacheRequestStatus.hit ≠ .mshrHit := by simp
    obtain ⟨n, hn⟩ := useDataPort_returns (c := c₁.withWritePolicy wp occupied busy) hne (c₁.mfs mf)
      events
    rw [hn]
    exact .ok ⟨⟨n, busy, rfl⟩, hc₁, rfl⟩
  by_cases hdefer : cfg.deferHitResponse = true
  · have hdefer' : (cfg.withWritePolicy wp).deferHitResponse = true := hdefer
    simp only [if_pos hdefer, if_pos hdefer']
    exact hport (({ c with tagArray := ta } : Cache cfg).enqueueHitResponse mf p.idx)
      (hta.of_update (b := (ta.lines p.idx).pin) (hta p.idx) rfl)
  · have hdefer' : ¬(cfg.withWritePolicy wp).deferHitResponse = true := hdefer
    simp only [if_neg hdefer, if_neg hdefer']
    exact hport { c with tagArray := ta } hta

/-- Before the outcome is counted. -/
theorem tagProbe_alike {addr : NewAddrType} {mf : Token} {p : ProbeResult}
    (hp : c.Probes addr (c.mfs mf) p)
    (hroom : c.missQueue.length + 1 ≠ cfg.missQueueSize) (types : DataCacheTypes) (time : Time)
    (events : List CacheEvent) :
    Agree (fun x y => x.1.Alike y.1 ∧ x.1.tagArray.Clean ∧ y.2 = x.2)
      (c.readOnlyTagProbe p addr mf time events)
      ((c.withWritePolicy wp occupied busy).processTagProbe types false p.status addr p.idx mf time
        events) := by
  by_cases hhit : p.status = .hit
  · by_cases hqueue : (cfg.deferHitResponse && c.hitResponseQueueFull) = true
    · obtain ⟨hdefer, hfull⟩ := Bool.and_eq_true_iff.1 hqueue
      unfold readOnlyTagProbe processTagProbe
      dsimp only
      rw [if_pos hhit, if_pos hqueue, if_pos ⟨hhit, hdefer, hfull⟩]
      exact .ok ⟨⟨_, _, rfl⟩, hclean, rfl⟩
    · exact hit_alike hclean occupied busy hp hhit hqueue types time events
  · unfold readOnlyTagProbe processTagProbe callHandler
    simp only [hhit, false_and, if_false, Bool.false_eq_true]
    by_cases hfail : p.status = .reservationFail
    · simp only [hfail, ne_eq, not_true_eq_false, if_false]
      exact .ok ⟨⟨_, _, rfl⟩, hclean, rfl⟩
    · simp only [ne_eq, hfail, not_false_eq_true, if_true]
      refine (rdMissBase_alike hclean occupied busy hroom types addr p.idx time
        events).bind_right ?_
      rintro ⟨c₁, status, events₁⟩ _ - ⟨rfl, hta, hstatus⟩
      have hne : status ≠ .mshrHit := by rcases hstatus with rfl | rfl <;> simp
      obtain ⟨n, hn⟩ := useDataPort_returns (c := c₁.withWritePolicy wp occupied busy)
        hne (c₁.mfs mf)
        events₁
      refine ⟨({ c₁.withWritePolicy wp occupied busy with dataPortOccupiedCycles := n }, status,
        events₁), ?_, ⟨n, busy, rfl⟩, hta, rfl⟩
      exact bind_eq_ok.2 ⟨_, hn, rfl⟩

/-- **A read does the same to both caches.** -/
theorem access_alike {addr : NewAddrType} {mf : Token} (hro : cfg.writePolicy = .readOnly)
    (hwp : wp ≠ .readOnly) (hread : (c.mfs mf).isWrite = false)
    (hroom : c.missQueue.length + 1 ≠ cfg.missQueueSize) (types : DataCacheTypes) (time : Time)
    (events : List CacheEvent) :
    Agree (fun x y => x.1.Alike y.1 ∧ x.1.tagArray.Clean ∧ y.2 = x.2)
      (c.access .readOnlyCache addr mf time events)
      ((c.withWritePolicy wp occupied busy).access (.dataCache types) addr mf time events) := by
  refine .bind (.refl _) fun _ _ _ _ _ => .skip_left (assertThat_of _ hro)
    (.skip_left (assertThat_of _ hread) (.skip_right (assertThat_of _ hwp) ?_))
  have hprobe : Agree (fun x y => y = (x.1.withWritePolicy wp occupied busy, x.2))
      (c.probeTags addr (c.mfs mf))
      ((c.withWritePolicy wp occupied busy).probeTags addr (c.mfs mf)) := by
    refine .bind (.of_eq (c.tagArray.probe_withWritePolicy wp _ _ _ _)) fun p p' _ _ hp => .ok ?_
    rw [hp]
    rfl
  refine .bind hprobe fun x y hx _ hxy => ?_
  subst hxy
  obtain ⟨c₁, p⟩ := x
  obtain ⟨hc₁, hp⟩ := probeTags_eq_ok hx
  have hclean₁ : c₁.tagArray.Clean := by
    rw [hc₁]
    exact hclean
  have hroom₁ : c₁.missQueue.length + 1 ≠ cfg.missQueueSize := by
    rw [hc₁]
    exact hroom
  have hmfs : c.mfs mf = c₁.mfs mf := by rw [hc₁]
  have hwrite : ((c.withWritePolicy wp occupied busy).mfs mf).isWrite = false := hread
  rw [hmfs] at hp
  simp only [hwrite]
  refine .bind (tagProbe_alike hclean₁ occupied busy hp hroom₁ types time events)
    fun x y _ _ hxy => ?_
  obtain ⟨⟨occupied', busy', hy⟩, hta, heq⟩ := hxy
  obtain ⟨c₂, status, events'⟩ := x
  obtain ⟨c₂', status', events''⟩ := y
  cases heq
  cases hy
  exact .ok ⟨⟨occupied', busy', rfl⟩, hta, rfl⟩

/-! ### The other methods -/

theorem cycle_alike (memportFull : Bool) :
    Agree (fun x y => x.1.Alike y.1 ∧ x.1.tagArray.Clean ∧ y.2 = x.2) (c.cycle memportFull)
      ((c.withWritePolicy wp occupied busy).cycle memportFull) := by
  refine .bind (.refl _) fun x y _ _ hxy => .ok ?_
  subst hxy
  cases hq : c.missQueue with
  | nil =>
      have hq' : (c.withWritePolicy wp occupied busy).missQueue = [] := hq
      simp only [hq']
      exact ⟨⟨_, _, rfl⟩, hclean, trivial⟩
  | cons mf rest =>
      have hq' : (c.withWritePolicy wp occupied busy).missQueue = mf :: rest := hq
      cases memportFull <;> simp only [hq'] <;> exact ⟨⟨_, _, rfl⟩, hclean, rfl⟩

theorem fillComplete_alike (hon : cfg.allocPolicy = .onMiss) (mf : Token) (time : Time) :
    Agree (fun x y => x.Alike y ∧ x.tagArray.Clean) (c.fillComplete mf time)
      ((c.withWritePolicy wp occupied busy).fillComplete mf time) := by
  have hon' : (cfg.withWritePolicy wp).allocPolicy = .onMiss := hon
  unfold fillComplete
  cases he : c.extraMfFields.lookup mf with
  | none =>
      have he' : (c.withWritePolicy wp occupied busy).extraMfFields.lookup mf = none := he
      simp only [he']
      exact .error _
  | some e =>
      have he' : (c.withWritePolicy wp occupied busy).extraMfFields.lookup mf = some e := he
      simp only [he', hon, hon']
      refine .bind (.refl _) fun _ _ _ _ _ => ?_
      have hfill : ∀ m : MemFetch, Agree (fun x y => y = x.withWritePolicy wp ∧ x.Clean)
          (c.tagArray.fillIndex e.cacheIndex m)
          ((c.tagArray.withWritePolicy wp).fillIndex e.cacheIndex m) := by
        intro m
        have hagree : Agree (fun x y => y = x.withWritePolicy wp)
            (c.tagArray.fillIndex e.cacheIndex m)
            ((c.tagArray.withWritePolicy wp).fillIndex e.cacheIndex m) := by
          refine .bind (.refl _) fun _ _ _ _ _ => .bind (.refl _) fun i i' _ _ hi => .ok ?_
          subst hi
          unfold TagArray.fillLine
          dsimp only
          split
          · next h =>
              split
              · rfl
              · next h' => exact absurd h h'
          · next h =>
              split
              · next h' => exact absurd h' h
              · rfl
        refine hagree.mono fun ta ta' hta _ heq => ⟨heq, ?_⟩
        exact hclean.of_update ((hclean e.cacheIndex).fill _ _) (TagArray.fillIndex_eq_ok hta).2
      refine .bind (hfill _) fun ta ta' _ _ hta => .bind (.refl _) fun t t' _ _ ht => ?_
      obtain ⟨rfl, hta⟩ := hta
      subst ht
      exact .ok ⟨⟨_, _, rfl⟩, hta⟩

theorem fill_alike (hon : cfg.allocPolicy = .onMiss) (mf : Token) (time : Time) :
    Agree (fun x y => x.Alike y ∧ x.tagArray.Clean) (c.fill mf time)
      ((c.withWritePolicy wp occupied busy).fill mf time) := by
  unfold fill
  refine .ite Iff.rfl (fun _ => ?_) fun _ => fillComplete_alike hclean occupied busy hon mf time
  cases horiginal : (c.mfs mf).originalMf with
  | none =>
      have horiginal' : ((c.withWritePolicy wp occupied busy).mfs mf).originalMf = none := horiginal
      simp only [horiginal']
      exact .error _
  | some original =>
      have horiginal' : ((c.withWritePolicy wp occupied busy).mfs mf).originalMf = some original :=
        horiginal
      simp only [horiginal']
      cases he : c.extraMfFields.lookup original with
      | none =>
          have he' : (c.withWritePolicy wp occupied busy).extraMfFields.lookup original = none := he
          simp only [he']
          exact .error _
      | some e =>
          have he' : (c.withWritePolicy wp occupied busy).extraMfFields.lookup original = some e :=
            he
          simp only [he']
          refine .ite Iff.rfl (fun _ => .ok ⟨⟨_, _, rfl⟩, hclean⟩) fun _ => ?_
          let waited : ExtraMfFields := { e with pendingRead := e.pendingRead - 1 }
          let c₁ : Cache cfg := { c with extraMfFields := c.extraMfFields.insert original waited }
          exact fillComplete_alike (c := c₁) hclean occupied busy hon original time

theorem unpinResponse_alike (mf : Token) :
    Agree (fun x y => x.Alike y ∧ x.tagArray.Clean) (c.unpinResponse mf)
      ((c.withWritePolicy wp occupied busy).unpinResponse mf) := by
  unfold unpinResponse
  cases hidx : c.pendingResponseIndices.lookup mf with
  | none =>
      have hidx' : (c.withWritePolicy wp occupied busy).pendingResponseIndices.lookup mf = none :=
        hidx
      simp only [hidx']
      exact .ok ⟨⟨_, _, rfl⟩, hclean⟩
  | some index =>
      have hidx' : (c.withWritePolicy wp occupied busy).pendingResponseIndices.lookup mf =
          some index := hidx
      simp only [hidx']
      refine .bind (.refl _) fun block block' hblock _ heq => .ok ⟨⟨occupied, busy, ?_⟩, ?_⟩
      · subst heq
        rfl
      · obtain ⟨_, -, hblock⟩ := bind_eq_ok.1 hblock
        cases hblock
        exact hclean.of_update (b := { c.tagArray.lines index with
          pendingResponseCount := (c.tagArray.lines index).pendingResponseCount - 1 })
          (hclean index) rfl

theorem nextAccess_alike :
    Agree (fun x y => x.1.Alike y.1 ∧ x.1.tagArray.Clean ∧ y.2 = x.2) c.nextAccess
      (c.withWritePolicy wp occupied busy).nextAccess := by
  unfold nextAccess
  refine .bind (.refl _) fun _ _ _ _ _ => ?_
  cases hq : c.readyResponseQueue with
  | nil =>
      have hq' : (c.withWritePolicy wp occupied busy).readyResponseQueue = [] := hq
      simp only [hq']
      refine .bind (.refl _) fun x y _ _ hxy => ?_
      subst hxy
      refine .bind (@unpinResponse_alike cfg wp { c with mshrs := y.1, readyResponseQueue :=
        [] } hclean
        occupied busy y.2) fun _ _ _ _ h => .ok ⟨h.1, h.2, rfl⟩
  | cons mf rest =>
      have hq' : (c.withWritePolicy wp occupied busy).readyResponseQueue = mf :: rest := hq
      simp only [hq']
      refine .bind (@unpinResponse_alike cfg wp { c with readyResponseQueue :=
        rest } hclean occupied
        busy mf) fun _ _ _ _ h => .ok ⟨h.1, h.2, rfl⟩

end Reads

end Cache

/-! ### In step -/

namespace System

variable {cfg : CacheConfig} {wp : WritePolicy}

/-- The two caches are alike and clean, and the lower levels hold the same requests. -/
structure Alike (sys : System cfg) (sys' : System (cfg.withWritePolicy wp)) : Prop where
  cache : sys.cache.Alike sys'.cache
  clean : sys.cache.tagArray.Clean
  below : sys'.below = sys.below

/-- Reads, cycles and responses; and never exactly one free slot in the miss queue when a read
comes, for instance always two or more. -/
def ReadPromise (st : System cfg × System (cfg.withWritePolicy wp)) : Op → Prop
  | .access _ m _ _ =>
      m.isWrite = false ∧ st.1.cache.missQueue.length + 1 ≠ cfg.missQueueSize
  | .flush => False
  | .invalidate => False
  | _ => True

instance (st : System cfg × System (cfg.withWritePolicy wp)) (o : Op) :
    Decidable (ReadPromise st o) := by
  induction o using Op.casesOn <;> unfold ReadPromise <;> infer_instance

/-- **Every call does the same to both caches.** -/
theorem perform_alike (hro : cfg.writePolicy = .readOnly) (hwp : wp ≠ .readOnly)
    (hon : cfg.allocPolicy = .onMiss) (types : DataCacheTypes) {sys : System cfg}
    {sys' : System (cfg.withWritePolicy wp)} (h : sys.Alike sys') {o : Op}
    (hpromise : ReadPromise (sys, sys') o) :
    Agree (fun x y => x.1.Alike y.1 ∧ y.2 = x.2) (sys.perform .readOnlyCache o)
      (sys'.perform (.dataCache types) o) := by
  obtain ⟨c, below⟩ := sys
  obtain ⟨c', below'⟩ := sys'
  obtain ⟨⟨occupied, busy, hcache⟩, hclean, hbelow⟩ := h
  dsimp only at hcache hclean hbelow
  subst hcache hbelow
  cases o with
  | access n m time events =>
      obtain ⟨hread, hroom⟩ := hpromise
      refine .bind (Cache.access_alike (c :=
        (⟨c, below'⟩ : System cfg).build n m) hclean occupied busy
        hro hwp ?_ hroom types time events) fun x y _ _ hxy => ?_
      · rw [build_mfs_caller]
        exact hread
      · obtain ⟨⟨occupied', busy', hy⟩, hta, heq⟩ := hxy
        obtain ⟨c₁, status, events'⟩ := x
        obtain ⟨c₁', status', events''⟩ := y
        cases heq
        cases hy
        exact .ok ⟨⟨⟨occupied', busy', rfl⟩, hta, rfl⟩, rfl⟩
  | cycle memportFull =>
      refine .bind (Cache.cycle_alike hclean occupied busy memportFull) fun x y _ _ hxy => ?_
      obtain ⟨hcache, hta, heq⟩ := hxy
      obtain ⟨c₁, pushed⟩ := x
      obtain ⟨c₁', pushed'⟩ := y
      cases heq
      exact .ok ⟨⟨hcache, hta, rfl⟩, rfl⟩
  | fill mf time =>
      exact .bind (Cache.fill_alike hclean occupied busy hon mf time) fun x y _ _ hxy =>
        .ok ⟨⟨hxy.1, hxy.2, rfl⟩, rfl⟩
  | fillChild n m time =>
      refine .bind (Cache.fill_alike (c :=
        (⟨c, below'⟩ : System cfg).build n m) hclean occupied busy
        hon (.caller n) time) fun x y _ _ hxy => ?_
      obtain ⟨⟨occupied', busy', hy⟩, hta⟩ := hxy
      subst hy
      cases m.originalMf with
      | none => exact .error _
      | some original => exact .ok ⟨⟨⟨occupied', busy', rfl⟩, hta, rfl⟩, rfl⟩
  | nextAccess =>
      refine .bind (Cache.nextAccess_alike hclean occupied busy) fun x y _ _ hxy => ?_
      obtain ⟨⟨occupied', busy', hy⟩, hta, heq⟩ := hxy
      obtain ⟨c₁, mf⟩ := x
      obtain ⟨c₁', mf'⟩ := y
      cases heq
      cases hy
      exact .ok ⟨⟨⟨occupied', busy', rfl⟩, hta, rfl⟩, rfl⟩
  | flush => exact absurd hpromise id
  | invalidate => exact absurd hpromise id
  | retire mf => exact .ok ⟨⟨⟨occupied, busy, rfl⟩, hclean, rfl⟩, rfl⟩

end System

/-- **The two classes stay in step.**  Take a string that `init` accepts for a read-only cache that
allocates on misses.  With the policy `WRITE_BACK` in its place `init` accepts it too, and a data
cache with that configuration, given the same reads, cycles, fills and `next_access` calls, does the
same in every run in which no read finds exactly one free slot in the miss queue: what is seen of
each call is the same, the status, the request that is pushed and the token that is returned
included; tags, MSHRs, queues and tables of outcomes are equal; and the next call fails in one cache
when it fails in the other. -/
theorem read_only_agrees_with_write_back {old c : CacheConfig} {t : ScannedConfig}
    (hinit : CacheConfig.init old { t with wp := 'R' } = .ok c) (hon : c.allocPolicy = .onMiss)
    (types : DataCacheTypes) (wrPercent : ℕ) (defer : Bool) (size : ℕ) :
    let cfg := c.setOptions wrPercent defer size
    CacheConfig.init old { t with wp := 'B' } = .ok (c.withWritePolicy .writeBack) ∧
    (c.withWritePolicy .writeBack).setOptions wrPercent defer size =
      cfg.withWritePolicy .writeBack ∧
    ∀ mfs trace st, Runs.Run
        (Lockstep.both (System.perform .readOnlyCache) (System.perform (.dataCache types)))
        System.ReadPromise
        (System.init cfg mfs, System.init (cfg.withWritePolicy .writeBack) mfs) trace st →
      (∀ b ∈ trace, b.2 = b.1) ∧
      st.2.cache.tagArray = st.1.cache.tagArray.withWritePolicy .writeBack ∧
      st.2.cache.mshrs = st.1.cache.mshrs ∧
      st.2.cache.missQueue = st.1.cache.missQueue ∧
      st.2.cache.hitResponseQueue = st.1.cache.hitResponseQueue ∧
      st.2.cache.readyResponseQueue = st.1.cache.readyResponseQueue ∧
      st.2.cache.pendingResponseIndices = st.1.cache.pendingResponseIndices ∧
      st.2.cache.extraMfFields = st.1.cache.extraMfFields ∧
      st.2.cache.stats.stats = st.1.cache.stats.stats ∧
      st.2.below = st.1.below ∧
      ∀ o, System.ReadPromise st o → Agree (fun x y => y.2 = x.2)
        (st.1.perform .readOnlyCache o) (st.2.perform (.dataCache types) o) := by
  intro cfg
  have hro : cfg.writePolicy = .readOnly := by
    obtain ⟨ct, -, h⟩ := bind_eq_ok.1 hinit
    obtain ⟨rp, -, h⟩ := bind_eq_ok.1 h
    obtain ⟨wp, hwp, h⟩ := bind_eq_ok.1 h
    cases hwp
    obtain ⟨ap, -, h⟩ := bind_eq_ok.1 h
    obtain ⟨mt, -, h⟩ := bind_eq_ok.1 h
    obtain ⟨wap, -, h⟩ := bind_eq_ok.1 h
    obtain ⟨_, -, h⟩ := bind_eq_ok.1 h
    obtain ⟨_, -, h⟩ := bind_eq_ok.1 h
    obtain ⟨_, -, h⟩ := bind_eq_ok.1 h
    obtain ⟨_, -, h⟩ := bind_eq_ok.1 h
    obtain ⟨sif, -, h⟩ := bind_eq_ok.1 h
    cases h
    rfl
  refine ⟨CacheConfig.init_writeBack hinit hon, rfl, fun mfs trace st hrun => ?_⟩
  have hinitial : (System.init cfg mfs).Alike
      (System.init (cfg.withWritePolicy .writeBack) mfs) :=
    ⟨⟨0, 0, rfl⟩, fun _ => CacheBlock.Clean.init, rfl⟩
  obtain ⟨halike, htrace⟩ := Lockstep.related_of_run
    (fun _ _ _ h hpromise => System.perform_alike hro (by simp) hon types h hpromise) hinitial hrun
  obtain ⟨occupied, busy, hcache⟩ := halike.cache
  refine ⟨htrace, ?_, ?_, ?_, ?_, ?_, ?_, ?_, ?_, halike.below, fun o hpromise => ?_⟩
  · rw [hcache]
    rfl
  · rw [hcache]
    rfl
  · rw [hcache]
    rfl
  · rw [hcache]
    rfl
  · rw [hcache]
    rfl
  · rw [hcache]
    rfl
  · rw [hcache]
    rfl
  · rw [hcache]
    rfl
  · exact (System.perform_alike hro (by simp) hon types halike hpromise).mono
      fun _ _ _ _ h => h.2

/-- Two reads of one block, whose data comes in one fill: both caches have an answer ready. -/
theorem read_only_agrees_with_write_back_merged_reads :
    ∃ c, CacheConfig.init CacheConfig.blank
        { CacheConfig.smallScan 'N' 'B' 'm' 'N' 2 with wp := 'R' } = .ok c ∧
      ∃ trace st, Runs.Run
        (Lockstep.both (System.perform .readOnlyCache) (System.perform (.dataCache .l1)))
        System.ReadPromise
        (System.init (c.setOptions 0 true 4) fun _ => MemFetch.load 0,
          System.init ((c.setOptions 0 true 4).withWritePolicy .writeBack) fun _ => MemFetch.load 0)
        trace st ∧
      trace.length = 5 ∧ (∀ b ∈ trace, b.2 = b.1) ∧
      st.1.cache.mshrs.accessReady = true ∧
      st.2.cache.mshrs.accessReady = true := by
  obtain ⟨c, hc⟩ : ∃ c, CacheConfig.init CacheConfig.blank
      { CacheConfig.smallScan 'N' 'B' 'm' 'N' 2 with wp := 'R' } = .ok c := ⟨_, rfl⟩
  have hon : c.allocPolicy = .onMiss := by
    cases hc
    rfl
  obtain ⟨trace, st, hrun, hlength, hready⟩ :
      ∃ trace st, Runs.Run
        (Lockstep.both (System.perform .readOnlyCache) (System.perform (.dataCache .l1)))
        System.ReadPromise
        (System.init (c.setOptions 0 true 4) fun _ => MemFetch.load 0,
          System.init ((c.setOptions 0 true 4).withWritePolicy .writeBack) fun _ => MemFetch.load 0)
        trace st ∧ trace.length = 5 ∧ st.1.cache.mshrs.accessReady = true := by
    cases hc
    exact Runs.exists_run_of_exec [.access 0 (MemFetch.load 0) 0 [],
      .access 1 (MemFetch.load 0) 1 [], .cycle false, .fill (.caller 0) 2, .nextAccess] (by decide)
  obtain ⟨-, -, hagree⟩ := read_only_agrees_with_write_back hc hon .l1 0 true 4
  obtain ⟨htrace, -, hmshrs, -⟩ := hagree _ trace st hrun
  exact ⟨c, hc, trace, st, hrun, hlength, htrace, hready, by rw [hmshrs]; exact hready⟩

end OpenCache
