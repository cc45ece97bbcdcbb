/-
`class tex_cache`: a texture cache, with its fragment FIFO, request FIFO, reorder buffer and result
FIFO between the tags and the data.

The tags take the block of a request at once, so an access is a hit or a miss for all later ones;
the data follow when the fragment of the request reaches the head of the fragment FIFO.  The
sizes of the FIFOs are fields that `cache_config` shares with the MSHRs: `m_fragment_fifo_entries`
is `m_mshr_entries`, `m_request_fifo_entries` is `m_mshr_max_merge`, and `m_rob_entries` is
`m_miss_queue_size`.

* `OpenCache.TexCache` — the state of a texture cache;
* `OpenCache.TexCache.access`, `OpenCache.TexCache.cycle`, `OpenCache.TexCache.fill` — its methods;
* `OpenCache.TexSystem`, `OpenCache.TexOp` — the cache with the requests below it, and the calls of
  the environment;
* `OpenCache.TexSystem.Promise` — what the environment promises.
-/

import OpenCache.RingBuffer
import OpenCache.Access
import OpenCache.Runs

set_option relaxedAutoImplicit false
set_option autoImplicit false

namespace OpenCache

/-! ### FIFOs -/

section Fifo

variable {α : Type} {size : ℕ}

/-- `fifo::push`, with the slot it returns. -/
def fifoPush (r : RingBuffer α size) (e : α) : Step (RingBuffer α size × ℕ) :=
  if h : r.num < size then .ok (r.push e h, r.head) else .error .fifoPushFull

/-- `fifo::pop`. -/
def fifoPop (r : RingBuffer α size) : Step (RingBuffer α size × α) :=
  if h : 0 < r.num then .ok (r.pop h, r.oldest h) else .error .fifoPopEmpty

/-- `fifo::peek(index)`. -/
def fifoPeek (r : RingBuffer α size) (index : ℕ) : Step α := do
  assertThat (index < size) .fifoPeekIndex
  match r.data index with
  | none => .error .fifoPeekUnwritten
  | some e => .ok e

theorem fifoPush_eq_ok {r r' : RingBuffer α size} {e : α} {i : ℕ}
    (h : fifoPush r e = .ok (r', i)) :
    r'.toList = r.toList ++ [e] ∧ i = r.slot r.num ∧ r'.num = r.num + 1 ∧
      ∀ k, r'.slot k = r.slot k := by
  unfold fifoPush at h
  split at h
  · next hnum =>
      cases h
      exact ⟨r.toList_push e hnum, r.head_eq_slot, rfl, fun _ => rfl⟩
  · cases h

theorem fifoPop_eq_ok {r r' : RingBuffer α size} {e : α} (h : fifoPop r = .ok (r', e)) :
    r.toList = e :: r'.toList ∧ ∀ k, r'.slot k = r.slot (k + 1) := by
  unfold fifoPop at h
  split at h
  · next hnum =>
      cases h
      exact ⟨r.toList_pop hnum, r.slot_pop hnum⟩
  · cases h

theorem fifoPush_of_not_full {r : RingBuffer α size} (h : r.full = false) (e : α) :
    ∃ r', fifoPush r e = .ok (r', r.slot r.num) := by
  have hnum : r.num < size := by
    have hne : r.num ≠ size := by simpa [RingBuffer.full] using h
    exact lt_of_le_of_ne r.num_le hne
  exact ⟨r.push e hnum, by rw [fifoPush, dif_pos hnum, r.head_eq_slot]⟩

theorem fifoPop_of_ne_nil {r : RingBuffer α size} (h : r.toList ≠ []) :
    ∃ r' e, fifoPop r = .ok (r', e) := by
  have hnum : 0 < r.num := Nat.pos_of_ne_zero fun hz => h (r.toList_eq_nil.2 hz)
  exact ⟨r.pop hnum, r.oldest hnum, dif_pos hnum⟩

/-- Peeking at the slot of an entry finds the entry. -/
theorem fifoPeek_slot {r : RingBuffer α size} {k : ℕ} {e : α} (h : r.toList[k]? = some e) :
    fifoPeek r (r.slot k) = .ok e := by
  rw [r.toList_getElem?] at h
  split at h
  · next hk =>
      have hsize : 0 < size := (Nat.zero_le k).trans_lt (hk.trans_le r.num_le)
      rw [fifoPeek, assertThat_of _ (r.slot_lt hsize k)]
      change (match r.data (r.slot k) with | none => _ | some e => _) = _
      rw [h]
  · cases h

end Fifo

/-! ### The state -/

/-- `fragment_entry`. -/
structure FragmentEntry where
  request : Token
  /-- Where to look for the data. -/
  cacheIndex : ℕ
  /-- A request was sent to memory. -/
  miss : Bool
  dataSize : ℕ

/-- `rob_entry`. -/
structure RobEntry where
  ready : Bool
  /-- The time at which the entry became ready. -/
  time : Time
  /-- Where in the cache the block goes. -/
  index : ℕ
  request : Token
  blockAddr : NewAddrType

/-- `data_block`. -/
structure DataBlock where
  valid : Bool
  blockAddr : NewAddrType
  deriving DecidableEq

/-- `tex_cache::extra_mf_fields`. -/
structure TexExtraMfFields where
  valid : Bool
  robIndex : ℕ
  pendingRead : BitVec 32

/-- The constructor of `tex_cache::extra_mf_fields`. -/
def TexExtraMfFields.new (cfg : CacheConfig) (robIndex : ℕ) : TexExtraMfFields where
  valid := true
  robIndex := robIndex
  pendingRead :=
    if cfg.mshrType = .sectorTexFifo then BitVec.ofNat 32 (cfg.lineSz / sectorSize) else 0

/-- What the constructor of `tex_cache` asserts. -/
structure CacheConfig.Texture (cfg : CacheConfig) : Prop where
  mshrType : cfg.mshrType = .texFifo ∨ cfg.mshrType = .sectorTexFifo
  writePolicy : cfg.writePolicy = .readOnly
  allocPolicy : cfg.allocPolicy = .onMiss

/-- `<ct>:1:128:<assoc>,L:R:<ap>:N:L,<mt>:4:4,4:4`. -/
def CacheConfig.smallTextureScan (ct ap mt : Char) (assoc : ℕ) : ScannedConfig where
  ct
  nset := 1
  lineSz := 128
  assoc
  rp := 'L'
  wp := 'R'
  ap
  wap := 'N'
  sif := 'L'
  mshrType := mt
  mshrEntries := 4
  mshrMaxMerge := 4
  missQueueSize := some 4
  resultFifoEntries := some 4
  dataPortWidth := none

/-- A small texture cache. -/
def CacheConfig.smallTexture (ct ap mt : Char) (assoc : ℕ) : CacheConfig :=
  match init blank (smallTextureScan ct ap mt assoc) with
  | .ok c => c
  | .error _ => blank

theorem CacheConfig.smallTexture_accepted {ct ap mt : Char} {assoc : ℕ}
    (h : (init blank (smallTextureScan ct ap mt assoc)).isOk = true) :
    (smallTexture ct ap mt assoc).Accepted := by
  cases hinit : init blank (smallTextureScan ct ap mt assoc) with
  | error e =>
      rw [hinit] at h
      cases h
  | ok c =>
      refine ⟨blank, _, c, c.wrPercent, c.deferHitResponse, c.hitResponseQueueSize, hinit, ?_⟩
      rw [smallTexture, hinit]
      rfl

/-- The state of a texture cache, with the objects of the requests. -/
structure TexCache (cfg : CacheConfig) where
  tags : TagArray cfg
  fragmentFifo : RingBuffer FragmentEntry cfg.mshrEntries
  requestFifo : RingBuffer Token cfg.mshrMaxMerge
  rob : RingBuffer RobEntry cfg.missQueueSize
  cache : ℕ → DataBlock
  resultFifo : RingBuffer Token cfg.resultFifoEntries
  extraMfFields : AList fun _ : Token => TexExtraMfFields
  stats : CacheStats
  mfs : Token → MemFetch

namespace TexCache

variable {cfg : CacheConfig}

/-- The constructor, after its assertions. -/
def init (cfg : CacheConfig) (mfs : Token → MemFetch) : TexCache cfg where
  tags := TagArray.init cfg
  fragmentFifo := .empty _ _
  requestFifo := .empty _ _
  rob := .empty _ _
  cache := fun _ => ⟨false, 0⟩
  resultFifo := .empty _ _
  extraMfFields := ∅
  stats := CacheStats.init
  mfs := mfs

/-! ### Access -/

/-- The branch of `access` on a miss: it sends a request to memory and marks the block as valid. -/
def sendRequest (c : TexCache cfg) (cacheIndex : ℕ) (mf : Token) (blockAddr : NewAddrType)
    (events : List CacheEvent) : Step (TexCache cfg × CacheRequestStatus × List CacheEvent) := do
  let (rob, robIndex) ← fifoPush c.rob ⟨false, 0, cacheIndex, mf, blockAddr⟩
  let m := { c.mfs mf with dataSize := cfg.lineSz }
  let tags ← c.tags.fillIndex cacheIndex m
  let (requestFifo, _) ← fifoPush c.requestFifo mf
  return ({ c with
    tags, rob, requestFifo
    extraMfFields := c.extraMfFields.insert mf (TexExtraMfFields.new cfg robIndex)
    mfs := Function.update c.mfs mf m }, .miss, events ++ [CacheEvent.ofType .readRequestSent])

/-- The branches of `access` on the status of the tags. -/
def answer (c : TexCache cfg) (r : AccessResult) (mf : Token) (blockAddr : NewAddrType)
    (events : List CacheEvent) : Step (TexCache cfg × CacheRequestStatus × List CacheEvent) :=
  if r.status = .miss then c.sendRequest r.idx mf blockAddr events
  -- the value will be in the cache already
  else .ok (c, .hitReserved, events)

/-- The statistics at the end of `access`. -/
def countAccess (c : TexCache cfg) (m : MemFetch) (status cacheStatus : CacheRequestStatus) :
    TexCache cfg :=
  let outcome := selectStatsStatus status cacheStatus
  let stats := c.stats.incStats m.accessType outcome m.streamID
  { c with stats := stats.incStatsPw m.accessType outcome m.streamID }

/-- `access`.  It never returns `HIT`: the data of a hit are there only when its fragment reaches
the head of the fragment FIFO. -/
def access (c : TexCache cfg) (addr : NewAddrType) (mf : Token) (time : Time)
    (events : List CacheEvent) : Step (TexCache cfg × CacheRequestStatus × List CacheEvent) :=
  if c.fragmentFifo.full || c.requestFifo.full || c.rob.full then
    .ok (c, .reservationFail, events)
  else do
    let m := c.mfs mf
    assertThat (m.dataSize ≤ cfg.lineSz) .texAccessDataSize
    -- the request is accepted: access the tags and allocate the line at once
    let (tags, r) ← c.tags.accessNoWriteback (cfg.blockAddr addr) time Cache.noIndex m
    assertThat (r.status ≠ .reservationFail) .texAccessReservationFail
    assertThat (r.status ≠ .hitReserved) .texAccessHitReserved
    let (fragmentFifo, _) ←
      fifoPush c.fragmentFifo ⟨mf, r.idx, decide (r.status = .miss), m.dataSize⟩
    let (c, cacheStatus, events) ←
      { c with tags, fragmentFifo }.answer r mf (cfg.blockAddr addr) events
    return (c.countAccess m r.status cacheStatus, cacheStatus, events)

/-! ### Cycle -/

/-- The first half of `cycle`: send the next request to memory, unless the memory port is full. -/
def sendToMemory (c : TexCache cfg) (memportFull : Bool) : Step (TexCache cfg × Option Token) :=
  match c.requestFifo.first? with
  | none => .ok (c, none)
  | some mf =>
      if memportFull then .ok (c, none)
      else do
        let (requestFifo, _) ← fifoPop c.requestFifo
        return ({ c with requestFifo }, some mf)

/-- A miss at the head of the fragment FIFO: when its data are back, they go into the cache. -/
def retireMiss (c : TexCache cfg) (e : FragmentEntry) : Step (TexCache cfg) := do
  let r ← fifoPeek c.rob c.rob.tail
  assertThat (r.request = e.request) .texCycleRobRequest
  if r.ready then do
    assertThat (r.index = e.cacheIndex) .texCycleRobIndex
    let (resultFifo, _) ← fifoPush c.resultFifo e.request
    let (rob, _) ← fifoPop c.rob
    let (fragmentFifo, _) ← fifoPop c.fragmentFifo
    return { c with
      cache := Function.update c.cache r.index ⟨true, r.blockAddr⟩
      resultFifo, rob, fragmentFifo }
  else return c

/-- A hit at the head of the fragment FIFO. -/
def retireHit (c : TexCache cfg) (e : FragmentEntry) : Step (TexCache cfg) := do
  assertThat ((c.cache e.cacheIndex).valid = true) .texCycleHitInvalid
  assertThat ((c.cache e.cacheIndex).blockAddr = cfg.blockAddr (c.mfs e.request).addr)
    .texCycleHitBlock
  let (resultFifo, _) ← fifoPush c.resultFifo e.request
  let (fragmentFifo, _) ← fifoPop c.fragmentFifo
  return { c with resultFifo, fragmentFifo }

/-- The second half of `cycle`: read a ready line from the cache. -/
def retireFragment (c : TexCache cfg) : Step (TexCache cfg) :=
  match c.fragmentFifo.first? with
  | none => .ok c
  | some e =>
      if c.resultFifo.full then .ok c
      else if e.miss then c.retireMiss e
      else c.retireHit e

/-- `cycle`. -/
def cycle (c : TexCache cfg) (memportFull : Bool) : Step (TexCache cfg × Option Token) := do
  let (c, pushed) ← c.sendToMemory memportFull
  let c ← c.retireFragment
  return (c, pushed)

/-! ### Responses -/

/-- The part of `fill` that follows the `SECTOR_TEX_FIFO` case. -/
def fillComplete (c : TexCache cfg) (mf : Token) (time : Time) : Step (TexCache cfg) :=
  match c.extraMfFields.lookup mf with
  | none => .error .texFillNotWaiting
  | some e => do
      assertThat (e.valid = true) .texFillNotValid
      assertThat (c.rob.isEmpty = false) .texFillRobEmpty
      let r ← fifoPeek c.rob e.robIndex
      assertThat (r.ready = false) .texFillReady
      assertThat (r.blockAddr = cfg.blockAddr (c.mfs mf).addr) .texFillBlock
      return { c with
        rob := c.rob.modify e.robIndex fun r => { r with ready := true, time }
        extraMfFields := c.extraMfFields.erase mf }

/-- `fill`.  In a `SECTOR_TEX_FIFO` cache every response is a child of the request, and only the
last one completes it. -/
def fill (c : TexCache cfg) (mf : Token) (time : Time) : Step (TexCache cfg) :=
  if cfg.mshrType = .sectorTexFifo then
    match (c.mfs mf).originalMf with
    | none => .error .texFillNoOriginal
    | some original =>
        match c.extraMfFields.lookup original with
        | none => .error .texFillNotWaiting
        | some e =>
            let e := { e with pendingRead := e.pendingRead - 1 }
            let c := { c with extraMfFields := c.extraMfFields.insert original e }
            -- wait for the other requests to come back
            if 0 < e.pendingRead.toNat then .ok c else c.fillComplete original time
  else c.fillComplete mf time

/-- `access_ready`. -/
def accessReady (c : TexCache cfg) : Bool := !c.resultFifo.isEmpty

/-- `next_access`. -/
def nextAccess (c : TexCache cfg) : Step (TexCache cfg × Token) := do
  let (resultFifo, mf) ← fifoPop c.resultFifo
  return ({ c with resultFifo }, mf)

/-- `invalidate`. -/
def invalidate (c : TexCache cfg) : TexCache cfg :=
  { c with
    tags := c.tags.invalidate
    cache := fun i => if i < cfg.getNumLines then ⟨false, 0⟩ else c.cache i }

end TexCache

/-! ### The environment -/

/-- A texture cache, and the requests it has pushed that wait for their response. -/
structure TexSystem (cfg : CacheConfig) where
  cache : TexCache cfg
  below : List Token

/-- The calls of the environment.  An access comes with the object that the caller has built; a
child response with the object that the lower level has built. -/
inductive TexOp
  | access (n : ℕ) (m : MemFetch) (time : Time) (events : List CacheEvent)
  | cycle (memportFull : Bool)
  | fill (mf : Token) (time : Time)
  | fillChild (n : ℕ) (m : MemFetch) (time : Time)
  | nextAccess
  | invalidate

/-- What is seen of a call. -/
inductive TexObs
  | access (mf : Token) (status : CacheRequestStatus)
  | cycle (pushed : Option Token)
  | fill (mf : Token)
  | nextAccess (mf : Token)
  | invalidate

namespace TexSystem

variable {cfg : CacheConfig}

/-- The initial state, with any objects the environment has built. -/
def init (cfg : CacheConfig) (mfs : Token → MemFetch) : TexSystem cfg :=
  ⟨TexCache.init cfg mfs, []⟩

/-- The requests that were accepted and not yet returned, oldest first. -/
def inFlight (sys : TexSystem cfg) : List Token :=
  sys.cache.resultFifo.toList ++ sys.cache.fragmentFifo.toList.map FragmentEntry.request

/-- Build the object that a pointer of the environment points to. -/
def build (sys : TexSystem cfg) (n : ℕ) (m : MemFetch) : TexCache cfg :=
  { sys.cache with mfs := Function.update sys.cache.mfs (.caller n) m }

/-- The response to a request is complete. -/
def completed (c : TexCache cfg) (mf : Token) : Bool := (c.extraMfFields.lookup mf).isNone

/-- One call. -/
def perform (sys : TexSystem cfg) : TexOp → Step (TexSystem cfg × TexObs)
  | .access n m time events => do
      let (c, status, _) ← (sys.build n m).access m.addr (.caller n) time events
      return (⟨c, sys.below⟩, .access (.caller n) status)
  | .cycle memportFull => do
      let (c, pushed) ← sys.cache.cycle memportFull
      return (⟨c, sys.below ++ pushed.toList⟩, .cycle pushed)
  | .fill mf time => do
      let c ← sys.cache.fill mf time
      return (⟨c, sys.below.erase mf⟩, .fill mf)
  | .fillChild n m time => do
      let c ← (sys.build n m).fill (.caller n) time
      match m.originalMf with
      | none => .error .texFillNoOriginal
      | some original =>
          return (⟨c, if completed c original then sys.below.erase original else sys.below⟩,
            .fill original)
  | .nextAccess => do
      let (c, mf) ← sys.cache.nextAccess
      return (⟨c, sys.below⟩, .nextAccess mf)
  | .invalidate => return (⟨sys.cache.invalidate, sys.below⟩, .invalidate)

/-- What the environment promises about its calls: a request that is in flight is not submitted
again, a fill answers a request that was pushed and waits, and `next_access` is called only when
`access_ready`.  In a `SECTOR_TEX_FIFO` cache a response is a new object, a child of the request it
answers; in a `TEX_FIFO` cache it is the request itself. -/
def Promise (sys : TexSystem cfg) : TexOp → Prop
  | .access n _ _ _ => .caller n ∉ sys.inFlight
  | .cycle _ => True
  | .fill mf _ => cfg.mshrType ≠ .sectorTexFifo ∧ mf ∈ sys.below
  | .fillChild n m _ =>
      cfg.mshrType = .sectorTexFifo ∧ .caller n ∉ sys.inFlight ∧
        ∃ original ∈ m.originalMf, original ∈ sys.below
  | .nextAccess => sys.cache.accessReady = true
  | .invalidate => True

instance (sys : TexSystem cfg) (o : TexOp) : Decidable (sys.Promise o) := by
  induction o using TexOp.casesOn <;> unfold Promise <;> infer_instance

/-- The runs of a texture cache under a promise. -/
abbrev Run (promise : TexSystem cfg → TexOp → Prop) :
    TexSystem cfg → List TexObs → TexSystem cfg → Prop :=
  Runs.Run perform promise

end TexSystem

end OpenCache
