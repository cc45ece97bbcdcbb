/-
`class baseline_cache`: the part that `read_only_cache` and `data_cache` share.

A cache owns a tag array and an MSHR table, queues the requests it sends down in the miss queue,
remembers what it has rewritten in a request in `m_extra_mf_fields`, and with deferred hit responses
sends every hit through the hit response queue and pins the line of every accepted request.  The
objects that `mem_fetch *` point to are the map `mfs`; the caller and the cache both write it.

* `OpenCache.Cache` — the members of `baseline_cache`;
* `OpenCache.Cache.sendReadRequest` — the read miss handler;
* `OpenCache.Cache.cycle`, `OpenCache.Cache.fill`, `OpenCache.Cache.nextAccess` — the public methods
  other than `access`.
-/

import OpenCache.TagArray
import OpenCache.Stats
import OpenCache.Mshr

set_option relaxedAutoImplicit false
set_option autoImplicit false

namespace OpenCache

/-! ### The members -/

/-- `struct extra_mf_fields`. -/
structure ExtraMfFields where
  valid : Bool
  blockAddr : NewAddrType
  addr : NewAddrType
  cacheIndex : ℕ
  dataSize : ℕ
  pendingRead : BitVec 32

/-- The constructor of `extra_mf_fields`. -/
def ExtraMfFields.new (cfg : CacheConfig) (a ad : NewAddrType) (i d : ℕ) : ExtraMfFields where
  valid := true
  blockAddr := a
  addr := ad
  cacheIndex := i
  dataSize := d
  pendingRead := if cfg.mshrType = .sectorAssoc then BitVec.ofNat 32
    (cfg.lineSz / sectorSize) else 0

/-- `struct delayed_response_entry`. -/
structure DelayedResponseEntry where
  mf : Token
  remainingCycles : ℕ

/-- The members of a `baseline_cache` with configuration `cfg`, the objects behind the `mem_fetch`
pointers, and the number of such objects the cache has allocated. -/
structure Cache (cfg : CacheConfig) where
  tagArray : TagArray cfg
  mshrs : MshrTable cfg.mshrEntries cfg.mshrMaxMerge
  missQueue : List Token
  extraMfFields : AList fun _ : Token => ExtraMfFields
  hitResponseQueue : List DelayedResponseEntry
  readyResponseQueue : List Token
  pendingResponseIndices : AList fun _ : Token => ℕ
  stats : CacheStats
  dataPortOccupiedCycles : ℕ
  fillPortOccupiedCycles : ℕ
  mfs : Token → MemFetch
  created : ℕ

namespace Cache

variable {cfg : CacheConfig}

/-- The constructor, with the objects that the caller has built so far. -/
def init (cfg : CacheConfig) (mfs : Token → MemFetch) : Cache cfg where
  tagArray := TagArray.init cfg
  mshrs := MshrTable.init _ _
  missQueue := []
  extraMfFields := ∅
  hitResponseQueue := []
  readyResponseQueue := []
  pendingResponseIndices := ∅
  stats := CacheStats.init
  dataPortOccupiedCycles := 0
  fillPortOccupiedCycles := 0
  mfs
  created := 0

/-- `new mem_fetch`. -/
def newMemFetch (c : Cache cfg) (mf : MemFetch) : Cache cfg × Token :=
  ({ c with mfs := Function.update c.mfs (.created c.created) mf, created := c.created + 1 },
    .created c.created)

/-- `m_tag_array->get_block`. -/
def getBlock (c : Cache cfg) (cacheIndex : ℕ) : CacheBlock cfg.cacheType :=
  c.tagArray.lines cacheIndex

/-- Write back a block that `get_block` has returned a pointer to. -/
def setBlock (c : Cache cfg) (cacheIndex : ℕ) (block : CacheBlock cfg.cacheType) : Cache cfg :=
  { c with tagArray := c.tagArray.setLine cacheIndex block }

/-- `m_stats.inc_fail_stats` for a request. -/
def incFailStats (c : Cache cfg) (mf : MemFetch) (reason : CacheReservationFailReason) :
    Cache cfg :=
  { c with stats := c.stats.incFailStats mf.accessType reason mf.streamID }

/-! ### Ports -/

/-- `bandwidth_management::use_data_port`. -/
def useDataPort (c : Cache cfg) (mf : MemFetch) (outcome : CacheRequestStatus)
    (events : List CacheEvent) : Step (Cache cfg) :=
  let portWidth := cfg.dataPortWidth
  match outcome with
  | .hit =>
      let dataCycles := mf.dataSize / portWidth + if 0 < mf.dataSize % portWidth then 1 else 0
      .ok { c with dataPortOccupiedCycles := c.dataPortOccupiedCycles + dataCycles }
  | .hitReserved | .miss =>
      match wasWritebackSent events with
      | some ev =>
          let dataCycles := ev.evictedBlock.modifiedSize / portWidth
          .ok { c with dataPortOccupiedCycles := c.dataPortOccupiedCycles + dataCycles }
      | none => .ok c
  | .sectorMiss | .reservationFail => .ok c
  | .mshrHit => .error .useDataPortOutcome

/-- `bandwidth_management::use_fill_port`. -/
def useFillPort (c : Cache cfg) : Cache cfg :=
  { c with fillPortOccupiedCycles := c.fillPortOccupiedCycles + cfg.atomSz / cfg.dataPortWidth }

/-- `bandwidth_management::replenish_port_bandwidth`. -/
def replenishPortBandwidth (c : Cache cfg) : Cache cfg :=
  { c with
    dataPortOccupiedCycles := c.dataPortOccupiedCycles - 1
    fillPortOccupiedCycles := c.fillPortOccupiedCycles - 1 }

/-! ### Responses -/

/-- `miss_queue_full`. -/
def missQueueFull (c : Cache cfg) (numMiss : ℕ) : Bool :=
  cfg.missQueueSize ≤ c.missQueue.length + numMiss

/-- `hit_response_queue_full`. -/
def hitResponseQueueFull (c : Cache cfg) : Bool :=
  cfg.deferHitResponse && decide (cfg.hitResponseQueueSize ≤ c.hitResponseQueue.length)

/-- `access_ready`. -/
def accessReady (c : Cache cfg) : Bool :=
  !c.readyResponseQueue.isEmpty || c.mshrs.accessReady

/-- `waiting_for_fill`. -/
def waitingForFill (c : Cache cfg) (mf : Token) : Bool := (c.extraMfFields.lookup mf).isSome

/-- `hit_response_latency`. -/
def hitResponseLatency (cfg : CacheConfig) (mf : MemFetch) : ℕ :=
  let portWidth := cfg.dataPortWidth
  let cycles := mf.dataSize / portWidth + if 0 < mf.dataSize % portWidth then 1 else 0
  if cycles = 0 then 1 else cycles

/-- `pin_response`. -/
def pinResponse (c : Cache cfg) (mf : Token) (cacheIndex : ℕ) : Cache cfg :=
  { c.setBlock cacheIndex (c.getBlock cacheIndex).pin with
    pendingResponseIndices := c.pendingResponseIndices.insert mf cacheIndex }

/-- `unpin_response`. -/
def unpinResponse (c : Cache cfg) (mf : Token) : Step (Cache cfg) :=
  match c.pendingResponseIndices.lookup mf with
  | none => .ok c
  | some cacheIndex => do
      let block ← (c.getBlock cacheIndex).unpin
      return { c.setBlock cacheIndex block with
        pendingResponseIndices := c.pendingResponseIndices.erase mf }

/-- `enqueue_hit_response`. -/
def enqueueHitResponse (c : Cache cfg) (mf : Token) (cacheIndex : ℕ) : Cache cfg :=
  let c := c.pinResponse mf cacheIndex
  { c with hitResponseQueue := c.hitResponseQueue ++ [⟨mf, hitResponseLatency cfg (c.mfs mf)⟩] }

/-- `next_access`. -/
def nextAccess (c : Cache cfg) : Step (Cache cfg × Token) := do
  assertThat (c.accessReady = true) .nextAccessNotReady
  match c.readyResponseQueue with
  | mf :: rest =>
      let c ← { c with readyResponseQueue := rest }.unpinResponse mf
      return (c, mf)
  | [] =>
      let (mshrs, mf) ← c.mshrs.nextAccess
      let c ← { c with mshrs }.unpinResponse mf
      return (c, mf)

/-! ### Cycle and fill -/

/-- The loop of `cycle` over the hit response queue: the entries that stay, and the requests whose
delay has ended. -/
def tickHitResponses : List DelayedResponseEntry → Step (List DelayedResponseEntry × List Token)
  | [] => return ([], [])
  | e :: rest => do
      assertThat (0 < e.remainingCycles) .remainingCyclesZero
      let (waiting, done) ← tickHitResponses rest
      if e.remainingCycles - 1 = 0 then return (waiting, e.mf :: done)
      else return ({ e with remainingCycles := e.remainingCycles - 1 } :: waiting, done)

/-- `cycle`.  The memory port answers `full` for the first request of the miss queue; the request
that is pushed to it is returned. -/
def cycle (c : Cache cfg) (memportFull : Bool) : Step (Cache cfg × Option Token) := do
  let (waiting, done) ← tickHitResponses c.hitResponseQueue
  let c := { c with
    hitResponseQueue := waiting
    readyResponseQueue := c.readyResponseQueue ++ done }
  let (c, pushed) :=
    match c.missQueue with
    | mf :: rest => if memportFull then (c, none) else ({ c with missQueue := rest }, some mf)
    | [] => (c, none)
  let stats := c.stats.sampleCachePortUtility (c.dataPortOccupiedCycles ≠ 0)
    (c.fillPortOccupiedCycles ≠ 0)
  return ({ c with stats }.replenishPortBandwidth, pushed)

/-- The part of `fill` that follows the `SECTOR_ASSOC` case: the response to `mf` is complete. -/
def fillComplete (c : Cache cfg) (mf : Token) (time : Time) : Step (Cache cfg) := do
  match c.extraMfFields.lookup mf with
  | none => .error .fillNotWaiting
  | some e => do
      assertThat (e.valid = true) .fillNotValid
      let c := { c with
        mfs := Function.update c.mfs mf { c.mfs mf with dataSize := e.dataSize, addr := e.addr } }
      let m := c.mfs mf
      let tagArray ←
        match cfg.allocPolicy with
        | .onMiss => c.tagArray.fillIndex e.cacheIndex m
        | .onFill =>
            c.tagArray.fillAddr e.blockAddr time m.accessSectorMask m.accessByteMask m.isWrite
        | .streaming => .error .fillPolicy
      let mshrs ← c.mshrs.markReady e.blockAddr
      return { c with
        tagArray
        mshrs
        extraMfFields := c.extraMfFields.erase mf }.useFillPort

/-- `fill`.  In a `SECTOR_ASSOC` cache every response is a child of the request, and only the last
one completes it. -/
def fill (c : Cache cfg) (mf : Token) (time : Time) : Step (Cache cfg) :=
  if cfg.mshrType = .sectorAssoc then
    match (c.mfs mf).originalMf with
    | none => .error .fillNoOriginal
    | some original =>
        match c.extraMfFields.lookup original with
        | none => .error .fillNotWaiting
        | some e =>
            let e := { e with pendingRead := e.pendingRead - 1 }
            let c := { c with extraMfFields := c.extraMfFields.insert original e }
            -- wait for the other requests to come back
            if 0 < e.pendingRead.toNat then .ok c else c.fillComplete original time
  else c.fillComplete mf time

/-- `flush`. -/
def flush (c : Cache cfg) : Cache cfg := { c with tagArray := c.tagArray.flush }

/-- `invalidate`. -/
def invalidate (c : Cache cfg) : Cache cfg := { c with tagArray := c.tagArray.invalidate }

/-! ### The read miss handler -/

/-- The access to the tags in `send_read_request`: a read-only cache expects no write-back. -/
def accessTags (c : Cache cfg) (blockAddr : NewAddrType) (cacheIndex : ℕ) (mf : MemFetch)
    (time : Time) (readOnly : Bool) : Step (TagArray cfg × AccessResult) :=
  if readOnly then c.tagArray.accessNoWriteback blockAddr time cacheIndex mf
  else c.tagArray.access blockAddr time cacheIndex mf

/-- What the two branches of `send_read_request` that accept the request begin with: the access to
the tags, the MSHR entry, and the pin. -/
def acceptMiss (c : Cache cfg) (blockAddr mshrAddr : NewAddrType) (cacheIndex : ℕ) (mf : Token)
    (time : Time) (readOnly : Bool) : Step (Cache cfg × AccessResult) := do
  let (tagArray, r) ← c.accessTags blockAddr cacheIndex (c.mfs mf) time readOnly
  let mshrs ← c.mshrs.add mshrAddr mf
  let c := { c with tagArray, mshrs }
  return (if cfg.deferHitResponse then c.pinResponse mf r.idx else c, r)

/-- What `send_read_request` leaves in `do_miss`, in `wb` and `evicted`, and in `events`. -/
structure SendResult where
  doMiss : Bool
  evicted : Option EvictedBlockInfo
  events : List CacheEvent

/-- `send_read_request`. -/
def sendReadRequest (c : Cache cfg) (blockAddr : NewAddrType) (cacheIndex : ℕ) (mf : Token)
    (time : Time) (events : List CacheEvent) (readOnly wa : Bool) :
    Step (Cache cfg × SendResult) := do
  let m := c.mfs mf
  let mshrAddr := cfg.mshrAddr m.addr
  let mshrHit := c.mshrs.probe mshrAddr
  let mshrAvail := !c.mshrs.full mshrAddr
  if mshrHit && mshrAvail then do
    let (c, r) ← c.acceptMiss blockAddr mshrAddr cacheIndex mf time readOnly
    let c := { c with stats := c.stats.incStats m.accessType .mshrHit m.streamID }
    return (c, ⟨true, r.evicted, events⟩)
  else if !mshrHit && mshrAvail && decide (c.missQueue.length < cfg.missQueueSize) then do
    let (c, r) ← c.acceptMiss blockAddr mshrAddr cacheIndex mf time readOnly
    let c := { c with
      extraMfFields :=
        c.extraMfFields.insert mf (ExtraMfFields.new cfg mshrAddr m.addr r.idx m.dataSize)
      mfs := Function.update c.mfs mf { c.mfs mf with dataSize := cfg.atomSz, addr := mshrAddr }
      missQueue := c.missQueue ++ [mf] }
    let events := if wa then events else events ++ [CacheEvent.ofType .readRequestSent]
    return (c, ⟨true, r.evicted, events⟩)
  else if mshrHit && !mshrAvail then
    return (c.incFailStats m .mshrMergeEnrtyFail, ⟨false, none, events⟩)
  else if !mshrHit && !mshrAvail then
    return (c.incFailStats m .mshrEnrtyFail, ⟨false, none, events⟩)
  else .error .sendReadRequestUnreachable

end Cache

end OpenCache
