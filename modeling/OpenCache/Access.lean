/-
`read_only_cache::access` and `data_cache::access`, with the handlers that `data_cache::init`
selects for hits and misses.

* `OpenCache.CacheClass` — which of the two classes a cache is, with the request types a
  `data_cache` is built with;
* `OpenCache.Cache.wrHit`, `OpenCache.Cache.wrMiss` — the handlers for writes;
* `OpenCache.Cache.processTagProbe`, `OpenCache.Cache.access` — the entry points.
-/

import OpenCache.Baseline

set_option relaxedAutoImplicit false
set_option autoImplicit false

namespace OpenCache

/-- The request types that the constructor of `data_cache` is given. -/
structure DataCacheTypes where
  wrAllocType : MemAccessType
  wrbkType : MemAccessType

/-- The types of an `l1_cache`. -/
def DataCacheTypes.l1 : DataCacheTypes := ⟨.l1WrAllocR, .l1WrbkAcc⟩

/-- The class of a cache. -/
inductive CacheClass
  | readOnlyCache
  | dataCache (types : DataCacheTypes)

namespace Cache

variable {cfg : CacheConfig}

/-! ### What the handlers share -/

/-- `data_cache::send_write_request`. -/
def sendWriteRequest (c : Cache cfg) (mf : Token) (request : CacheEvent)
    (events : List CacheEvent) : Cache cfg × List CacheEvent :=
  ({ c with missQueue := c.missQueue ++ [mf] }, events ++ [request])

/-- The body of the loop of `update_m_readable`: a sector of the mask whose bytes are all dirty is
readable.  The call of `set_m_readable` passes the whole mask. -/
def updateMReadableSector (mf : MemFetch) (cacheIndex : ℕ) (c : Cache cfg) (i : Fin 4) :
    Step (Cache cfg) :=
  if i ∈ mf.accessSectorMask ∧ sectorBytes i ⊆ (c.getBlock cacheIndex).dirtyByteMask then do
    let j ← cfg.getSectorIndex mf.accessSectorMask
    return c.setBlock cacheIndex ((c.getBlock cacheIndex).setMReadable true j)
  else return c

/-- `update_m_readable`. -/
def updateMReadable (c : Cache cfg) (mf : MemFetch) (cacheIndex : ℕ) : Step (Cache cfg) :=
  (List.finRange 4).foldlM (updateMReadableSector mf cacheIndex) c

/-- What every handler that writes into a line does: count the line if it becomes dirty, mark the
sector modified and record the bytes. -/
def markModified (c : Cache cfg) (mf : MemFetch) (cacheIndex : ℕ) : Step (Cache cfg) := do
  let block := c.getBlock cacheIndex
  let tagArray := if block.isModifiedLine then c.tagArray else c.tagArray.incDirty
  let i ← cfg.getSectorIndex mf.accessSectorMask
  return { c with tagArray }.setBlock cacheIndex
    ((block.setStatus .modified i).setByteMask mf.accessByteMask)

/-- `m_memfetch_creator->alloc` for a write-back. -/
def allocWriteback (c : Cache cfg) (types : DataCacheTypes) (mf : MemFetch)
    (evicted : EvictedBlockInfo) : Cache cfg × Token :=
  c.newMemFetch (MemFetch.new types.wrbkType evicted.blockAddr evicted.modifiedSize true
    evicted.byteMask evicted.sectorMask mf.streamID none none)

/-- The write-back that the miss handlers send for the block that was evicted, unless the lower
level has been modified already. -/
def sendWriteback (c : Cache cfg) (types : DataCacheTypes) (mf : MemFetch)
    (evicted : Option EvictedBlockInfo) (request : EvictedBlockInfo → CacheEvent)
    (events : List CacheEvent) : Cache cfg × List CacheEvent :=
  match evicted with
  | none => (c, events)
  | some e =>
      if cfg.writePolicy = .writeThrough then (c, events)
      else
        let (c, wb) := c.allocWriteback types mf e
        c.sendWriteRequest wb (request e) events

/-- `cache_event(WRITE_BACK_REQUEST_SENT, evicted)`. -/
def writeBackEvent (evicted : EvictedBlockInfo) : CacheEvent := ⟨.writeBackRequestSent, evicted⟩

/-- Whether the handlers that fetch have room for `numMiss` more requests and an MSHR entry. -/
def fetchRefused (c : Cache cfg) (numMiss : ℕ) (mshrAddr : NewAddrType) : Bool :=
  let mshrHit := c.mshrs.probe mshrAddr
  let mshrAvail := !c.mshrs.full mshrAddr
  c.missQueueFull numMiss ||
    (!(mshrHit && mshrAvail) &&
      !(!mshrHit && mshrAvail && decide (c.missQueue.length < cfg.missQueueSize)))

/-- The reason a fetch is refused for. -/
def fetchRefusal (c : Cache cfg) (numMiss : ℕ) (mshrAddr : NewAddrType) (unreachable : Abort) :
    Step CacheReservationFailReason :=
  let mshrHit := c.mshrs.probe mshrAddr
  let mshrAvail := !c.mshrs.full mshrAddr
  if c.missQueueFull numMiss then .ok .missQueueFull
  else if mshrHit && !mshrAvail then .ok .mshrMergeEnrtyFail
  else if !mshrHit && !mshrAvail then .ok .mshrEnrtyFail
  else .error unreachable

/-- What a handler returns: the cache, the status, and the events. -/
abbrev Handled (cfg : CacheConfig) := Cache cfg × CacheRequestStatus × List CacheEvent

/-! ### Write hits -/

/-- `wr_hit_wb`. -/
def wrHitWb (c : Cache cfg) (addr : NewAddrType) (cacheIndex : ℕ) (mf : Token) (time : Time)
    (events : List CacheEvent) : Step (Handled cfg) := do
  let m := c.mfs mf
  let (tagArray, r) ← c.tagArray.accessNoWriteback (cfg.blockAddr addr) time cacheIndex m
  let c ← { c with tagArray }.markModified m r.idx
  let c ← c.updateMReadable m r.idx
  return (c, .hit, events)

/-- `wr_hit_wt`. -/
def wrHitWt (c : Cache cfg) (addr : NewAddrType) (cacheIndex : ℕ) (mf : Token) (time : Time)
    (events : List CacheEvent) : Step (Handled cfg) := do
  let m := c.mfs mf
  if c.missQueueFull 0 then
    return (c.incFailStats m .missQueueFull, .reservationFail, events)
  else do
    let (tagArray, r) ← c.tagArray.accessNoWriteback (cfg.blockAddr addr) time cacheIndex m
    let c ← { c with tagArray }.markModified m r.idx
    let c ← c.updateMReadable m r.idx
    -- generate a write-through
    let (c, events) := c.sendWriteRequest mf (CacheEvent.ofType .writeRequestSent) events
    return (c, .hit, events)

/-- `wr_hit_we`. -/
def wrHitWe (c : Cache cfg) (cacheIndex : ℕ) (mf : Token) (events : List CacheEvent) :
    Step (Handled cfg) := do
  let m := c.mfs mf
  if c.missQueueFull 0 then
    return (c.incFailStats m .missQueueFull, .reservationFail, events)
  else do
    -- generate a write-through/evict
    let (c, events) := c.sendWriteRequest mf (CacheEvent.ofType .writeRequestSent) events
    -- invalidate block
    let i ← cfg.getSectorIndex m.accessSectorMask
    let block := (c.getBlock cacheIndex).setStatus .invalid i
    return (c.setBlock cacheIndex block, .hit, events)

/-- `wr_hit_global_we_local_wb`. -/
def wrHitGlobalWeLocalWb (c : Cache cfg) (addr : NewAddrType) (cacheIndex : ℕ) (mf : Token)
    (time : Time) (events : List CacheEvent) : Step (Handled cfg) :=
  if (c.mfs mf).accessType = .globalAccW then c.wrHitWe cacheIndex mf events
  else c.wrHitWb addr cacheIndex mf time events

/-- `m_wr_hit`, as `data_cache::init` sets it. -/
def wrHit (c : Cache cfg) (addr : NewAddrType) (cacheIndex : ℕ) (mf : Token) (time : Time)
    (events : List CacheEvent) : Step (Handled cfg) :=
  match cfg.writePolicy with
  | .readOnly => .error .dataCacheReadOnly
  | .writeBack => c.wrHitWb addr cacheIndex mf time events
  | .writeThrough => c.wrHitWt addr cacheIndex mf time events
  | .writeEvict => c.wrHitWe cacheIndex mf events
  | .localWbGlobalWt => c.wrHitGlobalWeLocalWb addr cacheIndex mf time events

/-! ### Write misses -/

/-- `wr_miss_wa_naive`. -/
def wrMissWaNaive (c : Cache cfg) (types : DataCacheTypes) (addr : NewAddrType) (cacheIndex : ℕ)
    (mf : Token) (time : Time) (events : List CacheEvent) (status : CacheRequestStatus) :
    Step (Handled cfg) := do
  let m := c.mfs mf
  let mshrAddr := cfg.mshrAddr m.addr
  -- write miss, read request, write back request
  if c.fetchRefused 2 mshrAddr then do
    let reason ← c.fetchRefusal 2 mshrAddr .wrMissWaNaiveUnreachable
    return (c.incFailStats m reason, .reservationFail, events)
  else do
    let (c, events) := c.sendWriteRequest mf (CacheEvent.ofType .writeRequestSent) events
    let (c, nMf) := c.newMemFetch (MemFetch.new types.wrAllocType m.addr cfg.atomSz false
      m.accessByteMask m.accessSectorMask m.streamID none none)
    let (c, r) ← c.sendReadRequest (cfg.blockAddr addr) cacheIndex nMf time events false true
    let events := r.events ++ [CacheEvent.ofType .writeAllocateSent]
    if r.doMiss then do
      assertThat (r.evicted.isSome = true → cfg.writePolicy ≠ .writeThrough → status = .miss)
        .wrMissWaNaiveWriteback
      let (c, events) := c.sendWriteback types m r.evicted writeBackEvent events
      return (c, .miss, events)
    else return (c, .reservationFail, events)

/-- `if (status == HIT_RESERVED) block->set_ignore_on_fill(true, ...)`. -/
def ignoreOnFillIfReserved (c : Cache cfg) (m : MemFetch) (cacheIndex : ℕ)
    (status : CacheRequestStatus) : Step (Cache cfg) :=
  if status = .hitReserved then do
    let i ← cfg.getSectorIndex m.accessSectorMask
    return c.setBlock cacheIndex ((c.getBlock cacheIndex).setIgnoreOnFill true i)
  else return c

/-- The first branch of `wr_miss_wa_fetch_on_write`: the request writes the whole line or sector. -/
def wrMissWaFetchOnWriteFull (c : Cache cfg) (types : DataCacheTypes) (addr : NewAddrType)
    (cacheIndex : ℕ) (mf : Token) (time : Time) (events : List CacheEvent) :
    Step (Handled cfg) := do
  let m := c.mfs mf
  if c.missQueueFull 0 then
    return (c.incFailStats m .missQueueFull, .reservationFail, events)
  else do
    let (tagArray, r) ← c.tagArray.access (cfg.blockAddr addr) time cacheIndex m
    assertThat (r.status ≠ .hit) .wrMissWaFetchOnWriteHit
    let c ← { c with tagArray }.markModified m r.idx
    let c ← c.ignoreOnFillIfReserved m r.idx r.status
    if r.status ≠ .reservationFail then
      let (c, events) := c.sendWriteback types m r.evicted writeBackEvent events
      return (c, .miss, events)
    else return (c, .reservationFail, events)

/-- The second branch of `wr_miss_wa_fetch_on_write`: fetch the rest of the line or sector. -/
def wrMissWaFetchOnWritePartial (c : Cache cfg) (types : DataCacheTypes) (addr : NewAddrType)
    (cacheIndex : ℕ) (mf : Token) (time : Time) (events : List CacheEvent) :
    Step (Handled cfg) := do
  let m := c.mfs mf
  let mshrAddr := cfg.mshrAddr m.addr
  if c.fetchRefused 1 mshrAddr then do
    let reason ← c.fetchRefusal 1 mshrAddr .wrMissWaFetchOnWriteUnreachable
    return (c.incFailStats m reason, .reservationFail, events)
  -- prevent Write - Read - Write in pending mshr
  else if c.mshrs.probe mshrAddr &&
      c.mshrs.isReadAfterWritePending (fun t => (c.mfs t).isWrite) mshrAddr && m.isWrite then
    return (c.incFailStats m .mshrRwPending, .reservationFail, events)
  else do
    let (c, nMf) := c.newMemFetch (MemFetch.new types.wrAllocType m.addr cfg.atomSz false
      m.accessByteMask m.accessSectorMask m.streamID none (some mf))
    let (c, r) ← c.sendReadRequest (cfg.blockAddr addr) cacheIndex nMf time events false true
    let i ← cfg.getSectorIndex m.accessSectorMask
    let c := c.setBlock cacheIndex
      (((c.getBlock cacheIndex).setModifiedOnFill true i).putByteMaskOnFill true)
    let events := r.events ++ [CacheEvent.ofType .writeAllocateSent]
    if r.doMiss then
      let (c, events) := c.sendWriteback types m r.evicted writeBackEvent events
      return (c, .miss, events)
    else return (c, .reservationFail, events)

/-- `wr_miss_wa_fetch_on_write`. -/
def wrMissWaFetchOnWrite (c : Cache cfg) (types : DataCacheTypes) (addr : NewAddrType)
    (cacheIndex : ℕ) (mf : Token) (time : Time) (events : List CacheEvent) :
    Step (Handled cfg) :=
  if (c.mfs mf).accessByteMask.card = cfg.atomSz then
    c.wrMissWaFetchOnWriteFull types addr cacheIndex mf time events
  else c.wrMissWaFetchOnWritePartial types addr cacheIndex mf time events

/-- `wr_miss_wa_lazy_fetch_on_read`. -/
def wrMissWaLazyFetchOnRead (c : Cache cfg) (types : DataCacheTypes) (addr : NewAddrType)
    (cacheIndex : ℕ) (mf : Token) (time : Time) (events : List CacheEvent) :
    Step (Handled cfg) := do
  let m := c.mfs mf
  if c.missQueueFull 0 then
    return (c.incFailStats m .missQueueFull, .reservationFail, events)
  else do
    let (c, events) :=
      if cfg.writePolicy = .writeThrough then
        c.sendWriteRequest mf (CacheEvent.ofType .writeRequestSent) events
      else (c, events)
    let (tagArray, r) ← c.tagArray.access (cfg.blockAddr addr) time cacheIndex m
    assertThat (r.status ≠ .hit) .wrMissWaLazyFetchOnReadHit
    let c ← { c with tagArray }.markModified m r.idx
    let i ← cfg.getSectorIndex m.accessSectorMask
    let block := c.getBlock r.idx
    let block :=
      if r.status = .hitReserved then
        ((block.setIgnoreOnFill true i).setModifiedOnFill true i).putByteMaskOnFill true
      else block
    let block :=
      if m.accessByteMask.card = cfg.atomSz then block.setMReadable true i
      else if r.status = .hitReserved then
        (block.setMReadable false i).setReadableOnFill true i
      else block.setMReadable false i
    let c ← (c.setBlock r.idx block).updateMReadable m r.idx
    if r.status ≠ .reservationFail then
      let (c, events) := c.sendWriteback types m r.evicted writeBackEvent events
      return (c, .miss, events)
    else return (c, .reservationFail, events)

/-- `wr_miss_no_wa`. -/
def wrMissNoWa (c : Cache cfg) (mf : Token) (events : List CacheEvent) : Step (Handled cfg) :=
  if c.missQueueFull 0 then
    .ok (c.incFailStats (c.mfs mf) .missQueueFull, .reservationFail, events)
  else
    let (c, events) := c.sendWriteRequest mf (CacheEvent.ofType .writeRequestSent) events
    .ok (c, .miss, events)

/-- `m_wr_miss`, as `data_cache::init` sets it. -/
def wrMiss (c : Cache cfg) (types : DataCacheTypes) (addr : NewAddrType) (cacheIndex : ℕ)
    (mf : Token) (time : Time) (events : List CacheEvent) (status : CacheRequestStatus) :
    Step (Handled cfg) :=
  match cfg.writeAllocPolicy with
  | .noWriteAllocate => c.wrMissNoWa mf events
  | .writeAllocate => c.wrMissWaNaive types addr cacheIndex mf time events status
  | .fetchOnWrite => c.wrMissWaFetchOnWrite types addr cacheIndex mf time events
  | .lazyFetchOnRead => c.wrMissWaLazyFetchOnRead types addr cacheIndex mf time events

/-! ### Reads -/

/-- `rd_hit_base`. -/
def rdHitBase (c : Cache cfg) (addr : NewAddrType) (cacheIndex : ℕ) (mf : Token) (time : Time)
    (events : List CacheEvent) : Step (Handled cfg) := do
  let (tagArray, _) ←
    c.tagArray.accessNoWriteback (cfg.blockAddr addr) time cacheIndex (c.mfs mf)
  return ({ c with tagArray }, .hit, events)

/-- `rd_miss_base`.  The event of the write-back does not carry the evicted block. -/
def rdMissBase (c : Cache cfg) (types : DataCacheTypes) (addr : NewAddrType) (cacheIndex : ℕ)
    (mf : Token) (time : Time) (events : List CacheEvent) : Step (Handled cfg) := do
  let m := c.mfs mf
  if c.missQueueFull 1 then
    return (c.incFailStats m .missQueueFull, .reservationFail, events)
  else do
    let (c, r) ← c.sendReadRequest (cfg.blockAddr addr) cacheIndex mf time events false false
    if r.doMiss then
      let (c, events) := c.sendWriteback types m r.evicted
        (fun _ => CacheEvent.ofType .writeBackRequestSent) r.events
      return (c, .miss, events)
    else return (c, .reservationFail, r.events)

/-! ### The entry points -/

/-- The statistics that both `access` methods count at their end. -/
def countAccess (c : Cache cfg) (mf : MemFetch) (probe access : CacheRequestStatus) : Cache cfg :=
  let outcome := selectStatsStatus probe access
  let stats := c.stats.incStats mf.accessType outcome mf.streamID
  { c with stats := stats.incStatsPw mf.accessType outcome mf.streamID }

/-- The initial value of the `unsigned cache_index`. -/
def noIndex : ℕ := 2 ^ 32 - 1

/-- `tag_array::probe` for a request, with what it leaves in `m_last_fail_reason`. -/
def probeTags (c : Cache cfg) (addr : NewAddrType) (mf : MemFetch) :
    Step (Cache cfg × ProbeResult) := do
  let p ← c.tagArray.probe (cfg.blockAddr addr) noIndex mf.accessSectorMask mf.isWrite
  return ({ c with tagArray := { c.tagArray with lastFailReason := p.failReason } }, p)

/-- The branches of `read_only_cache::access` on the answer of the tags. -/
def readOnlyTagProbe (c : Cache cfg) (p : ProbeResult) (addr : NewAddrType) (mf : Token)
    (time : Time) (events : List CacheEvent) : Step (Handled cfg) := do
  let m := c.mfs mf
  if p.status = .hit then
    if cfg.deferHitResponse && c.hitResponseQueueFull then
      return (c.incFailStats m .hitResponseQueueFull, .reservationFail, events)
    else do
      let (tagArray, r) ← c.tagArray.accessNoWriteback (cfg.blockAddr addr) time p.idx m
      let c := { c with tagArray }
      if cfg.deferHitResponse && decide (r.status = .hit) then
        return (c.enqueueHitResponse mf r.idx, r.status, events)
      else return (c, r.status, events)
  else if p.status ≠ .reservationFail then
    if c.missQueueFull 0 then
      return (c.incFailStats m .missQueueFull, .reservationFail, events)
    else do
      let (c, r) ← c.sendReadRequest (cfg.blockAddr addr) p.idx mf time events true false
      return (c, if r.doMiss then .miss else .reservationFail, r.events)
  else return (c.incFailStats m c.tagArray.lastFailReason, .reservationFail, events)

/-- `read_only_cache::access`. -/
def readOnlyAccess (c : Cache cfg) (addr : NewAddrType) (mf : Token) (time : Time)
    (events : List CacheEvent) : Step (Handled cfg) := do
  let m := c.mfs mf
  assertThat (m.dataSize ≤ cfg.atomSz) .accessDataSize
  assertThat (cfg.writePolicy = .readOnly) .readOnlyPolicy
  assertThat (m.isWrite = false) .readOnlyWrite
  let (c, p) ← c.probeTags addr m
  let (c, cacheStatus, events) ← c.readOnlyTagProbe p addr mf time events
  return (c.countAccess m p.status cacheStatus, cacheStatus, events)

/-- The calls of the handlers in `process_tag_probe`. -/
def callHandler (c : Cache cfg) (types : DataCacheTypes) (wr : Bool)
    (probeStatus : CacheRequestStatus) (addr : NewAddrType) (cacheIndex : ℕ) (mf : Token)
    (time : Time) (events : List CacheEvent) : Step (Handled cfg) :=
  if wr then
    if probeStatus = .hit then c.wrHit addr cacheIndex mf time events
    else if probeStatus ≠ .reservationFail ∨ cfg.writeAllocPolicy = .noWriteAllocate then
      c.wrMiss types addr cacheIndex mf time events probeStatus
    else .ok (c.incFailStats (c.mfs mf) c.tagArray.lastFailReason, probeStatus, events)
  else
    if probeStatus = .hit then c.rdHitBase addr cacheIndex mf time events
    else if probeStatus ≠ .reservationFail then
      c.rdMissBase types addr cacheIndex mf time events
    else .ok (c.incFailStats (c.mfs mf) c.tagArray.lastFailReason, probeStatus, events)

/-- `process_tag_probe`. -/
def processTagProbe (c : Cache cfg) (types : DataCacheTypes) (wr : Bool)
    (probeStatus : CacheRequestStatus) (addr : NewAddrType) (cacheIndex : ℕ) (mf : Token)
    (time : Time) (events : List CacheEvent) : Step (Handled cfg) := do
  let m := c.mfs mf
  if probeStatus = .hit ∧ cfg.deferHitResponse = true ∧ c.hitResponseQueueFull = true then do
    let c ← (c.incFailStats m .hitResponseQueueFull).useDataPort m .reservationFail events
    return (c, .reservationFail, events)
  else do
    let (c, accessStatus, events) ←
      c.callHandler types wr probeStatus addr cacheIndex mf time events
    let c :=
      if probeStatus = .hit ∧ cfg.deferHitResponse = true ∧ accessStatus = .hit then
        c.enqueueHitResponse mf cacheIndex
      else c
    let c ← c.useDataPort (c.mfs mf) accessStatus events
    return (c, accessStatus, events)

/-- `data_cache::access`. -/
def dataAccess (c : Cache cfg) (types : DataCacheTypes) (addr : NewAddrType) (mf : Token)
    (time : Time) (events : List CacheEvent) : Step (Handled cfg) := do
  let m := c.mfs mf
  assertThat (m.dataSize ≤ cfg.atomSz) .accessDataSize
  -- `data_cache::init` has refused the policy
  assertThat (cfg.writePolicy ≠ .readOnly) .dataCacheReadOnly
  let (c, p) ← c.probeTags addr m
  let (c, accessStatus, events) ←
    c.processTagProbe types m.isWrite p.status addr p.idx mf time events
  return (c.countAccess m p.status accessStatus, accessStatus, events)

/-- `access`, which is virtual. -/
def access (c : Cache cfg) (cls : CacheClass) (addr : NewAddrType) (mf : Token) (time : Time)
    (events : List CacheEvent) : Step (Handled cfg) :=
  match cls with
  | .readOnlyCache => c.readOnlyAccess addr mf time events
  | .dataCache types => c.dataAccess types addr mf time events

end Cache

end OpenCache
