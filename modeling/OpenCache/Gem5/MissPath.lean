/-
**The miss path of a cache** (`base.cc`, `cache.cc`, `mshr_queue.cc`, `write_queue.cc`).

A request that misses is given to a miss register, or joins the one that its block has; a write that
the cache passes on, and a block that it evicts, go to the write buffer.  The port to the memory
asks for the next entry of the two queues, and a response brings a register back.  While the
registers, the write buffer or the targets of a register are used up, the cache accepts no request.
This module has the functions of the two queues, and the operations of the cache on them, as the
source has them; an assertion that fails is `none`.  What the source asserts of the block in the
tags, of the data, delays and requestors of packets, and of what a target is answered with, is not
part of it.

What is decided elsewhere comes with an operation: whether the port accepts a packet, what a
prefetch hits above, whether the write coalescing delays a register, the packet of the
prefetcher, and what a response finds in the cache.  An operation says which register it used,
and how (`Event`).

All registers of the cache read and change the flags of the registers above it, which are part of
the state; the caches above, and the other caches below them, change them too.

Main definitions:

* `OpenCache.WriteQueueEntry` — an entry of the write buffer;
* `OpenCache.MSHRQueue.forceDeallocateTarget`, `OpenCache.MSHRQueue.canPrefetch` — functions of the
  queue of the registers that are not those of every queue;
* `OpenCache.MissPath` — the two queues, the order counter and the reasons for which the
  cache is blocked;
* `OpenCache.MissPath.getNextQueueEntry` — which entry is sent next;
* `OpenCache.MissPath.perform` — the operations, `OpenCache.MissPath.promise` — when they may come.
-/

import OpenCache.Gem5.EntryQueue
import OpenCache.Gem5.MshrSteps

set_option relaxedAutoImplicit false
set_option autoImplicit false

namespace OpenCache

namespace MemCmd

def isPrefetch (c : MemCmd) : Bool := c == softPFReq || c == hardPFReq

def isLLSC (c : MemCmd) : Bool := c == storeCondReq || c == scUpgradeReq || c == scUpgradeFailReq

end MemCmd

/-- `getBlockAddr`. -/
def Packet.blockAddr (blkSize : ℕ) (pkt : Packet) : BitVec 64 :=
  pkt.addr &&& ~~~(BitVec.ofNat 64 (blkSize - 1))

/-- Another packet that the constructor makes for the same request and command, which has the
address and the size of the request.  `packet.hh` leaves out both; but by its attributes no software
prefetch waits for a response and nothing is a locked access, so that no such packet is made. -/
def Packet.copy (pkt : Packet) : Packet :=
  { pkt with
    expressSnoop := false
    sender := none }

@[simp] theorem Packet.cmd_copy (pkt : Packet) : pkt.copy.cmd = pkt.cmd := rfl

@[simp] theorem Packet.upper_copy (pkt : Packet) (markPending : Bool) :
    pkt.copy.upper markPending = none := by
  cases markPending <;> rfl

/-- A target of an entry of the write buffer (`QueueEntry::Target`). -/
structure QueueTarget where
  recvTime : ℕ
  readyTime : ℕ
  order : ℕ
  pkt : Packet
  deriving DecidableEq, Repr

structure WriteQueueEntry extends QueueEntry where
  targets : List QueueTarget
  deriving DecidableEq, Repr

namespace WriteQueueEntry

def empty : WriteQueueEntry := ⟨⟨0, false, false, 0, 0, 0, false⟩, []⟩

instance : QueueItem WriteQueueEntry :=
  ⟨WriteQueueEntry.toQueueEntry, fun e => !e.targets.isEmpty, fun e => e.targets.length⟩

/-- What an entry takes: an uncacheable write, a cacheable eviction or a `WriteClean`. -/
def takes (info : CmdInfo) (pkt : Packet) : Bool :=
  info.isWrite pkt.cmd && pkt.uncacheable || info.isEviction pkt.cmd && !pkt.uncacheable ||
    pkt.cmd == .writeClean

def allocate (info : CmdInfo) (now : ℕ) (blkAddr : BitVec 64) (blkSize : ℕ) (target : Packet)
    (whenReady order : ℕ) (e : WriteQueueEntry) : Option WriteQueueEntry :=
  let e := { e with
    blkAddr := blkAddr
    blkSize := blkSize
    isSecure := target.secure
    readyTime := whenReady
    order := order
    isUncacheable := target.uncacheable
    inService := false }
  if !e.isUncacheable && !e.targets.isEmpty || !takes info target then none
  else
    let e := { e with targets := e.targets ++ [⟨now, whenReady, order, target⟩] }
    if e.targets.head?.all fun front => MSHR.sameBlock blkSize target front.pkt then
      some e
    else none

def deallocate (e : WriteQueueEntry) : Option WriteQueueEntry :=
  if e.targets.isEmpty then some { e with inService := false } else none

def popTarget (e : WriteQueueEntry) : WriteQueueEntry := { e with targets := e.targets.tail }

end WriteQueueEntry

namespace WriteQueue

/-- A write that was sent is done (`WriteQueue::markInService`). -/
def markInService (i : ℕ) (q : EntryQueue WriteQueueEntry) : Option (EntryQueue WriteQueueEntry) :=
  (q.update i (q.entries i).popTarget).deallocate WriteQueueEntry.deallocate i

end WriteQueue

namespace MSHRQueue

variable (info : CmdInfo)

def markPending (i : ℕ) (q : EntryQueue MSHR) : Option (EntryQueue MSHR) :=
  q.markPending (fun m => { m with inService := false }) i

/-- The first target is dropped.  Whether the queue is no longer full is returned with it. -/
def forceDeallocateTarget (now i : ℕ) (q : EntryQueue MSHR) : Option (Bool × EntryQueue MSHR) :=
  let wasFull := q.isFull
  if !(q.entries i).hasTargets then none
  else
    let m := (q.entries i).popTarget
    let r := m.promoteDeferredTargets info now
    if m.hasTargets then some (wasFull && !q.isFull, q.update i m)
    else if r.1 then some (wasFull && !q.isFull, q.update i r.2)
    else ((q.update i r.2).deallocate MSHR.deallocate i).map fun q => (wasFull && !q.isFull, q)

def canPrefetch (demandReserve : ℕ) (q : EntryQueue MSHR) : Bool :=
  q.allocated < (q.numEntries : ℤ) - (q.numReserve + 1 + demandReserve)

end MSHRQueue

/-- The parameters of a cache that the miss path reads. -/
structure CacheParams where
  mshrs : ℕ
  writeBuffers : ℕ
  blkSize : ℕ
  numTarget : ℕ
  demandReserve : ℕ
  mostlyIncl : Bool

/-- A cache with two registers, of two targets each, and a write buffer for one write. -/
def CacheParams.tiny : CacheParams := ⟨2, 1, 64, 2, 0, false⟩

def CacheParams.allocOnFill (p : CacheParams) (cmd : MemCmd) : Bool :=
  p.mostlyIncl || cmd == .writeLineReq || cmd == .readReq || cmd == .writeReq || cmd.isPrefetch ||
    cmd.isLLSC

/-- The miss path of a cache, with the flags of the registers above.  The mask `blocked` is kept as
its three bits. -/
structure MissPath where
  mshrQueue : EntryQueue MSHR
  writeBuffer : EntryQueue WriteQueueEntry
  order : ℕ
  noMSHRs : Bool
  noWBBuffers : Bool
  noTargets : Bool
  noTargetMSHR : Option ℕ
  above : Above

namespace MissPath

/-- What an operation did: the register that it used, with the operations of the register, and the
targets that were served. -/
structure Event where
  register : Option (ℕ × List MissRegister.Op)
  served : List Target

/-- What was served of a register. -/
def Event.servedBy (event : Event) (i : ℕ) : List Target :=
  if event.register.map Prod.fst = some i then event.served else []

/-- What was served of a register along a run. -/
def servedAlong (i : ℕ) (trace : List Event) : List Target :=
  trace.flatMap fun event => event.servedBy i

/-- The order counter has counted elsewhere before. -/
def Event.after (n : ℕ) (event : Event) : Event :=
  { event with register := event.register.map fun r =>
      (r.1, List.replicate n MissRegister.Op.elsewhere ++ r.2) }

/-- The entry that is sent next. -/
inductive Next
  | miss (i : ℕ)
  | write (i : ℕ)
  deriving DecidableEq, Repr

/-- What happens to an entry that should be sent. -/
inductive Reply
  /-- a snoop response for the block goes first -/
  | conflict
  /-- the port does not accept the packet -/
  | retry (isForward : Bool)
  | accepted (pendingModifiedResp isForward : Bool)
  /-- the write coalescing holds a register back -/
  | delayed (delayTicks : ℕ)
  /-- a cache above has the block of a prefetch -/
  | squashed
  /-- a cache above responds to a prefetch -/
  | snooped (pendingModifiedResp : Bool)

inductive Op
  /-- a request that misses, with the writes of the blocks that it evicts -/
  | request (now : ℕ) (writebacks : List Packet) (writebackTime : ℕ) (pkt : Packet)
      (forwardTime : ℕ)
  | lockedHit (now : ℕ) (pkt : Packet)
  /-- an eviction from above (`BaseCache::access`) -/
  | evict (pkt : Packet)
  /-- the writes of blocks that a response, or a maintenance operation, evicts or cleans -/
  | writeback (now : ℕ) (writebacks : List Packet) (forwardTime : ℕ)
  | snoop (now : ℕ) (pkt : Packet) (mustCheckAbove : Bool)
  | buffered (i : ℕ)
  | clearDownstream (i : ℕ)
  | send (now : ℕ) (prefetch : Option Packet) (reply : Reply)
  | respond (now i : ℕ) (resp : Packet) (blk : BlockInfo)
  /-- another cache changes the flags of the registers above -/
  | changeAbove (above : Above)

/-- The cache that the constructor makes. -/
def init (p : CacheParams) : MissPath where
  mshrQueue := .init p.mshrs 0 .empty
  writeBuffer := .init p.writeBuffers p.mshrs .empty
  order := 0
  noMSHRs := false
  noWBBuffers := false
  noTargets := false
  noTargetMSHR := none
  above := fun _ => false

def isBlocked (s : MissPath) : Bool := s.noMSHRs || s.noWBBuffers || s.noTargets

variable (info : CmdInfo) (p : CacheParams)

/-- A register is allocated, as the register sees it. -/
def missOp (now : ℕ) (pkt : Packet) (time : ℕ) : MissRegister.Op :=
  .miss now (pkt.blockAddr p.blkSize) p.blkSize pkt time (p.allocOnFill pkt.cmd)

def allocateMissBuffer (now : ℕ) (pkt : Packet) (time : ℕ) (s : MissPath) : Option (ℕ × MissPath) :=
  (s.mshrQueue.allocateWith (MSHR.allocate info now (pkt.blockAddr p.blkSize) p.blkSize pkt time
    s.order (p.allocOnFill pkt.cmd) s.above)).map fun r =>
      (r.1, { s with
        mshrQueue := r.2.1
        order := s.order + 1
        noMSHRs := s.noMSHRs || r.2.1.isFull
        above := r.2.2 })

def allocateWriteBuffer (now : ℕ) (pkt : Packet) (time : ℕ) (s : MissPath) : Option MissPath :=
  let blkAddr := pkt.blockAddr p.blkSize
  if !(info.isWrite pkt.cmd || pkt.cmd == .cleanEvict) then none
  -- an entry for the same block is found, but nothing is merged
  else (s.writeBuffer.findMatch blkAddr pkt.secure true).bind fun _ =>
    (s.writeBuffer.allocate
      (WriteQueueEntry.allocate info now blkAddr p.blkSize pkt time s.order)).map fun r =>
        { s with
          writeBuffer := r.2
          order := s.order + 1
          noWBBuffers := s.noWBBuffers || r.2.isFull }

/-- `doWritebacks`: the writes that are not dropped because the block is cached above. -/
def doWritebacks (now forwardTime : ℕ) : List Packet → MissPath → Option MissPath
  | [], s => some s
  | pkt :: pkts, s =>
      (s.allocateWriteBuffer info p now pkt forwardTime).bind (doWritebacks now forwardTime pkts)

/-- A write that was sent leaves the write buffer. -/
def markInService (i : ℕ) (s : MissPath) : Option MissPath :=
  (WriteQueue.markInService i s.writeBuffer).map fun q =>
    { s with
      writeBuffer := q
      noWBBuffers := s.noWBBuffers && !(s.writeBuffer.isFull && !q.isFull) }

/-- A request joins a register. -/
def coalesce (now : ℕ) (pkt : Packet) (time i : ℕ) (s : MissPath) : Option MissPath :=
  ((s.mshrQueue.entries i).allocateTarget info now pkt time s.order (p.allocOnFill pkt.cmd)
      s.above).map fun r =>
    let s := { s with
      mshrQueue := s.mshrQueue.update i r.1
      order := s.order + 1
      above := r.2 }
    if r.1.getNumTargets ≥ p.numTarget then
      { s with
        noTargetMSHR := some i
        noTargets := true }
    else s

def nothing : Event := ⟨none, []⟩

/-- A miss goes to the write buffer. -/
def forward (now : ℕ) (pkt : Packet) (time : ℕ) (s : MissPath) : Option (MissPath × Event) :=
  (s.allocateWriteBuffer info p now pkt time).map fun s => (s, nothing)

/-- A miss gets a register. -/
def miss (now : ℕ) (pkt : Packet) (time : ℕ) (s : MissPath) : Option (MissPath × Event) :=
  (s.allocateMissBuffer info p now pkt time).map fun r =>
    (r.2, ⟨some (r.1, [missOp p now pkt time]), []⟩)

/-- `BaseCache::handleTimingReqMiss`: a miss, with the register that its block has. -/
def baseHandleTimingReqMiss (now : ℕ) (pkt : Packet) (forwardTime : ℕ) (s : MissPath) :
    Option ℕ → Option (MissPath × Event)
  | some i =>
      if info.isWriteback pkt.cmd then none
      -- the eviction of a clean block is sunk
      else if pkt.cmd = .cleanEvict then some (s, nothing)
      else if pkt.cmd = .writeClean then s.forward info p now pkt forwardTime
      else (s.coalesce info p now pkt forwardTime i).map fun s =>
        (s, ⟨some (i, [.coalesce now pkt forwardTime (p.allocOnFill pkt.cmd)]), []⟩)
  | none =>
      if info.isEviction pkt.cmd || pkt.cmd == .writeClean then s.forward info p now pkt forwardTime
      else s.miss info p now pkt forwardTime

/-- `Cache::handleTimingReqMiss`. -/
def handleTimingReqMiss (now : ℕ) (pkt : Packet) (forwardTime : ℕ) (s : MissPath) :
    Option (MissPath × Event) :=
  -- a locked write hits, due to the earlier locked read
  if pkt.cmd = .lockedRMWWriteReq then none
  else if pkt.uncacheable then
    if info.isWrite pkt.cmd then s.forward info p now pkt forwardTime
    else if info.isRead pkt.cmd || info.isCleanInvalidateRequest pkt.cmd then
      s.miss info p now pkt forwardTime
    else none
  else (s.mshrQueue.findMatch (pkt.blockAddr p.blkSize) pkt.secure true).bind fun found =>
    if !info.isSWPrefetch pkt.cmd then s.baseHandleTimingReqMiss info p now pkt forwardTime found
    -- a software prefetch is answered at once, and has nothing to add to a register
    else if !info.needsResponse pkt.cmd then none
    else if found.isSome then some (s, nothing)
    else s.baseHandleTimingReqMiss info p now pkt.copy forwardTime none

/-- A locked read that hits takes a register, with a packet of its own (`handleTimingReqHit`). -/
def lockedHit (now : ℕ) (pkt : Packet) (s : MissPath) : Option (MissPath × Event) :=
  if pkt.uncacheable then none
  else (s.mshrQueue.findMatch (pkt.blockAddr p.blkSize) pkt.secure true).bind fun
    | some _ => none
    | none => (s.allocateMissBuffer info p now pkt.copy now).bind fun r =>
        (r.2.mshrQueue.markInServiceWith (MSHR.markInService false r.2.above) r.1).map fun a =>
          ({ r.2 with
            mshrQueue := a.1
            above := a.2 }, ⟨some (r.1, [.lock now (pkt.blockAddr p.blkSize) p.blkSize pkt.copy
              (p.allocOnFill pkt.cmd)]), []⟩)

/-- An eviction from above finds a write in the write buffer: a dirty block trumps the write. -/
def accessEviction (pkt : Packet) (s : MissPath) : Option MissPath :=
  (s.writeBuffer.findMatch pkt.addr pkt.secure true).bind fun
    | none => some s
    | some i =>
        match (s.writeBuffer.entries i).targets with
        | [t] =>
            if !info.isWriteback t.pkt.cmd then none
            else if info.isCleanEviction pkt.cmd then some s
            else if pkt.cmd = .writebackDirty then s.markInService i
            else none
        | _ => none

/-- A snoop finds a write in the write buffer. -/
def snoopWriteBuffer (pkt : Packet) (s : MissPath) : Option MissPath :=
  (s.writeBuffer.findMatch (pkt.blockAddr p.blkSize) pkt.secure true).bind fun
    | none => some s
    | some i =>
        let e := s.writeBuffer.entries i
        match e.targets with
        | [t] =>
            if e.isUncacheable || !(info.isEviction t.pkt.cmd || t.pkt.cmd == .writeClean) then none
            else if info.isEviction pkt.cmd then some s
            else if !pkt.uncacheable && info.isRead pkt.cmd && !info.isInvalidate pkt.cmd &&
                info.needsWritable pkt.cmd then none
            else if info.isInvalidate pkt.cmd && t.pkt.cmd != .writeClean then s.markInService i
            else some s
        | _ => none

def recvTimingSnoopReq (now : ℕ) (pkt : Packet) (mustCheckAbove : Bool) (s : MissPath) :
    Option (MissPath × Event) :=
  (s.mshrQueue.findMatch (pkt.blockAddr p.blkSize) pkt.secure true).bind fun
    | some i =>
        if mustCheckAbove then some (s, nothing)
        else ((s.mshrQueue.entries i).handleSnoop info now pkt s.order s.above).bind fun r =>
          let event : Event := ⟨some (i, [.snoop now pkt]), []⟩
          let s := { s with
            mshrQueue := s.mshrQueue.update i r.2.1
            order := s.order + 1
            above := r.2.2 }
          if r.1.willRespond then some (s, event)
          else (s.snoopWriteBuffer info p pkt).map fun s => (s, event)
    | none => (s.snoopWriteBuffer info p pkt).map fun s => (s, nothing)

/-- A prefetch, if there is nothing else to send. -/
def nextPrefetch (now : ℕ) (pkt : Packet) (s : MissPath) :
    Option (Option Next × MissPath × List MissRegister.Op) :=
  (s.mshrQueue.findMatch (pkt.blockAddr p.blkSize) pkt.secure true).bind fun
    | some _ => some (none, s, [])
    | none => (s.writeBuffer.findMatch (pkt.blockAddr p.blkSize) pkt.secure true).bind fun
        | some _ => some (none, s, [])
        | none => (s.allocateMissBuffer info p now pkt now).map fun r =>
            (some (.miss r.1), r.2, [missOp p now pkt now])

/-- A write, unless an earlier miss on its block goes first. -/
def nextWrite (w : ℕ) (s : MissPath) : Option Next :=
  (s.mshrQueue.findPending (s.writeBuffer.entries w)).map fun conflict =>
    conflict.elim (.write w) fun c =>
      if (s.mshrQueue.entries c).order < (s.writeBuffer.entries w).order then .miss c else .write w

/-- A miss, unless a write of its block goes first. -/
def nextMiss (i : ℕ) (s : MissPath) : Option Next :=
  (s.writeBuffer.findPending (s.mshrQueue.entries i)).map fun conflict =>
    conflict.elim (.miss i) .write

/-- The next entry to be sent.  A prefetch is given a register at once. -/
def getNextQueueEntry (now : ℕ) (prefetch : Option Packet) (s : MissPath) :
    Option (Option Next × MissPath × List MissRegister.Op) :=
  let missMshr := s.mshrQueue.getNext now
  let wqEntry := s.writeBuffer.getNext now
  -- the misses are favoured, unless the write buffer is full
  match wqEntry.filter fun _ => s.writeBuffer.isFull || missMshr.isNone, missMshr with
  | some w, _ => (s.nextWrite w).map fun next => (some next, s, [])
  | none, some i => (s.nextMiss i).map fun next => (some next, s, [])
  | none, none =>
      match prefetch.filter fun _ =>
          MSHRQueue.canPrefetch p.demandReserve s.mshrQueue && !s.isBlocked with
      | some pkt => s.nextPrefetch info p now pkt
      | none => some (none, s, [])

/-- `sendMSHRQueuePacket`.  A packet that is forwarded as it is is not a write. -/
def sendMSHRQueuePacket (now i : ℕ) (reply : Reply) (s : MissPath) :
    Option (MissPath × List MissRegister.Op) :=
  let m := s.mshrQueue.entries i
  m.targets.list.head?.bind fun front =>
    match reply with
    | .conflict => some (s, [])
    | .retry isForward =>
        if isForward && info.isWrite front.pkt.cmd then none
        else some ({ s with mshrQueue := s.mshrQueue.update i { m with isForward := isForward } },
          [.send false false isForward])
    | .accepted pendingModifiedResp isForward =>
        if isForward && info.isWrite front.pkt.cmd then none
        else ((s.mshrQueue.update i { m with isForward := isForward }).markInServiceWith
          (MSHR.markInService pendingModifiedResp s.above) i).map fun r =>
            ({ s with
              mshrQueue := r.1
              above := r.2 }, [.send true pendingModifiedResp isForward])
    | .snooped pendingModifiedResp =>
        (s.mshrQueue.markInServiceWith (MSHR.markInService pendingModifiedResp s.above) i).map
          fun r => ({ s with
            mshrQueue := r.1
            above := r.2 }, [.send true pendingModifiedResp m.isForward])
    | .delayed delayTicks =>
        (s.mshrQueue.delay (MSHR.delay now delayTicks) i).map fun q =>
          ({ s with mshrQueue := q }, [.delay now delayTicks])
    | .squashed =>
        (MSHRQueue.forceDeallocateTarget info now i s.mshrQueue).map fun r =>
          ({ s with
            mshrQueue := r.2
            noMSHRs := s.noMSHRs && !r.1 }, [.squash now])

/-- `sendWriteQueuePacket`. -/
def sendWriteQueuePacket (i : ℕ) (reply : Reply) (s : MissPath) : Option MissPath :=
  (s.writeBuffer.entries i).targets.head?.bind fun _ =>
    match reply with
    | .accepted _ _ => s.markInService i
    | _ => some s

def sendDeferredPacket (now : ℕ) (prefetch : Option Packet) (reply : Reply) (s : MissPath) :
    Option (MissPath × Event) :=
  (s.getNextQueueEntry info p now prefetch).bind fun r =>
    match r.1 with
    | none => some (r.2.1, nothing)
    | some (.miss i) => (r.2.1.sendMSHRQueuePacket info now i reply).map fun r' =>
        (r'.1, ⟨some (i, r.2.2 ++ r'.2), []⟩)
    | some (.write i) => (r.2.1.sendWriteQueuePacket i reply).map fun s => (s, nothing)

/-- A response for a register. -/
def recvTimingResp (now i : ℕ) (resp : Packet) (blk : BlockInfo) (s : MissPath) :
    Option (MissPath × Event) :=
  let s := if s.noTargetMSHR = some i then
      { s with
        noTargets := false
        noTargetMSHR := none }
    else s
  -- the response of a whole line write is an invalidation
  if (s.mshrQueue.entries i).wasWholeLineWrite && !info.isInvalidate resp.cmd then none
  else ((s.mshrQueue.entries i).promote info resp blk s.above).bind fun promoted =>
    let s := { s with above := promoted.2 }
    ((MSHR.popLocked resp promoted.1).bind (MSHR.service info resp blk)).bind fun r =>
      let event : Event := ⟨some (i, [.respond now resp blk]), r.1⟩
      let m := r.2
      if m.hasLockedRMWReadTarget then
        some ({ s with mshrQueue := s.mshrQueue.update i m }, event)
      else
        let promoted := m.promoteDeferredTargets info now
        let q := s.mshrQueue.update i promoted.2
        if promoted.1 then
          (MSHRQueue.markPending i q).map fun q => ({ s with mshrQueue := q }, event)
        else (q.deallocate MSHR.deallocate i).map fun q' =>
          ({ s with
            mshrQueue := q'
            noMSHRs := s.noMSHRs && !(q.isFull && !q'.isFull) }, event)

def step (s : MissPath) : Op → Option (MissPath × Event)
  | .request now writebacks writebackTime pkt forwardTime =>
      (s.doWritebacks info p now writebackTime writebacks).bind fun s =>
        (s.handleTimingReqMiss info p now pkt forwardTime).map fun r =>
          (r.1, r.2.after writebacks.length)
  | .lockedHit now pkt => s.lockedHit info p now pkt
  | .evict pkt => (s.accessEviction info pkt).map fun s => (s, nothing)
  | .writeback now writebacks forwardTime =>
      (s.doWritebacks info p now forwardTime writebacks).map fun s => (s, nothing)
  | .snoop now pkt mustCheckAbove => s.recvTimingSnoopReq info p now pkt mustCheckAbove
  | .buffered i =>
      some ({ s with mshrQueue :=
        s.mshrQueue.update i { s.mshrQueue.entries i with downstreamPending := true } },
        ⟨some (i, [.buffered]), []⟩)
  | .clearDownstream i =>
      ((s.mshrQueue.entries i).clearDownstreamPending s.above).map fun r =>
        ({ s with
          mshrQueue := s.mshrQueue.update i r.1
          above := r.2 }, ⟨some (i, [.clearDownstream]), []⟩)
  | .send now prefetch reply => s.sendDeferredPacket info p now prefetch reply
  | .respond now i resp blk => s.recvTimingResp info now i resp blk
  | .changeAbove above => some ({ s with above := above }, nothing)

def perform (s : MissPath) (o : Op) : Except Unit (MissPath × Event) :=
  (s.step info p o).elim (.error ()) .ok

/-- A register, with the counter and the flags that all registers of the cache use. -/
def register (s : MissPath) (i : ℕ) : MissRegister := ⟨s.mshrQueue.entries i, s.order, s.above⟩

/-- The histories of the registers after an event. -/
def track (g : ℕ → MissRegister.History) (s : MissPath) (event : Event) :
    ℕ → MissRegister.History :=
  match event.register with
  | none => g
  | some (i, ops) =>
      Function.update g i (MissRegister.replay info (s.register i, g i) ops).2

def note (g : ℕ → MissRegister.History) (s : MissPath) (_ : Op) (_ : MissPath) (event : Event) :
    ℕ → MissRegister.History :=
  track info g s event

/-- The packets that may be given to the write buffer. -/
def Buffered (pkt : Packet) : Prop :=
  (info.isWrite pkt.cmd = true ∨ pkt.cmd = .cleanEvict) ∧ WriteQueueEntry.takes info pkt = true

/-- A miss that goes to the write buffer. -/
def toWriteBuffer (pkt : Packet) (s : MissPath) : Bool :=
  if pkt.uncacheable then info.isWrite pkt.cmd
  else
    match s.mshrQueue.findMatch (pkt.blockAddr p.blkSize) pkt.secure true with
    | some (some _) => !info.isSWPrefetch pkt.cmd && pkt.cmd == .writeClean
    | _ => info.isEviction pkt.cmd || pkt.cmd == .writeClean

/-- The register above that a miss has to mark. -/
def asks (pkt : Packet) (s : MissPath) : Option ℕ :=
  if s.toWriteBuffer info p pkt then none
  else if pkt.uncacheable then pkt.upper true
  else if info.isSWPrefetch pkt.cmd then none
  else
    match s.mshrQueue.findMatch (pkt.blockAddr p.blkSize) pkt.secure true with
    | some (some i) => if pkt.cmd = .cleanEvict then none else (s.mshrQueue.entries i).asks info pkt
    | _ => pkt.upper true

/-- A miss that does not come: a locked write; an uncacheable access that is no write, no read and
no clean invalidation; a software prefetch that waits for no response; a write-back, or a prefetch
of this cache, of a block that has a register; or a write that the write buffer does not take. -/
def Refused (pkt : Packet) (s : MissPath) : Prop :=
  pkt.cmd = .lockedRMWWriteReq ∨
  (pkt.uncacheable = true ∧ info.isWrite pkt.cmd = false ∧ info.isRead pkt.cmd = false ∧
    info.isCleanInvalidateRequest pkt.cmd = false) ∨
  (pkt.uncacheable = false ∧ info.isSWPrefetch pkt.cmd = true ∧
    info.needsResponse pkt.cmd = false) ∨
  (pkt.uncacheable = false ∧ info.isSWPrefetch pkt.cmd = false ∧
    (∃ i, s.mshrQueue.findMatch (pkt.blockAddr p.blkSize) pkt.secure true = some (some i)) ∧
    (info.isWriteback pkt.cmd = true ∨ pkt.cmd = .hardPFReq)) ∨
  s.toWriteBuffer info p pkt = true ∧ ¬Buffered info pkt

/-- Only a prefetch is squashed. -/
def onPrefetch (now : ℕ) (prefetch : Option Packet) (s : MissPath) : Reply → Bool
  | .squashed =>
      match s.getNextQueueEntry info p now prefetch with
      | some (some (.miss i), s', _) =>
          (s'.mshrQueue.entries i).targets.list.head?.all fun t => t.pkt.cmd = .hardPFReq
      | _ => true
  | _ => true

/-- What the cache and its neighbours keep: no request, and so no eviction from above and no locked
write, comes while the cache is blocked, a snoop that reads needs no writable copy unless it
invalidates, a prefetch comes from no register above, a register gets a response as its history
says, and no other cache clears the flag of a register above that this one has still to tell. -/
def promise (s : MissPath × (ℕ → MissRegister.History)) : Op → Prop
  | .request _ _ _ _ _ => s.1.isBlocked = false
  | .lockedHit _ pkt => s.1.isBlocked = false ∧ pkt.cmd = .lockedRMWReadReq
  | .evict pkt => s.1.isBlocked = false ∧ info.isEviction pkt.cmd = true
  | .writeback _ _ _ => True
  | .snoop _ pkt _ => pkt.cmd ≠ .lockedRMWReadReq ∧
      (info.needsWritable pkt.cmd = info.isInvalidate pkt.cmd ∨ pkt.cacheMaintenance = true) ∧
      (info.isRead pkt.cmd = true → info.isInvalidate pkt.cmd = false →
        info.needsWritable pkt.cmd = false)
  | .buffered i => i ∈ s.1.mshrQueue.allocatedList ∧
      (s.1.mshrQueue.entries i).downstreamPending = false
  | .clearDownstream i => i ∈ s.1.mshrQueue.allocatedList ∧
      (s.1.mshrQueue.entries i).downstreamPending = true
  | .send now prefetch reply => s.1.onPrefetch info p now prefetch reply = true ∧
      prefetch.bind Packet.sender = none
  | .respond now i resp blk => i ∈ s.1.mshrQueue.allocatedList ∧
      (info.isWrite resp.cmd = true → resp.cmd = .lockedRMWWriteResp) ∧
      (resp.cmd = .lockedRMWWriteResp → s.1.isBlocked = false) ∧
      MissRegister.promise info (s.1.register i, s.2 i) (.respond now resp blk)
  | .changeAbove above => ∀ i ∈ s.1.mshrQueue.allocatedList,
      ∀ r ∈ (s.1.mshrQueue.entries i).uppers, above r = true

/-- A register that cannot be sent: it is not ready when the write coalescing delays it, or a write
would be forwarded as it is. -/
def Unsendable (now : ℕ) (m : MSHR) : Reply → Prop
  | .delayed _ => now < m.readyTime
  | .retry isForward => isForward = true ∧ ∃ t ∈ m.targets.list.head?, info.isWrite t.pkt.cmd = true
  | .accepted _ isForward =>
      isForward = true ∧ ∃ t ∈ m.targets.list.head?, info.isWrite t.pkt.cmd = true
  | _ => False

/-- What makes an operation fail: the write buffer does not take a write or has no entry left, a
request is one that does not come or has to mark a register above that is pending already, a locked
read that hits is uncacheable or its block has a register, an eviction from above finds a write that
is no write-back or is neither clean nor a dirty write-back, a register cannot be sent, or a
response does not invalidate although a whole line was written, or finds a clash. -/
def Fails (s : MissPath) : Op → Prop
  | .request _ writebacks _ pkt _ => (∃ wb ∈ writebacks, ¬Buffered info wb) ∨ s.Refused info p pkt ∨
      s.writeBuffer.freeList.length < writebacks.length + (s.toWriteBuffer info p pkt).toNat ∨
      (s.asks info p pkt).any s.above = true
  | .lockedHit _ pkt => pkt.uncacheable = true ∨
      ∃ i, s.mshrQueue.findMatch (pkt.blockAddr p.blkSize) pkt.secure true = some (some i)
  | .evict pkt => ∃ i, s.writeBuffer.findMatch pkt.addr pkt.secure true = some (some i) ∧
      ((∃ t ∈ (s.writeBuffer.entries i).targets, info.isWriteback t.pkt.cmd = false) ∨
        info.isCleanEviction pkt.cmd = false ∧ pkt.cmd ≠ .writebackDirty)
  | .writeback _ writebacks _ => (∃ wb ∈ writebacks, ¬Buffered info wb) ∨
      s.writeBuffer.freeList.length < writebacks.length
  | .send now prefetch reply => ∃ i s' ops,
      s.getNextQueueEntry info p now prefetch = some (some (.miss i), s', ops) ∧
        Unsendable info now (s'.mshrQueue.entries i) reply
  | .respond _ i resp blk =>
      ((s.mshrQueue.entries i).wasWholeLineWrite = true ∧ info.isInvalidate resp.cmd = false) ∨
        (s.mshrQueue.entries i).ClashAt info resp blk s.above
  | _ => False

/-- What makes a write leave the write buffer: it is sent, or a dirty block from above or an
invalidation trumps it. -/
def Leaves (s : MissPath) (w : ℕ) : Op → Prop
  | .evict pkt => pkt.cmd = .writebackDirty ∧
      EntryQueue.matches' (s.writeBuffer.item w) pkt.addr pkt.secure = true
  | .snoop _ pkt _ => info.isInvalidate pkt.cmd = true ∧
      EntryQueue.matches' (s.writeBuffer.item w) (pkt.blockAddr p.blkSize) pkt.secure = true ∧
      ∀ t ∈ (s.writeBuffer.entries w).targets, t.pkt.cmd ≠ .writeClean
  | .send now prefetch (.accepted _ _) => ∃ s' ops,
      s.getNextQueueEntry info p now prefetch = some (some (.write w), s', ops)
  | _ => False

/-- The writes for a block that wait are ready at some time. -/
def ReadyBy (pkt : Packet) (time : ℕ) (s : MissPath) : Prop :=
  ∀ j ∈ s.writeBuffer.readyList,
    EntryQueue.matches' (s.writeBuffer.item j) (pkt.blockAddr p.blkSize) pkt.secure = true →
    (s.writeBuffer.item j).readyTime ≤ time

/-- No write is ready before the writes for its block that came earlier. -/
def Timely (s : MissPath) : Op → Prop
  | .request _ writebacks writebackTime pkt forwardTime =>
      (∀ wb ∈ writebacks, ReadyBy p wb writebackTime s) ∧
      (s.toWriteBuffer info p pkt = true → ReadyBy p pkt forwardTime s ∧
        ∀ wb ∈ writebacks, wb.blockAddr p.blkSize = pkt.blockAddr p.blkSize →
          wb.secure = pkt.secure → writebackTime ≤ forwardTime)
  | .writeback _ writebacks forwardTime => ∀ wb ∈ writebacks, ReadyBy p wb forwardTime s
  | _ => True

end MissPath

end OpenCache
