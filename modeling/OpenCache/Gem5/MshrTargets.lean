/-
**The targets of a miss status and handling register** (`mshr.hh`, `mshr.cc`).

A miss register (`MSHR`) keeps the requests that wait for one block: the *targets*, which the
outstanding request serves, and the *deferred targets*, which need another request.  Each of the two
lists has flags that summarize its requests.  This module has the functions of the register as the
source has them; an assertion that fails, a panic, or the front of an empty list is `none`.

A request may come from a register of a cache above.  The register sets the flag `downstreamPending`
of that one while the request waits to be sent, and clears it when it was sent: the flags of the
registers above are part of what the functions read and change.  To clear a flag is
`clearDownstreamPending` of the register above, which in turn clears flags further up; that is this
function again, in another cache.

The attributes of the commands (`isWrite`, `needsResponse`, `needsWritable` and so on) are a
parameter: the packets of the repository are stubs.  The data of a packet is not kept; whether a
packet has data does not depend on its command, so that `replaceUpgrade` cannot fail.

Main definitions:

* `OpenCache.Packet`, `OpenCache.Target`, `OpenCache.TargetList` — a request, a target, a list of
  targets with its flags;
* `OpenCache.MSHR` — the register; `OpenCache.Above` — the flags of the registers above;
* `OpenCache.MSHR.allocateTarget`, `OpenCache.MSHR.handleSnoop` — a request and a snoop arrive;
* `OpenCache.MSHR.extractServiceableTargets`, `OpenCache.MSHR.promoteDeferredTargets` — a
  response arrives.

Main results:

* `OpenCache.TargetList.populateFlags_needsWritable`,
  `OpenCache.TargetList.populateFlags_hasUpgrade` — what the flags of a list are after
  they were gathered;
* `OpenCache.TargetList.Sound` — what the flags of a list have to say about its targets; `add`,
  `populateFlags` and `replaceUpgrades` keep it;
* `OpenCache.MSHR.Linked` — the registers above that a register has to tell are different ones, and
  wait to be told; `OpenCache.clearUppers_spec` — then telling them does not fail;
* `OpenCache.TargetList.Sound.upgrades_replaceUpgrades` — **after `replaceUpgrades` no request is an
  upgrade**.
-/

import Mathlib.Data.List.Basic
import Mathlib.Data.List.Nodup
import Mathlib.Data.BitVec

set_option relaxedAutoImplicit false
set_option autoImplicit false

namespace OpenCache

/-- The commands of a packet (`MemCmd::Command`). -/
inductive MemCmd
  | readReq | writeReq | readResp | writeResp | writeLineReq | upgradeReq | upgradeResp
  | invalidateReq | invalidateResp | writebackDirty | cleanEvict | softPFReq | hardPFReq
  | writebackClean | storeCondReq | writeClean | readExReq | softPFExReq | scUpgradeReq
  | scUpgradeFailReq | storeCondFailReq | readRespWithInvalidate | lockedRMWReadReq | readCleanReq
  | readSharedReq | hardPFResp | lockedRMWWriteReq | lockedRMWWriteResp | upgradeFailResp | swapReq
  | invalidCmd
  deriving DecidableEq, Repr

/-- The attributes of a command that the repository has as stubs. -/
structure CmdInfo where
  isRead : MemCmd → Bool
  isWrite : MemCmd → Bool
  isEviction : MemCmd → Bool
  isWriteback : MemCmd → Bool
  isCleanEviction : MemCmd → Bool
  isSWPrefetch : MemCmd → Bool
  needsResponse : MemCmd → Bool
  needsWritable : MemCmd → Bool
  isUpgrade : MemCmd → Bool
  isClean : MemCmd → Bool
  isInvalidate : MemCmd → Bool
  isCleanInvalidateRequest : MemCmd → Bool

/-- What the source relies on about the commands that `replaceUpgrade` is about: the two upgrades
are upgrades, and the commands, like the ones that replace them, need a writable copy. -/
structure CmdInfo.Documented (info : CmdInfo) : Prop where
  upgradeReq : info.isUpgrade .upgradeReq = true
  scUpgradeReq : info.isUpgrade .scUpgradeReq = true
  needsWritable : ∀ c ∈ [MemCmd.upgradeReq, .scUpgradeReq, .storeCondReq, .readExReq,
    .scUpgradeFailReq, .storeCondFailReq], info.needsWritable c = true

/-- The attributes of the commands in the full simulator. -/
def CmdInfo.usual : CmdInfo where
  isRead c := c ∈ [MemCmd.readReq, .readResp, .readCleanReq, .readSharedReq, .readExReq, .softPFReq,
    .softPFExReq, .hardPFReq, .hardPFResp, .scUpgradeFailReq, .swapReq, .readRespWithInvalidate,
    .lockedRMWReadReq]
  isWrite c := c ∈ [MemCmd.writeReq, .writeResp, .writeLineReq, .writeClean, .writebackDirty,
    .writebackClean, .storeCondReq, .storeCondFailReq, .swapReq, .lockedRMWWriteReq,
    .lockedRMWWriteResp]
  isEviction c := c ∈ [MemCmd.writebackDirty, .writebackClean, .cleanEvict]
  isWriteback c := c ∈ [MemCmd.writebackDirty, .writebackClean]
  isCleanEviction c := c ∈ [MemCmd.cleanEvict, .writebackClean]
  isSWPrefetch c := c ∈ [MemCmd.softPFReq, .softPFExReq]
  needsResponse c := c ∈ [MemCmd.readReq, .writeReq, .writeLineReq, .readCleanReq, .readSharedReq,
    .readExReq, .upgradeReq, .scUpgradeReq, .scUpgradeFailReq, .storeCondReq,
    .storeCondFailReq, .swapReq,
    .softPFReq, .softPFExReq, .hardPFReq, .invalidateReq, .lockedRMWReadReq, .lockedRMWWriteReq]
  needsWritable c := c ∈ [MemCmd.writeReq, .writeLineReq, .upgradeReq, .scUpgradeReq,
    .scUpgradeFailReq, .storeCondReq, .storeCondFailReq, .readExReq, .softPFExReq,
    .lockedRMWReadReq, .lockedRMWWriteReq,
    .swapReq, .invalidateReq]
  isUpgrade c := c ∈ [MemCmd.upgradeReq, .scUpgradeReq]
  isClean _ := false
  isInvalidate c := c ∈ [MemCmd.writeLineReq, .upgradeReq, .scUpgradeReq,
    .scUpgradeFailReq, .readExReq, .invalidateReq, .readRespWithInvalidate]
  isCleanInvalidateRequest _ := false

/-- The attributes of the commands in `packet.hh`, by which no command needs a writable copy. -/
def CmdInfo.stub : CmdInfo where
  isRead c := c ∈ [MemCmd.readReq, .readResp, .readCleanReq, .readSharedReq]
  isWrite c := c ∈ [MemCmd.writeReq, .writeResp, .writeLineReq, .writeClean]
  isEviction _ := false
  isWriteback _ := false
  isCleanEviction _ := false
  isSWPrefetch c := c = MemCmd.softPFReq
  needsResponse c := c ∈ [MemCmd.readReq, .writeReq, .writeLineReq, .writeClean]
  needsWritable _ := false
  isUpgrade _ := false
  isClean _ := false
  isInvalidate _ := false
  isCleanInvalidateRequest _ := false

theorem CmdInfo.documented_usual : CmdInfo.usual.Documented := ⟨rfl, rfl, by decide⟩

/-- A packet, with what the register reads of it and of its request.  `noMerge` says that the
request has one of the `no_merge_flags`; `sender` is the register of a cache above in its
sender state. -/
structure Packet where
  cmd : MemCmd
  addr : BitVec 64
  size : ℕ
  secure : Bool
  uncacheable : Bool
  cacheMaintenance : Bool
  cacheInvalidate : Bool
  noMerge : Bool
  maskedWrite : Bool
  fromCache : Bool
  expressSnoop : Bool
  sender : Option ℕ
  deriving DecidableEq, Repr

/-- A request for the first bytes of a block, with nothing special about it. -/
def Packet.plain (cmd : MemCmd) : Packet :=
  ⟨cmd, 0, 4, false, false, false, false, false, false, false, false, none⟩

/-- The register above that is marked when a packet becomes a target. -/
def Packet.upper (markPending : Bool) (pkt : Packet) : Option ℕ :=
  if markPending then pkt.sender else none

/-- Where a target comes from (`Target::Source`). -/
inductive Source
  | fromCPU | fromSnoop | fromPrefetcher
  deriving DecidableEq, Repr

/-- A target (`MSHR::Target`). -/
structure Target where
  recvTime : ℕ
  readyTime : ℕ
  order : ℕ
  pkt : Packet
  source : Source
  markedPending : Bool
  allocOnFill : Bool
  deriving DecidableEq, Repr

/-- The flags `downstreamPending` of the registers of the caches above. -/
abbrev Above := ℕ → Bool

/-- The flag of a register above is set, if there is one. -/
def Above.set (above : Above) (upper : Option ℕ) : Above :=
  upper.elim above fun r => Function.update above r true

/-- `clearDownstreamPending` of a register above, as far as its own flag goes. -/
def Above.clear (above : Above) (r : ℕ) : Option Above :=
  if above r then some (Function.update above r false) else none

/-- The register above that has to be told when the request of a target was sent. -/
def Target.upper (t : Target) : Option ℕ := if t.markedPending then t.pkt.sender else none

/-- A target that does not come from a snoop. -/
def Target.demand (t : Target) : Bool := t.source ≠ .fromSnoop

/-- A target whose packet `replaceUpgrade` replaces: it hopes that this cache has a copy
of the block. -/
def Target.upgrades (t : Target) : Bool :=
  t.pkt.cmd == .upgradeReq || t.pkt.cmd == .scUpgradeReq || t.pkt.cmd == .storeCondReq

/-- A list of targets and its flags (`MSHR::TargetList`). -/
structure TargetList where
  list : List Target
  needsWritable : Bool
  hasUpgrade : Bool
  allocOnFill : Bool
  hasFromCache : Bool
  blkAddr : BitVec 64
  blkSize : ℕ
  canMergeWrites : Bool
  writesBitmap : List Bool
  deriving DecidableEq, Repr

namespace TargetList

/-- The list that the constructor makes. -/
def empty : TargetList := ⟨[], false, false, false, false, 0, 0, true, []⟩

def isWholeLineWrite (l : TargetList) : Bool := l.writesBitmap.all id

def resetFlags (l : TargetList) : TargetList :=
  { l with
    canMergeWrites := true
    writesBitmap := l.writesBitmap.map fun _ => false
    needsWritable := false
    hasUpgrade := false
    allocOnFill := false
    hasFromCache := false }

def init (blkAddr : BitVec 64) (blkSize : ℕ) (l : TargetList) : TargetList :=
  resetFlags { l with
    blkAddr := blkAddr
    blkSize := blkSize
    writesBitmap := List.replicate blkSize false }

def isReset (l : TargetList) : Bool :=
  !l.needsWritable && !l.hasUpgrade && !l.allocOnFill && !l.hasFromCache && l.canMergeWrites

/-- The bytes that a packet writes (`std::fill` in `updateWriteFlags`). -/
def markWritten (pkt : Packet) (l : TargetList) : TargetList :=
  let offset := pkt.addr.toNat % l.blkSize
  { l with writesBitmap := l.writesBitmap.mapIdx fun i written =>
      written || decide (offset ≤ i ∧ i < offset + pkt.size) }

variable (info : CmdInfo)

def updateWriteFlags (pkt : Packet) (l : TargetList) : TargetList :=
  if l.isWholeLineWrite then l
  else if l.canMergeWrites then
    if !info.isWrite pkt.cmd then { l with canMergeWrites := false }
    else
      let compatWrite := !pkt.noMerge
      let firstWrite := l.list.isEmpty
      let l := if !pkt.maskedWrite && (firstWrite || compatWrite) then l.markWritten pkt else l
      { l with canMergeWrites := l.canMergeWrites && compatWrite }
  else l

def updateFlags (pkt : Packet) (source : Source) (allocOnFill : Bool) (l : TargetList) :
    TargetList :=
  if source ≠ .fromSnoop then
    let l := { l with
      needsWritable := l.needsWritable || info.needsWritable pkt.cmd
      hasUpgrade := l.hasUpgrade || (info.isUpgrade pkt.cmd || pkt.cmd == .storeCondReq)
      allocOnFill := l.allocOnFill || allocOnFill }
    if source ≠ .fromPrefetcher then
      updateWriteFlags info pkt { l with hasFromCache := l.hasFromCache || pkt.fromCache }
    else l
  else l

def populateFlags (l : TargetList) : TargetList :=
  l.list.foldl (fun l t => updateFlags info t.pkt t.source t.allocOnFill l) l.resetFlags

/-- A target with its flags is appended. -/
def push (now : ℕ) (pkt : Packet) (readyTime order : ℕ) (source : Source)
    (markedPending allocOnFill : Bool) (l : TargetList) : TargetList :=
  let l := updateFlags info pkt source allocOnFill l
  { l with list := l.list ++ [⟨now, readyTime, order, pkt, source, markedPending, allocOnFill⟩] }

/-- A target is appended.  It is marked as pending if its packet has a register above it, which must
not be pending already. -/
def add (now : ℕ) (pkt : Packet) (readyTime order : ℕ) (source : Source)
    (markPending allocOnFill : Bool) (above : Above) (l : TargetList) :
    Option (TargetList × Above) :=
  let upper := pkt.upper markPending
  if upper.any above then none
  else some (l.push info now pkt readyTime order source upper.isSome allocOnFill, above.set upper)

/-- `Upgrade -> ReadEx`, `SC* -> Fail`. -/
def replaceUpgrade (pkt : Packet) : Packet :=
  if pkt.cmd = .upgradeReq then { pkt with cmd := .readExReq }
  else if pkt.cmd = .scUpgradeReq then { pkt with cmd := .scUpgradeFailReq }
  else if pkt.cmd = .storeCondReq then { pkt with cmd := .storeCondFailReq }
  else pkt

def replaceUpgrades (l : TargetList) : TargetList :=
  if !l.hasUpgrade then l
  else { l with
    list := l.list.map fun t => { t with pkt := replaceUpgrade t.pkt }
    hasUpgrade := false }

end TargetList

/-- The targets of a range are no longer marked as pending. -/
def unmark (ts : List Target) : List Target := ts.map fun t => { t with markedPending := false }

/-- The registers above the targets of a range that are marked are told
(`TargetList::clearDownstreamPending`). -/
def clearUppers : List Target → Above → Option Above
  | [], above => some above
  | t :: ts, above => (t.upper.elim (some above) above.clear).bind (clearUppers ts)

/-- An entry of a queue (`QueueEntry`). -/
structure QueueEntry where
  readyTime : ℕ
  isUncacheable : Bool
  inService : Bool
  order : ℕ
  blkAddr : BitVec 64
  blkSize : ℕ
  isSecure : Bool
  deriving DecidableEq, Repr

/-- A miss status and handling register. -/
structure MSHR extends QueueEntry where
  downstreamPending : Bool
  pendingModified : Bool
  postInvalidate : Bool
  postDowngrade : Bool
  wasWholeLineWrite : Bool
  isForward : Bool
  targets : TargetList
  deferredTargets : TargetList
  deriving DecidableEq, Repr

/-- What a snoop leaves on the packet: whether this cache will respond (and had the line in the
modified state), whether a clean request is satisfied, whether there are sharers. -/
structure SnoopReply where
  willRespond : Bool
  cacheResponding : Bool
  satisfied : Bool
  hasSharers : Bool
  deriving DecidableEq, Repr

namespace MSHR

def empty : MSHR :=
  ⟨⟨0, false, false, 0, 0, 0, false⟩, false, false, false, false, false, false, .empty, .empty⟩

def getNumTargets (m : MSHR) : ℕ := m.targets.list.length + m.deferredTargets.list.length

def hasTargets (m : MSHR) : Bool := !m.targets.list.isEmpty

/-- `Packet::matchBlockAddr` of two packets. -/
def sameBlock (blkSize : ℕ) (p q : Packet) : Bool :=
  p.addr.toNat / blkSize == q.addr.toNat / blkSize

variable (info : CmdInfo)

def allocate (now : ℕ) (blkAddr : BitVec 64) (blkSize : ℕ) (target : Packet) (whenReady order : ℕ)
    (allocOnFill : Bool) (above : Above) (m : MSHR) : Option (MSHR × Above) :=
  let source := if target.cmd = .hardPFReq then Source.fromPrefetcher else Source.fromCPU
  ((m.targets.init blkAddr blkSize).add info now target whenReady order source true allocOnFill
      above).bind fun r =>
    let m := { m with
      blkAddr := blkAddr
      blkSize := blkSize
      isSecure := target.secure
      readyTime := whenReady
      order := order
      isForward := false
      wasWholeLineWrite := false
      isUncacheable := target.uncacheable
      inService := false
      downstreamPending := false
      targets := r.1
      deferredTargets := m.deferredTargets.init blkAddr blkSize }
    -- all targets must refer to the same block
    if m.targets.list.head?.all fun front => sameBlock blkSize target front.pkt then some (m, r.2)
    else none

def clearDownstreamPending (above : Above) (m : MSHR) : Option (MSHR × Above) :=
  if m.downstreamPending then
    (clearUppers m.targets.list above).map fun above =>
      ({ m with
        downstreamPending := false
        targets := { m.targets with list := unmark m.targets.list } }, above)
  else none

def markInService (pendingModifiedResp : Bool) (above : Above) (m : MSHR) : Option (MSHR × Above) :=
  if m.inService then none
  else
    let m := { m with
      inService := true
      pendingModified := m.targets.needsWritable || pendingModifiedResp
      postInvalidate := false
      postDowngrade := false
      wasWholeLineWrite := m.targets.isWholeLineWrite }
    -- the caches above are told that the request will get a response
    if m.downstreamPending then some (m, above)
    else (clearUppers m.targets.list above).map fun above =>
      ({ m with targets := { m.targets with list := unmark m.targets.list } }, above)

/-- Only a register in service says what comes after its response. -/
def hasPostInvalidate (m : MSHR) : Option Bool :=
  if m.inService then some m.postInvalidate else none

def hasPostDowngrade (m : MSHR) : Option Bool := if m.inService then some m.postDowngrade else none

def deallocate (m : MSHR) : Option MSHR :=
  if m.targets.list.isEmpty ∧ m.deferredTargets.isReset then
    some { m with
      targets := m.targets.resetFlags
      inService := false }
  else none

/-- Whether a request has to wait until after the response. -/
def defers (pkt front : Packet) (m : MSHR) : Bool :=
  pkt.cacheMaintenance || front.cacheMaintenance || !m.deferredTargets.list.isEmpty ||
    m.inService && (m.postInvalidate ||
      info.needsWritable pkt.cmd && (!m.pendingModified || m.postDowngrade || m.isForward))

def allocateTarget (now : ℕ) (pkt : Packet) (whenReady order : ℕ) (allocOnFill : Bool)
    (above : Above) (m : MSHR) : Option (MSHR × Above) :=
  if pkt.cmd = .hardPFReq then none
  else m.targets.list.head?.bind fun front =>
    if m.defers info pkt front.pkt then
      let pkt := if m.inService && m.postInvalidate then TargetList.replaceUpgrade pkt else pkt
      (m.deferredTargets.add info now pkt whenReady order .fromCPU true allocOnFill above).map
        fun r => ({ m with deferredTargets := r.1 }, r.2)
    else
      (m.targets.add info now pkt whenReady order .fromCPU (!m.inService) allocOnFill above).map
        fun r => ({ m with targets := r.1 }, r.2)

/-- The copy of a snooped packet that waits in the register. -/
def copySnoop (willRespond : Bool) (pkt : Packet) (m : MSHR) : Packet :=
  if willRespond then { pkt with expressSnoop := false, sender := none }
  else { pkt with addr := 0, size := m.blkSize, expressSnoop := false, sender := none }

/-- A snoop that the request of the register precedes. -/
def snoopInService (now : ℕ) (pkt : Packet) (order : ℕ) (above : Above) (m : MSHR) :
    Option (SnoopReply × MSHR × Above) :=
  let needsWritable := info.needsWritable pkt.cmd
  let isInvalidate := info.isInvalidate pkt.cmd
  let willRespond := m.pendingModified && info.needsResponse pkt.cmd && !info.isClean pkt.cmd
  let saved := m.pendingModified || isInvalidate
  let downgrades := !needsWritable && !pkt.uncacheable
  let added :=
    if saved then
      m.targets.add info now (m.copySnoop willRespond pkt) now order .fromSnoop
        (m.downstreamPending && m.targets.needsWritable) false above
    else some (m.targets, above)
  added.map fun r =>
    (⟨willRespond, saved && willRespond,
        saved && !willRespond && m.pendingModified && info.isClean pkt.cmd, downgrades⟩,
      { m with
        targets := r.1
        postInvalidate := m.postInvalidate || saved && (needsWritable || isInvalidate)
        postDowngrade := m.postDowngrade || downgrades }, r.2)

/-- Whether a packet takes the block away from this cache. -/
def takesBlock (pkt : Packet) : Bool := info.needsWritable pkt.cmd || pkt.cacheInvalidate

def handleSnoop (now : ℕ) (pkt : Packet) (order : ℕ) (above : Above) (m : MSHR) :
    Option (SnoopReply × MSHR × Above) :=
  -- snoops that need a writable copy and snoops that invalidate should be the same
  if info.needsWritable pkt.cmd ≠ info.isInvalidate pkt.cmd ∧ !pkt.cacheMaintenance then none
  else if !m.inService || pkt.expressSnoop && m.downstreamPending then
    some (⟨false, false, false, false⟩,
      if takesBlock info pkt then
        { m with
          targets := m.targets.replaceUpgrades
          deferredTargets := m.deferredTargets.replaceUpgrades }
      else m, above)
  else
    let m :=
      if takesBlock info pkt then { m with deferredTargets :=
        m.deferredTargets.replaceUpgrades } else m
    m.targets.list.head?.bind fun front =>
      -- the block is gone already, there is no need for further snooping
      if m.postInvalidate || front.pkt.cacheInvalidate then
        some (⟨true, false, false, false⟩, m, above)
      else m.snoopInService info now pkt order above

/-- The loop of `extractServiceableTargets` after an invalidating response: snoops are served,
requests stay. -/
def takeSnoops : List Target → Option (List Target × List Target)
  | [] => some ([], [])
  | t :: ts =>
      if t.source = .fromCPU then (takeSnoops ts).map fun r => (r.1, t :: r.2)
      else if t.source = .fromSnoop then (takeSnoops ts).map fun r => (t :: r.1, r.2)
      else none

/-- The loop of `extractServiceableTargets` after any other response: up to a locked read, which is
served and stays. -/
def takeTargets : List Target → List Target × List Target
  | [] => ([], [])
  | t :: ts =>
      if t.pkt.cmd = .lockedRMWReadReq then ([t], t :: ts)
      else (t :: (takeTargets ts).1, (takeTargets ts).2)

/-- The targets that are served, and the ones that stay. -/
def splitTargets (resp : Packet) (ts : List Target) : Option (List Target × List Target) :=
  if resp.cmd = .readRespWithInvalidate then
    match ts with
    | [] => none
    | t :: ts =>
        if t.source = .fromSnoop then none
        else if t.pkt.cmd ≠ .lockedRMWReadReq then (takeSnoops ts).map fun r => (t :: r.1, r.2)
        else some ([t], t :: ts)
  else some (takeTargets ts)

def extractServiceableTargets (resp : Packet) (m : MSHR) : Option (TargetList × MSHR) :=
  (splitTargets resp m.targets.list).map fun r =>
    (TargetList.populateFlags info
        { (TargetList.empty.init m.blkAddr m.blkSize) with list := r.1 },
      { m with targets := TargetList.populateFlags info { m.targets with list := r.2 } })

/-- The deferred targets that are moved, and the ones that stay. -/
def splitDeferred (targets deferred : List Target) : List Target × List Target :=
  let before := deferred.takeWhile fun t => !t.pkt.cacheMaintenance
  let rest := deferred.dropWhile fun t => !t.pkt.cacheMaintenance
  if before.isEmpty then
    -- a cache maintenance packet is serviced on its own
    if targets.isEmpty then (rest.take 1, rest.drop 1) else ([], rest)
  else (before, rest)

def promoteDeferredTargets (now : ℕ) (m : MSHR) : Bool × MSHR :=
  if m.targets.list.isEmpty && m.deferredTargets.list.isEmpty then (false, m)
  else
    let r := splitDeferred m.targets.list m.deferredTargets.list
    let targets := TargetList.populateFlags info { m.targets with list := m.targets.list ++ r.1 }
    let deferred := TargetList.populateFlags info { m.deferredTargets with list := r.2 }
    (true, { m with
      targets := targets
      deferredTargets := deferred
      order := targets.list.head?.elim m.order Target.order
      readyTime := targets.list.head?.elim m.readyTime fun front => max now front.readyTime })

/-- The deferred targets up to the first one that does not satisfy a condition.  The conditions
assert that a deferred target is a request. -/
def promoteIf (pred : Target → Bool) (above : Above) (m : MSHR) : Option (MSHR × Above) :=
  let moved := m.deferredTargets.list.takeWhile pred
  let rest := m.deferredTargets.list.dropWhile pred
  if m.downstreamPending ∨
      ¬(moved ++ rest.take 1).all fun t => t.source = .fromCPU then none
  else (clearUppers moved above).map fun above =>
    ({ m with
      targets := { m.targets with list := m.targets.list ++ unmark moved }
      deferredTargets := TargetList.populateFlags info { m.deferredTargets with list := rest } },
        above)

def promoteReadable (above : Above) (m : MSHR) : Option (MSHR × Above) :=
  if m.deferredTargets.list.isEmpty then some (m, above)
  else m.hasPostInvalidate.bind fun postInvalidate =>
    if postInvalidate then some (m, above)
    else m.promoteIf info (fun t => !t.pkt.cacheInvalidate && !info.needsWritable t.pkt.cmd) above

def promoteWritable (above : Above) (m : MSHR) : Option (MSHR × Above) :=
  match m.deferredTargets.list with
  | [] => some (m, above)
  | front :: _ =>
      if !m.deferredTargets.needsWritable then some (m, above)
      else m.hasPostInvalidate.bind fun postInvalidate =>
        if postInvalidate then some (m, above)
        else m.hasPostDowngrade.bind fun postDowngrade =>
          if postDowngrade || front.pkt.cacheInvalidate then some (m, above)
          else if m.targets.needsWritable then none
          else promoteIf info (fun t => !t.pkt.cacheInvalidate) above
            { m with targets := { m.targets with needsWritable := true } }

def popTarget (m : MSHR) : MSHR :=
  { m with targets := { m.targets with list := m.targets.list.tail } }

def hasLockedRMWReadTarget (m : MSHR) : Bool :=
  m.targets.list.head?.any fun front => front.pkt.cmd = .lockedRMWReadReq

/-- The packet of a locked read that was served is replaced by one that only keeps the register.
The served target has to be the first one: its order tells its packet from others. -/
def updateLockedRMWReadTarget (served : Target) (m : MSHR) : Option MSHR :=
  match m.targets.list with
  | [] => none
  | front :: rest =>
      if front.order = served.order ∧ front.pkt = served.pkt then
        some { m with targets := { m.targets with list := { front with pkt := { front.pkt with
            cmd := .lockedRMWReadReq
            addr := 0
            size := 0
            maskedWrite := false
            fromCache := false
            expressSnoop := false
            sender := none } } :: rest } }
      else none

def delay (now delayTicks : ℕ) (m : MSHR) : Option MSHR :=
  if m.readyTime ≤ now then some { m with readyTime := now + delayTicks } else none

end MSHR

/-! ### The flags of a list -/

namespace TargetList

variable {info : CmdInfo} {l : TargetList} {pkt : Packet} {source : Source} {a : Bool}

theorem updateWriteFlags_same (info : CmdInfo) (pkt : Packet) (l : TargetList) :
    (updateWriteFlags info pkt l).list = l.list ∧
      (updateWriteFlags info pkt l).needsWritable = l.needsWritable ∧
      (updateWriteFlags info pkt l).hasUpgrade = l.hasUpgrade := by
  unfold updateWriteFlags
  split
  · exact ⟨rfl, rfl, rfl⟩
  · split
    · split
      · exact ⟨rfl, rfl, rfl⟩
      · simp only [markWritten]
        split <;> exact ⟨rfl, rfl, rfl⟩
    · exact ⟨rfl, rfl, rfl⟩

@[simp] theorem updateFlags_list : (updateFlags info pkt source a l).list = l.list := by
  unfold updateFlags
  split
  · split
    · exact (updateWriteFlags_same _ _ _).1
    · rfl
  · rfl

@[simp] theorem updateFlags_needsWritable : (updateFlags info pkt source a l).needsWritable =
    (l.needsWritable || decide (source ≠ .fromSnoop) && info.needsWritable pkt.cmd) := by
  unfold updateFlags
  split
  · next h =>
      rw [decide_eq_true h, Bool.true_and]
      split
      · exact (updateWriteFlags_same _ _ _).2.1
      · rfl
  · next h => rw [decide_eq_false h, Bool.false_and, Bool.or_false]

@[simp] theorem updateFlags_hasUpgrade : (updateFlags info pkt source a l).hasUpgrade =
    (l.hasUpgrade || decide (source ≠ .fromSnoop) &&
      (info.isUpgrade pkt.cmd || pkt.cmd == .storeCondReq)) := by
  unfold updateFlags
  split
  · next h =>
      rw [decide_eq_true h, Bool.true_and]
      split
      · exact (updateWriteFlags_same _ _ _).2.2
      · rfl
  · next h => rw [decide_eq_false h, Bool.false_and, Bool.or_false]

/-- Gathering the flags of some targets. -/
theorem foldl_updateFlags (ts : List Target) (l : TargetList) :
    let l' := ts.foldl (fun l t => updateFlags info t.pkt t.source t.allocOnFill l) l
    l'.list = l.list ∧
      l'.needsWritable = (l.needsWritable || ts.any fun t => t.demand &&
        info.needsWritable t.pkt.cmd) ∧
      l'.hasUpgrade = (l.hasUpgrade ||
        ts.any fun t => t.demand && (info.isUpgrade t.pkt.cmd || t.pkt.cmd == .storeCondReq)) := by
  induction ts generalizing l with
  | nil => simp
  | cons t ts ih =>
      obtain ⟨hlist, hwritable, hupgrade⟩ := ih (updateFlags info t.pkt t.source t.allocOnFill l)
      refine ⟨by simpa using hlist, ?_, ?_⟩
      · simp only [List.foldl_cons, hwritable, updateFlags_needsWritable, List.any_cons,
          Bool.or_assoc]
        rfl
      · simp only [List.foldl_cons, hupgrade, updateFlags_hasUpgrade, List.any_cons, Bool.or_assoc]
        rfl

@[simp] theorem populateFlags_list : (populateFlags info l).list = l.list :=
  (foldl_updateFlags l.list l.resetFlags).1

theorem populateFlags_needsWritable : (populateFlags info l).needsWritable =
    l.list.any fun t => t.demand && info.needsWritable t.pkt.cmd := by
  exact (foldl_updateFlags l.list l.resetFlags).2.1.trans (Bool.false_or _)

theorem populateFlags_hasUpgrade : (populateFlags info l).hasUpgrade =
    l.list.any fun t => t.demand && (info.isUpgrade t.pkt.cmd || t.pkt.cmd == .storeCondReq) := by
  exact (foldl_updateFlags l.list l.resetFlags).2.2.trans (Bool.false_or _)

@[simp] theorem isReset_resetFlags : l.resetFlags.isReset = true := rfl

theorem isReset_populateFlags (h : l.list = []) : (populateFlags info l).isReset = true := by
  unfold populateFlags
  rw [h]
  rfl

@[simp] theorem init_list (blkAddr : BitVec 64) (blkSize : ℕ) :
    (l.init blkAddr blkSize).list = l.list := rfl

@[simp] theorem isReset_init (blkAddr : BitVec 64) (blkSize : ℕ) :
    (l.init blkAddr blkSize).isReset = true := rfl

@[simp] theorem push_list (now readyTime order : ℕ) (markedPending : Bool) :
    (push info now pkt readyTime order source markedPending a l).list =
      l.list ++ [⟨now, readyTime, order, pkt, source, markedPending, a⟩] := by
  simp [push]

theorem replaceUpgrade_cases (pkt : Packet) :
    (replaceUpgrade pkt = { pkt with cmd := .readExReq } ∧ pkt.cmd = .upgradeReq) ∨
      (replaceUpgrade pkt = { pkt with cmd := .scUpgradeFailReq } ∧ pkt.cmd = .scUpgradeReq) ∨
      (replaceUpgrade pkt = { pkt with cmd := .storeCondFailReq } ∧ pkt.cmd = .storeCondReq) ∨
      replaceUpgrade pkt = pkt ∧ pkt.cmd ≠ .upgradeReq ∧ pkt.cmd ≠ .scUpgradeReq ∧
        pkt.cmd ≠ .storeCondReq := by
  unfold replaceUpgrade
  split
  · next h => exact Or.inl ⟨rfl, h⟩
  · next h₁ =>
      split
      · next h => exact Or.inr (Or.inl ⟨rfl, h⟩)
      · next h₂ =>
          split
          · next h => exact Or.inr (Or.inr (Or.inl ⟨rfl, h⟩))
          · next h₃ => exact Or.inr (Or.inr (Or.inr ⟨rfl, h₁, h₂, h₃⟩))

/-- A target with its packet replaced. -/
def replaced (t : Target) : Target := { t with pkt := replaceUpgrade t.pkt }

theorem upgrades_replaced (t : Target) : (replaced t).upgrades = false := by
  unfold Target.upgrades replaced
  rcases replaceUpgrade_cases t.pkt with ⟨h, -⟩ | ⟨h, -⟩ | ⟨h, -⟩ | ⟨h, h₁, h₂, h₃⟩
  · rw [h]
    rfl
  · rw [h]
    rfl
  · rw [h]
    rfl
  · simp [h, h₁, h₂, h₃]

theorem needsWritable_replaced (hinfo : info.Documented) (t : Target) :
    info.needsWritable (replaced t).pkt.cmd = info.needsWritable t.pkt.cmd := by
  have hwritable := hinfo.needsWritable
  unfold replaced
  rcases replaceUpgrade_cases t.pkt with ⟨h, hcmd⟩ | ⟨h, hcmd⟩ | ⟨h, hcmd⟩ | ⟨h, -⟩
  · rw [h, hcmd, hwritable _ (by simp), hwritable _ (by simp)]
  · rw [h, hcmd, hwritable _ (by simp), hwritable _ (by simp)]
  · rw [h, hcmd, hwritable _ (by simp), hwritable _ (by simp)]
  · rw [h]

theorem replaced_same (t : Target) :
    (replaced t).pkt.cacheMaintenance = t.pkt.cacheMaintenance ∧
      (replaced t).pkt.cacheInvalidate = t.pkt.cacheInvalidate ∧
      ((replaced t).pkt.cmd = .lockedRMWReadReq ↔ t.pkt.cmd = .lockedRMWReadReq) := by
  unfold replaced
  rcases replaceUpgrade_cases t.pkt with ⟨h, hcmd⟩ | ⟨h, hcmd⟩ | ⟨h, hcmd⟩ | ⟨h, -⟩
  · rw [h, hcmd]
    simp
  · rw [h, hcmd]
    simp
  · rw [h, hcmd]
    simp
  · rw [h]
    exact ⟨rfl, rfl, Iff.rfl⟩

/-- What the flags of a list have to say about its targets. -/
structure Sound (info : CmdInfo) (l : TargetList) : Prop where
  needsWritable : ∀ t ∈ l.list, t.demand = true → info.needsWritable t.pkt.cmd = true →
    l.needsWritable = true
  hasUpgrade : ∀ t ∈ l.list, t.demand = true → t.upgrades = true → l.hasUpgrade = true

theorem isUpgrade_of_upgrades (hinfo : info.Documented) {t : Target} (h : t.upgrades = true) :
    (info.isUpgrade t.pkt.cmd || t.pkt.cmd == .storeCondReq) = true := by
  simp only [Target.upgrades, Bool.or_eq_true, beq_iff_eq] at h
  rcases h with (hcmd | hcmd) | hcmd
  · rw [hcmd, hinfo.upgradeReq, Bool.true_or]
  · rw [hcmd, hinfo.scUpgradeReq, Bool.true_or]
  · rw [hcmd]
    exact Bool.or_true _

theorem sound_populateFlags (hinfo : info.Documented) (l : TargetList) :
    (populateFlags info l).Sound info := by
  constructor
  · intro t ht hdemand hwritable
    rw [populateFlags_list] at ht
    rw [populateFlags_needsWritable, List.any_eq_true]
    exact ⟨t, ht, by rw [hdemand, hwritable]; rfl⟩
  · intro t ht hdemand hupgrade
    rw [populateFlags_list] at ht
    rw [populateFlags_hasUpgrade, List.any_eq_true]
    exact ⟨t, ht, by rw [hdemand, isUpgrade_of_upgrades hinfo hupgrade]; rfl⟩

theorem sound_nil (h : l.list = []) : l.Sound info := by
  constructor <;> (intro t ht; rw [h] at ht; cases ht)

theorem Sound.push (h : l.Sound info) (hinfo : info.Documented) (now : ℕ) (pkt : Packet)
    (readyTime order : ℕ) (source : Source) (markedPending a : Bool) :
    (l.push info now pkt readyTime order source markedPending a).Sound info := by
  constructor
  · intro t ht hdemand hwritable
    rw [push_list, List.mem_append, List.mem_singleton] at ht
    simp only [TargetList.push, updateFlags_needsWritable]
    rcases ht with ht | rfl
    · rw [h.needsWritable t ht hdemand hwritable, Bool.true_or]
    · rw [hwritable, Bool.and_true]
      exact Bool.or_eq_true_iff.2 (Or.inr hdemand)
  · intro t ht hdemand hupgrade
    rw [push_list, List.mem_append, List.mem_singleton] at ht
    simp only [TargetList.push, updateFlags_hasUpgrade]
    rcases ht with ht | rfl
    · rw [h.hasUpgrade t ht hdemand hupgrade, Bool.true_or]
    · have hsource : decide (source ≠ .fromSnoop) = true := hdemand
      have hcmd := isUpgrade_of_upgrades hinfo hupgrade
      rw [hsource, Bool.true_and]
      exact Bool.or_eq_true_iff.2 (Or.inr hcmd)

/-- Fewer targets under the same flags. -/
theorem Sound.of_subset (h : l.Sound info) {ts : List Target} (hsub : ∀ t ∈ ts, t ∈ l.list) :
    ({ l with list := ts } : TargetList).Sound info :=
  ⟨fun t ht => h.needsWritable t (hsub t ht), fun t ht => h.hasUpgrade t (hsub t ht)⟩

theorem Sound.unmark (h : l.Sound info) :
    ({ l with list := OpenCache.unmark l.list } : TargetList).Sound info := by
  constructor
  · intro t ht hdemand hwritable
    obtain ⟨u, hu, rfl⟩ := List.mem_map.1 ht
    exact h.needsWritable u hu hdemand hwritable
  · intro t ht hdemand hupgrade
    obtain ⟨u, hu, rfl⟩ := List.mem_map.1 ht
    exact h.hasUpgrade u hu hdemand hupgrade

/-- What `replaceUpgrades` leaves of the targets. -/
theorem replaceUpgrades_cases (l : TargetList) :
    (l.hasUpgrade = false ∧ l.replaceUpgrades = l) ∨
      l.replaceUpgrades = { l with list := l.list.map replaced, hasUpgrade := false } := by
  unfold TargetList.replaceUpgrades
  split
  · next h => exact Or.inl ⟨by simpa using h, rfl⟩
  · exact Or.inr rfl

theorem Sound.replaceUpgrades (h : l.Sound info) (hinfo : info.Documented) :
    l.replaceUpgrades.Sound info := by
  rcases l.replaceUpgrades_cases with ⟨-, heq⟩ | heq
  · rwa [heq]
  · rw [heq]
    constructor
    · intro t ht hdemand hwritable
      obtain ⟨u, hu, rfl⟩ := List.mem_map.1 ht
      rw [needsWritable_replaced hinfo] at hwritable
      exact h.needsWritable u hu hdemand hwritable
    · intro t ht _ hupgrade
      obtain ⟨u, -, rfl⟩ := List.mem_map.1 ht
      rw [upgrades_replaced] at hupgrade
      cases hupgrade

/-- **After `replaceUpgrades` no request of the list is an upgrade.** -/
theorem Sound.upgrades_replaceUpgrades (h : l.Sound info) :
    ∀ t ∈ l.replaceUpgrades.list, t.demand = true → t.upgrades = false := by
  intro t ht hdemand
  rcases l.replaceUpgrades_cases with ⟨hnone, heq⟩ | heq
  · rw [heq] at ht
    by_contra hupgrade
    rw [Bool.not_eq_false] at hupgrade
    rw [h.hasUpgrade t ht hdemand hupgrade] at hnone
    cases hnone
  · rw [heq] at ht
    obtain ⟨u, -, rfl⟩ := List.mem_map.1 ht
    exact upgrades_replaced u

end TargetList

theorem MSHR.hasPostInvalidate_of_inService {m : MSHR} (h : m.inService = true) :
    m.hasPostInvalidate = some m.postInvalidate := if_pos h

theorem MSHR.hasPostDowngrade_of_inService {m : MSHR} (h : m.inService = true) :
    m.hasPostDowngrade = some m.postDowngrade := if_pos h

/-! ### The registers above -/

/-- The registers above that some targets have to tell. -/
def uppers (ts : List Target) : List ℕ := ts.filterMap Target.upper

@[simp] theorem uppers_nil : uppers [] = [] := rfl

@[simp] theorem uppers_append (ts us : List Target) : uppers (ts ++ us) = uppers ts ++ uppers us :=
  List.filterMap_append

@[simp] theorem uppers_unmark (ts : List Target) : uppers (unmark ts) = [] := by
  unfold uppers unmark
  rw [List.filterMap_map, List.filterMap_eq_nil_iff]
  intro t _
  rfl

theorem uppers_singleton (t : Target) : uppers [t] = t.upper.toList := by
  unfold uppers
  cases h : t.upper with
  | none => rw [List.filterMap_cons_none h]; rfl
  | some r => rw [List.filterMap_cons_some h]; rfl

theorem uppers_cons (t : Target) (ts : List Target) :
    uppers (t :: ts) = t.upper.toList ++ uppers ts := by
  rw [← uppers_singleton, ← uppers_append]
  rfl

/-- **Different registers that are pending can be told**: their flags are cleared, and no others. -/
theorem clearUppers_spec {ts : List Target} {above : Above} (hnodup : (uppers ts).Nodup)
    (hpending : ∀ r ∈ uppers ts, above r = true) : ∃ above', clearUppers ts above = some above' ∧
      ∀ r, above' r = (above r && decide (r ∉ uppers ts)) := by
  induction ts generalizing above with
  | nil => exact ⟨above, rfl, fun r => by simp⟩
  | cons t ts ih =>
      rw [uppers_cons] at hnodup hpending
      unfold clearUppers
      cases ht : t.upper with
      | none =>
          rw [ht, Option.toList_none, List.nil_append] at hnodup hpending
          obtain ⟨above', hclear, habove⟩ := ih hnodup hpending
          refine ⟨above', hclear, fun r => ?_⟩
          rw [habove, uppers_cons, ht, Option.toList_none, List.nil_append]
      | some q =>
          rw [ht, Option.toList_some, List.singleton_append] at hnodup hpending
          obtain ⟨hq, hnodup⟩ := List.nodup_cons.1 hnodup
          have hset : above q = true := hpending q List.mem_cons_self
          have hrest : ∀ r ∈ uppers ts, Function.update above q false r = true := by
            intro r hr
            have hne : r ≠ q := fun heq => hq (heq ▸ hr)
            rw [Function.update_of_ne hne]
            exact hpending r (List.mem_cons_of_mem _ hr)
          obtain ⟨above', hclear, habove⟩ := ih hnodup hrest
          refine ⟨above', ?_, fun r => ?_⟩
          · rw [Option.elim_some, Above.clear, if_pos hset, Option.bind_some, hclear]
          · rw [habove, uppers_cons, ht, Option.toList_some, List.singleton_append]
            by_cases hr : r = q
            · subst hr
              simp
            · simp [hr]

@[simp] theorem upper_added (now readyTime order : ℕ) (pkt : Packet) (source : Source)
    (markPending allocOnFill : Bool) :
    Target.upper ⟨now, readyTime, order, pkt, source, (pkt.upper markPending).isSome, allocOnFill⟩ =
      pkt.upper markPending := by
  unfold Target.upper Packet.upper
  cases markPending
  · rfl
  · rw [if_pos rfl]
    cases pkt.sender <;> rfl

namespace MSHR

variable {m m' : MSHR} {above above' : Above}

/-- The registers above that a register has to tell. -/
def uppers (m : MSHR) : List ℕ := OpenCache.uppers (m.targets.list ++ m.deferredTargets.list)

/-- The registers above that a register has to tell are different ones, and wait to be told. -/
structure Linked (above : Above) (m : MSHR) : Prop where
  nodup : m.uppers.Nodup
  pending : ∀ r ∈ m.uppers, above r = true

/-- A change of a register and of the flags above it: it touches the flags of registers that it had
to tell, and of ones that were not pending. -/
structure Relinked (above : Above) (m : MSHR) (above' : Above) (m' : MSHR) : Prop where
  linked : Linked above' m'
  uppers : ∀ r ∈ m'.uppers, r ∈ m.uppers ∨ above r = false
  above : ∀ r, above' r = above r ∨ r ∈ m.uppers ∨ above r = false

/-- Fewer registers above have to be told. -/
theorem Linked.relinked (h : Linked above m) (hsub : m'.uppers.Sublist m.uppers) :
    Relinked above m above m' :=
  ⟨⟨h.nodup.sublist hsub, fun r hr => h.pending r (hsub.mem hr)⟩, fun _ hr => Or.inl (hsub.mem hr),
    fun _ => Or.inl rfl⟩

theorem Relinked.trans {m₁ : MSHR} {above₁ : Above} (h₁ : Relinked above m above₁ m₁)
    (h₂ : Relinked above₁ m₁ above' m') : Relinked above m above' m' := by
  have hfree : ∀ r, above₁ r = false → r ∈ m.uppers ∨ above r = false := by
    intro r hr
    rcases h₁.above r with heq | h
    · exact Or.inr (heq ▸ hr)
    · exact h
  have htell : ∀ r, r ∈ m₁.uppers ∨ above₁ r = false → r ∈ m.uppers ∨ above r = false := by
    rintro r (hr | hr)
    · exact h₁.uppers r hr
    · exact hfree r hr
  refine ⟨h₂.linked, fun r hr => htell r (h₂.uppers r hr), fun r => ?_⟩
  rcases h₂.above r with heq | h
  · rw [heq]
    exact h₁.above r
  · exact Or.inr (htell r h)

/-- A target is added whose register above, if it has one, is not pending. -/
theorem Linked.added (h : Linked above m) {upper : Option ℕ} (hfree : upper.any above = false)
    (hperm : m'.uppers.Perm (upper.toList ++ m.uppers)) :
    Relinked above m (above.set upper) m' := by
  cases upper with
  | none => exact ⟨⟨hperm.nodup_iff.2 h.nodup, fun r hr => h.pending r (hperm.mem_iff.1 hr)⟩,
      fun r hr => Or.inl (hperm.mem_iff.1 hr), fun _ => Or.inl rfl⟩
  | some q =>
      have hq : above q = false := hfree
      have hnot : q ∉ m.uppers := by
        intro hmem
        rw [h.pending q hmem] at hq
        cases hq
      refine ⟨⟨hperm.nodup_iff.2 (List.nodup_cons.2 ⟨hnot, h.nodup⟩), fun r hr => ?_⟩,
        fun r hr => ?_, fun r => ?_⟩
      · rcases List.mem_cons.1 (hperm.mem_iff.1 hr) with rfl | hr
        · exact Function.update_self _ _ _
        · have hne : r ≠ q := fun heq => hnot (heq ▸ hr)
          exact (Function.update_of_ne hne _ _).trans (h.pending r hr)
      · rcases List.mem_cons.1 (hperm.mem_iff.1 hr) with rfl | hr
        · exact Or.inr hq
        · exact Or.inl hr
      · by_cases hr : r = q
        · exact Or.inr (Or.inr (hr ▸ hq))
        · exact Or.inl (Function.update_of_ne hr _ _)

/-- **Some of the registers above can be told**, and the others are still to be told. -/
theorem Linked.cleared (h : Linked above m) {ts : List Target} {rest : List ℕ}
    (hperm : m.uppers.Perm (OpenCache.uppers ts ++ rest)) : ∃ above',
      clearUppers ts above = some above' ∧ ∀ m' : MSHR, m'.uppers = rest →
      Relinked above m above' m' := by
  have hnodup := hperm.nodup_iff.1 h.nodup
  rw [List.nodup_append'] at hnodup
  obtain ⟨hts, hrest, hdisjoint⟩ := hnodup
  have hmem : ∀ r, r ∈ OpenCache.uppers ts ∨ r ∈ rest → r ∈ m.uppers := fun r hr =>
    hperm.mem_iff.2 (List.mem_append.2 hr)
  obtain ⟨above', hclear, habove⟩ :=
    clearUppers_spec hts fun r hr => h.pending r (hmem r (Or.inl hr))
  refine ⟨above', hclear, fun m' hm' => ⟨⟨hm' ▸ hrest, fun r hr => ?_⟩,
    fun r hr => ?_, fun r => ?_⟩⟩
  · rw [hm'] at hr
    rw [habove, h.pending r (hmem r (Or.inr hr)), Bool.true_and]
    exact decide_eq_true fun hin => hdisjoint hin hr
  · exact Or.inl (hmem r (Or.inr (hm' ▸ hr)))
  · by_cases hr : r ∈ OpenCache.uppers ts
    · exact Or.inr (Or.inl (hmem r (Or.inl hr)))
    · rw [habove, decide_eq_true hr, Bool.and_true]
      exact Or.inl rfl

end MSHR

end OpenCache
