/-
**The operations of a miss register.**

The cache gives a miss register (`Gem5/MshrTargets.lean`) to a block that misses, appends the
requests and the snoops for the block, sends the request downstream, and serves targets when a
response comes; what is left then goes downstream again, or the register is freed.  This module puts
the functions together as the cache calls them (`recvTimingReq`, `recvTimingResp`,
`serviceMSHRTargets`, `handleSnoop`), in any order that the callers allow, with a history beside the
state that remembers what arrived and what was served.

A locked read that was served stays in the register until the locked write comes; the history says
whether the first target is *held* in this way.

The flags of the registers above are part of the state.  Other registers, and the caches above,
change them too, but do not clear a flag that this register has set and has still to clear.

Main definitions:

* `OpenCache.MissRegister.perform` — the operations, `OpenCache.MissRegister.promise` —
  when they may come;
* `OpenCache.MissRegister.History` — what arrived, what was served and what was dropped;
* `OpenCache.MSHR.view` — what the shape of a register depends on.

Main results, one for each function that changes a register:

* `OpenCache.MSHR.allocate_spec`, `OpenCache.MSHR.allocateTarget_spec`,
  `OpenCache.MSHR.handleSnoop_spec`, `OpenCache.MSHR.markInService_spec`,
  `OpenCache.MSHR.clearDownstreamPending_spec`, `OpenCache.MSHR.squash_spec`.
-/

import OpenCache.Gem5.MshrResponse
import OpenCache.Runs

set_option relaxedAutoImplicit false
set_option autoImplicit false

namespace OpenCache

variable {info : CmdInfo}

/-- A miss register with the order counter of its cache and the flags of the registers above. -/
structure MissRegister where
  mshr : MSHR
  order : ℕ
  above : Above

namespace MissRegister

/-- What the cache does with a register. -/
inductive Op
  | miss (now : ℕ) (blkAddr : BitVec 64) (blkSize : ℕ) (pkt : Packet) (whenReady : ℕ)
      (allocOnFill : Bool)
  /-- a locked read that hits takes a register that is in service (`handleTimingReqHit`) -/
  | lock (now : ℕ) (blkAddr : BitVec 64) (blkSize : ℕ) (pkt : Packet) (allocOnFill : Bool)
  | coalesce (now : ℕ) (pkt : Packet) (whenReady : ℕ) (allocOnFill : Bool)
  | snoop (now : ℕ) (pkt : Packet)
  /-- a cache below buffers the request -/
  | buffered
  | clearDownstream
  | send (accepted pendingModifiedResp isForward : Bool)
  | delay (now delayTicks : ℕ)
  | respond (now : ℕ) (resp : Packet) (blk : BlockInfo)
  | squash (now : ℕ)
  /-- the order counter counts something that is not for this register -/
  | elsewhere
  /-- something else changes the flags of the registers above -/
  | changeAbove (above : Above)

variable (info)

/-- The next state, and the targets that were served. -/
def step (s : MissRegister) : Op → Option (MissRegister × List Target)
  | .miss now blkAddr blkSize pkt whenReady allocOnFill =>
      (s.mshr.allocate info now blkAddr blkSize pkt whenReady s.order allocOnFill s.above).map
        fun r => (⟨r.1, s.order + 1, r.2⟩, [])
  | .lock now blkAddr blkSize pkt allocOnFill =>
      ((s.mshr.allocate info now blkAddr blkSize pkt now s.order allocOnFill s.above).bind fun r =>
        r.1.markInService false r.2).map fun r => (⟨r.1, s.order + 1, r.2⟩, [])
  | .coalesce now pkt whenReady allocOnFill =>
      (s.mshr.allocateTarget info now pkt whenReady s.order allocOnFill s.above).map fun r =>
        (⟨r.1, s.order + 1, r.2⟩, [])
  | .snoop now pkt =>
      (s.mshr.handleSnoop info now pkt s.order s.above).map fun r =>
        (⟨r.2.1, s.order + 1, r.2.2⟩, [])
  | .buffered => some ({ s with mshr := { s.mshr with downstreamPending := true } }, [])
  | .clearDownstream =>
      (s.mshr.clearDownstreamPending s.above).map fun r => (⟨r.1, s.order, r.2⟩, [])
  | .send accepted pendingModifiedResp isForward =>
      let m := { s.mshr with isForward := isForward }
      if accepted then
        (m.markInService pendingModifiedResp s.above).map fun r => (⟨r.1, s.order, r.2⟩, [])
      else some ({ s with mshr := m }, [])
  | .delay now delayTicks => (s.mshr.delay now delayTicks).map fun m => ({ s with mshr := m }, [])
  | .respond now resp blk =>
      (s.mshr.receiveResp info now resp blk s.above).map fun r => (⟨r.2.1, s.order, r.2.2⟩, r.1)
  | .squash now => (s.mshr.squash info now).map fun m => ({ s with mshr := m }, [])
  | .elsewhere => some ({ s with order := s.order + 1 }, [])
  | .changeAbove above => some ({ s with above := above }, [])

def perform (s : MissRegister) (o : Op) : Except Unit (MissRegister × List Target) :=
  (s.step info o).elim (.error ()) .ok

/-- What has happened to a register: the targets that were served, the orders of the ones that
arrived and of the ones that were dropped, whether the first target was served and stays, whether a
request was sent and not answered, how many responses came and how many locked reads took the
register, and the order of the last snoop that took the block away. -/
structure History where
  served : List Target
  arrived : List ℕ
  dropped : List ℕ
  held : Bool
  outstanding : Bool
  responses : ℕ
  locks : ℕ
  lastTaken : ℕ

def History.init : History := ⟨[], [], [], false, false, 0, 0, 0⟩

def note (g : History) (s : MissRegister) (o : Op) (s' : MissRegister) (served : List Target) :
    History :=
  match o with
  | .miss _ _ _ _ _ _ => { g with arrived := g.arrived ++ [s.order] }
  | .lock _ _ _ _ _ =>
      { g with
        held := true
        locks := g.locks + 1 }
  | .coalesce _ _ _ _ => { g with arrived := g.arrived ++ [s.order] }
  | .snoop _ pkt =>
      { g with
        arrived :=
          if s'.mshr.getNumTargets = s.mshr.getNumTargets then g.arrived else g.arrived ++ [s.order]
        lastTaken := if MSHR.takesBlock info pkt then s.order else g.lastTaken }
  | .send accepted _ _ => { g with outstanding := accepted }
  | .respond _ _ _ =>
      { g with
        served := g.served ++ served
        held := served.any fun t => t.pkt.cmd = .lockedRMWReadReq
        outstanding := false
        responses := g.responses + 1 }
  | .squash _ => { g with dropped := g.dropped ++ (s.mshr.targets.list.take 1).map Target.order }
  | _ => g

/-- What the callers keep: a register is given to a miss when it is free, a request is answered
once, the response after a locked read that was served is the one of the locked write, which
finds a writable block, only a request for a shared copy is answered by
`readRespWithInvalidate`, which leaves no writable block, and nobody else clears the flag of a
register above that is still to be told. -/
def promise (s : MissRegister × History) : Op → Prop
  | .miss _ _ _ _ _ _ => s.1.mshr.hasTargets = false
  | .lock _ _ _ pkt _ => s.1.mshr.hasTargets = false ∧ pkt.cmd = .lockedRMWReadReq
  | .coalesce _ pkt _ _ => s.1.mshr.hasTargets = true ∧ pkt.cmd ≠ .hardPFReq
  | .snoop _ pkt => s.1.mshr.hasTargets = true ∧ pkt.cmd ≠ .lockedRMWReadReq ∧
      (info.needsWritable pkt.cmd = info.isInvalidate pkt.cmd ∨ pkt.cacheMaintenance = true)
  | .buffered => s.1.mshr.hasTargets = true ∧ s.1.mshr.downstreamPending = false
  | .clearDownstream => s.1.mshr.downstreamPending = true
  | .send _ _ _ => s.1.mshr.hasTargets = true ∧ s.1.mshr.inService = false
  | .delay now _ => s.1.mshr.readyTime ≤ now
  | .respond _ resp blk => s.1.mshr.downstreamPending = false ∧
      (s.2.outstanding = true ∧ resp.cmd ≠ .lockedRMWWriteResp ∨
        s.2.held = true ∧ resp.cmd = .lockedRMWWriteResp ∧ blk.writable = true) ∧
      (resp.cmd = .readRespWithInvalidate → s.1.mshr.pendingModified = false ∧ blk.writable = false)
  | .squash _ => s.1.mshr.hasTargets = true ∧ s.1.mshr.inService = false
  | .elsewhere => True
  | .changeAbove above => ∀ r ∈ s.1.mshr.uppers, above r = true

/-- A register and its history after some operations. -/
def replay : MissRegister × History → List Op → MissRegister × History
  | x, [] => x
  | x, o :: os =>
      match Runs.withHistory (perform info) (note info) x o with
      | .ok (x', _) => replay x' os
      | .error _ => x

instance (s : MissRegister × History) (o : Op) : Decidable (promise info s o) := by
  cases o <;> (dsimp only [promise]; infer_instance)

end MissRegister

/-! ### What the operations do -/

namespace MSHR

variable {m m' : MSHR} {held outstanding : Bool} {above : Above}

/-- What the shape of a register depends on. -/
def view (t : Target) : ℕ × Source × Bool :=
  (t.order, t.source, decide (t.pkt.cmd = .lockedRMWReadReq))

theorem view_of_look {ts us : List Target} (h : ts.map look = us.map look) :
    ts.map view = us.map view := by
  have hview : view = (fun x : ℕ × Source × MemCmd =>
      (x.1, x.2.1, decide (x.2.2 = .lockedRMWReadReq))) ∘ look := rfl
  rw [hview, ← List.map_map, ← List.map_map, h]

theorem key_of_view {ts us : List Target} (h : ts.map view = us.map view) :
    ts.map key = us.map key := by
  have hkey : key = (fun x : ℕ × Source × Bool => (x.1, decide (x.2.1 ≠ .fromSnoop))) ∘ view := rfl
  rw [hkey, ← List.map_map, ← List.map_map, h]

theorem view_replaceUpgrades (l : TargetList) :
    l.replaceUpgrades.list.map view = l.list.map view := by
  rcases l.replaceUpgrades_cases with ⟨-, heq⟩ | heq
  · rw [heq]
  · rw [heq, List.map_map]
    refine List.map_congr_left fun t _ => ?_
    have hcmd := (TargetList.replaced_same t).2.2
    simp only [Function.comp_apply, view, hcmd]
    rfl

theorem mem_of_view {ts us : List Target} (h : ts.map view = us.map view)
    {t : Target} (ht : t ∈ ts) :
    ∃ u ∈ us, u.demand = t.demand ∧ u.source = t.source ∧
      (u.pkt.cmd = .lockedRMWReadReq ↔ t.pkt.cmd = .lockedRMWReadReq) := by
  have hin : view t ∈ us.map view := h ▸ List.mem_map_of_mem ht
  obtain ⟨u, hu, heq⟩ := List.mem_map.1 hin
  simp only [view, Prod.mk.injEq, decide_eq_decide] at heq
  exact ⟨u, hu, by rw [Target.demand, Target.demand, heq.2.1], heq.2.1, heq.2.2⟩

theorem hasLocked_of_view (h : m'.targets.list.map view = m.targets.list.map view) :
    m'.hasLockedRMWReadTarget = m.hasLockedRMWReadTarget := by
  unfold MSHR.hasLockedRMWReadTarget
  cases hlist : m.targets.list with
  | nil =>
      rw [hlist, List.map_nil, List.map_eq_nil_iff] at h
      rw [h]
  | cons t ts =>
      rw [hlist] at h
      cases hlist' : m'.targets.list with
      | nil =>
          rw [hlist'] at h
          cases h
      | cons u us =>
          rw [hlist', List.map_cons, List.map_cons, List.cons_eq_cons] at h
          have hcmd := congrArg (fun x : ℕ × Source × Bool => x.2.2) h.1
          simpa [view] using hcmd

/-- A change that the shape does not depend on. -/
theorem Shaped.of_view (h : Shaped held outstanding m)
    (htargets : m'.targets.list.map view = m.targets.list.map view)
    (hdeferred : m'.deferredTargets.list.map view = m.deferredTargets.list.map view)
    (hservice : m'.inService = m.inService)
    (hreset : m.deferredTargets.isReset = true → m'.deferredTargets.isReset = true) :
    Shaped held outstanding m' := by
  have hnil : ∀ {ts us : List Target}, ts.map view = us.map view → ts = [] → us = [] := by
    intro ts us heq hts
    rw [hts, List.map_nil, eq_comm, List.map_eq_nil_iff] at heq
    exact heq
  refine ⟨?_, ?_, ?_, ?_, ?_, ?_, ?_, ?_, ?_, ?_⟩
  · intro t ht
    cases hlist : m'.targets.list with
    | nil =>
        rw [hlist] at ht
        cases ht
    | cons u us =>
        rw [hlist, List.head?_cons, Option.mem_some_iff] at ht
        subst ht
        cases hlist' : m.targets.list with
        | nil =>
            rw [hlist, hlist'] at htargets
            cases htargets
        | cons v vs =>
            rw [hlist, hlist', List.map_cons, List.map_cons, List.cons_eq_cons] at htargets
            have hv := h.head v (by rw [hlist']; rfl)
            have hsource : u.source = v.source :=
              congrArg (fun x : ℕ × Source × Bool => x.2.1) htargets.1
            rw [Target.demand, hsource]
            exact hv
  · intro t ht
    have htail : m'.targets.list.tail.map view = m.targets.list.tail.map view := by
      rw [List.map_tail, List.map_tail, htargets]
    obtain ⟨u, hu, -, hsource, -⟩ := mem_of_view htail ht
    rw [← hsource]
    exact h.tail u hu
  · intro hidle t ht
    obtain ⟨u, hu, hdemand, -, -⟩ := mem_of_view htargets ht
    rw [← hdemand]
    exact h.idle (hservice ▸ hidle) u hu
  · intro t ht hcmd
    obtain ⟨u, hu, hdemand, -, hlocked⟩ := mem_of_view htargets ht
    rw [← hdemand]
    exact h.locked u hu (hlocked.2 hcmd)
  · intro t ht
    obtain ⟨u, hu, -, hsource, -⟩ := mem_of_view hdeferred ht
    rw [← hsource]
    exact h.deferred u hu
  · intro hfree
    obtain ⟨hnone, hidle⟩ := h.free (hnil htargets hfree)
    exact ⟨hnil hdeferred.symm hnone, hservice.trans hidle⟩
  · intro hfree
    exact hreset (h.reset (hnil hdeferred hfree))
  · intro hheld
    obtain ⟨hin, hlocked⟩ := h.of_held hheld
    exact ⟨hservice.trans hin, (hasLocked_of_view htargets).trans hlocked⟩
  · intro hsent
    obtain ⟨hin, hheld⟩ := h.of_outstanding hsent
    exact ⟨hservice.trans hin, hheld⟩
  · intro hin
    rw [hasLocked_of_view htargets]
    exact h.awaits (hservice.symm.trans hin)

theorem waiting_of_view (htargets : m'.targets.list.map view = m.targets.list.map view)
    (hdeferred : m'.deferredTargets.list.map view = m.deferredTargets.list.map view) :
    m'.waiting held = m.waiting held := by
  unfold waiting live
  rw [List.map_append, List.map_append, List.map_drop, List.map_drop, key_of_view htargets,
    key_of_view hdeferred]

/-- The shape of a register that is not in service. -/
theorem shaped_of_idle (hidle : m.inService = false) (hall : ∀ t ∈ m.targets.list, t.demand = true)
    (htail : ∀ t ∈ m.targets.list.tail, t.source ≠ .fromPrefetcher)
    (hdeferred : ∀ t ∈ m.deferredTargets.list, t.source = .fromCPU)
    (hfree : m.targets.list = [] → m.deferredTargets.list = [])
    (hreset : m.deferredTargets.list = [] → m.deferredTargets.isReset = true) :
    Shaped false false m :=
  ⟨fun t ht => hall t (List.mem_of_mem_head? ht), htail, fun _ => hall,
    fun t ht _ => hall t ht, hdeferred, fun h => ⟨hfree h, hidle⟩, hreset, fun h =>
      Bool.noConfusion h, fun h => Bool.noConfusion h,
    fun h => Bool.noConfusion (hidle.symm.trans h)⟩

/-- A register that is given to a miss. -/
structure Allocated (info : CmdInfo) (pkt : Packet) (order : ℕ) (m' : MSHR) : Prop where
  targets : ∃ t, m'.targets.list = [t] ∧ t.demand = true ∧ t.order = order ∧ t.pkt = pkt
  deferred : m'.deferredTargets.list = [] ∧ m'.deferredTargets.isReset = true
  idle : m'.inService = false ∧ m'.downstreamPending = false
  sound : info.Documented → m'.targets.Sound info

/-- A register is not given to a miss of a register above that is pending. -/
theorem allocate_eq_none (info : CmdInfo) (now : ℕ) (blkAddr : BitVec 64) (blkSize : ℕ)
    {pkt : Packet}
    (whenReady order : ℕ) (allocOnFill : Bool) (h : (pkt.upper true).any above = true) :
    m.allocate info now blkAddr blkSize pkt whenReady order allocOnFill above = none := by
  unfold MSHR.allocate TargetList.add
  simp only [h, if_true, Option.bind_none]

theorem allocate_spec (info : CmdInfo) (now : ℕ) (blkAddr : BitVec 64) (blkSize : ℕ) (pkt : Packet)
    (whenReady order : ℕ) (allocOnFill : Bool) (htargets : m.targets.list = [])
    (hdeferred : m.deferredTargets.list = []) (hlinked : Linked above m)
    (hfree : (pkt.upper true).any above = false) :
    ∃ m', m.allocate info now blkAddr blkSize pkt whenReady order allocOnFill above =
        some (m', above.set (pkt.upper true)) ∧
      Allocated info pkt order m' ∧ Relinked above m (above.set (pkt.upper true)) m' := by
  let source := if pkt.cmd = .hardPFReq then Source.fromPrefetcher else Source.fromCPU
  let t : Target := ⟨now, whenReady, order, pkt, source, (pkt.upper true).isSome, allocOnFill⟩
  let l := (m.targets.init blkAddr blkSize).push info now pkt whenReady order source
    (pkt.upper true).isSome allocOnFill
  have hsource : decide (source ≠ .fromSnoop) = true := by
    simp only [source]
    split <;> rfl
  have hlist : l.list = [t] := by
    simp only [l, TargetList.push_list, TargetList.init_list, htargets, List.nil_append, t]
  have hadd : (m.targets.init blkAddr blkSize).add info now pkt whenReady order source
      true allocOnFill
      above = some (l, above.set (pkt.upper true)) :=
        if_neg (by rw [hfree]; exact Bool.false_ne_true)
  let m' : MSHR := { m with
    blkAddr := blkAddr
    blkSize := blkSize
    isSecure := pkt.secure
    readyTime := whenReady
    order := order
    isForward := false
    wasWholeLineWrite := false
    isUncacheable := pkt.uncacheable
    inService := false
    downstreamPending := false
    targets := l
    deferredTargets := m.deferredTargets.init blkAddr blkSize }
  have huppers : m'.uppers = (pkt.upper true).toList := by
    change OpenCache.uppers (l.list ++ m.deferredTargets.list) = _
    rw [hlist, hdeferred, List.append_nil, uppers_singleton]
    exact congrArg Option.toList (upper_added now whenReady order pkt source true allocOnFill)
  have hnone : m.uppers = [] := by
    unfold MSHR.uppers
    rw [htargets, hdeferred]
    rfl
  refine ⟨m', ?_, ⟨⟨t, hlist, hsource, rfl, rfl⟩, ⟨hdeferred, rfl⟩, ⟨rfl, rfl⟩, fun hinfo => ?_⟩,
    hlinked.added hfree (by rw [huppers, hnone, List.append_nil])⟩
  · unfold MSHR.allocate
    simp only
    rw [hadd, Option.bind_some]
    refine if_pos ?_
    change (l.list.head?.all fun front => sameBlock blkSize pkt front.pkt) = true
    simp [hlist, sameBlock, t]
  · exact (TargetList.sound_nil (by simpa using htargets)).push hinfo _ _ _ _ _ _ _

theorem Allocated.shaped {pkt : Packet} {order : ℕ} (h : Allocated info pkt order m) :
    Shaped false false m := by
  obtain ⟨t, hlist, ht, -, -⟩ := h.targets
  have hall : ∀ u ∈ m.targets.list, u.demand = true := by
    intro u hu
    rw [hlist, List.mem_singleton] at hu
    rwa [hu]
  refine shaped_of_idle h.idle.1 hall ?_ ?_ (fun _ => h.deferred.1) fun _ => h.deferred.2
  · rw [hlist]
    simp
  · rw [h.deferred.1]
    simp

theorem Allocated.waiting {pkt : Packet} {order : ℕ} (h : Allocated info pkt order m) :
    m.waiting false = [(order, true)] := by
  obtain ⟨t, hlist, ht, horder, -⟩ := h.targets
  unfold MSHR.waiting live
  rw [hlist, h.deferred.1]
  simp [key, ht, horder]

/-- What a request that joins a register does. -/
structure Joined (info : CmdInfo) (order : ℕ) (m m' : MSHR) (t : Target) : Prop where
  source : t.source = .fromCPU
  order : t.order = order
  lists : (m'.targets.list = m.targets.list ++ [t] ∧ m'.deferredTargets = m.deferredTargets ∧
      m.deferredTargets.list = [] ∧
      (m.inService = true → m.pendingModified = false → info.needsWritable t.pkt.cmd = false)) ∨
    m'.targets = m.targets ∧ m'.deferredTargets.list = m.deferredTargets.list ++ [t]
  same : m'.inService = m.inService ∧ m'.pendingModified = m.pendingModified ∧
    m'.downstreamPending = m.downstreamPending
  sound : info.Documented → m.targets.Sound info → m.deferredTargets.Sound info →
    m'.targets.Sound info ∧ m'.deferredTargets.Sound info

/-- The register above that is marked when a request joins a register. -/
def asks (info : CmdInfo) (pkt : Packet) (m : MSHR) : Option ℕ :=
  m.targets.list.head?.bind fun front => pkt.upper (m.defers info pkt front.pkt || !m.inService)

theorem sender_replaceUpgrade (pkt : Packet) :
    (TargetList.replaceUpgrade pkt).sender = pkt.sender := by
  rcases TargetList.replaceUpgrade_cases pkt with ⟨h, -⟩ | ⟨h, -⟩ | ⟨h, -⟩ | ⟨h, -⟩
  · rw [h]
  · rw [h]
  · rw [h]
  · rw [h]

/-- A request joins, unless it has to mark a register above that is pending already. -/
theorem allocateTarget_spec (info : CmdInfo) (now : ℕ) {pkt : Packet} (whenReady order : ℕ)
    (allocOnFill : Bool) (hne : m.targets.list ≠ []) (hcmd : pkt.cmd ≠ .hardPFReq)
    (hlinked : Linked above m) :
    ((m.asks info pkt).any above = true ∧
      m.allocateTarget info now pkt whenReady order allocOnFill above = none) ∨
    (m.asks info pkt).any above = false ∧ ∃ m' t,
      m.allocateTarget info now pkt whenReady order allocOnFill above =
        some (m', above.set (m.asks info pkt)) ∧
      Joined info order m m' t ∧ Relinked above m (above.set (m.asks info pkt)) m' := by
  obtain ⟨front, rest, hlist⟩ := List.exists_cons_of_ne_nil hne
  have hasks : m.asks info pkt = pkt.upper (m.defers info pkt front.pkt || !m.inService) := by
    unfold asks
    rw [hlist]
    rfl
  unfold MSHR.allocateTarget
  rw [if_neg hcmd, hlist, List.head?_cons, Option.bind_some]
  split
  · next hdefers =>
      rw [hdefers, Bool.true_or] at hasks
      rw [hasks]
      obtain ⟨pkt', hpkt', hsender⟩ : ∃ pkt', (if m.inService && m.postInvalidate then
          TargetList.replaceUpgrade pkt else pkt) = pkt' ∧ pkt'.upper true = pkt.upper true := by
        refine ⟨_, rfl, ?_⟩
        split
        · exact sender_replaceUpgrade pkt
        · rfl
      simp only [hpkt']
      cases hany : (pkt.upper true).any above with
      | true =>
          refine Or.inl ⟨rfl, ?_⟩
          unfold TargetList.add
          rw [hsender]
          simp only [hany, if_true, Option.map_none]
      | false =>
          let t : Target := ⟨now, whenReady, order, pkt', .fromCPU,
            (pkt'.upper true).isSome, allocOnFill⟩
          let l := m.deferredTargets.push info now pkt' whenReady order .fromCPU
            (pkt'.upper true).isSome allocOnFill
          have hadd : m.deferredTargets.add info now pkt' whenReady order .fromCPU true
              allocOnFill above =
              some (l, above.set (pkt.upper true)) := by
            unfold TargetList.add
            simp only [hsender, hany, Bool.false_eq_true, if_false, l]
          have hl : l.list = m.deferredTargets.list ++ [t] := TargetList.push_list _ _ _ _
          let m' : MSHR := { m with deferredTargets := l }
          have huppers : m'.uppers = m.uppers ++ (pkt.upper true).toList := by
            change OpenCache.uppers (m.targets.list ++ l.list) = _
            rw [hl, ← List.append_assoc, uppers_append, uppers_singleton, ← hsender]
            exact congrArg (fun u : Option ℕ => m.uppers ++ u.toList)
              (upper_added now whenReady order pkt' .fromCPU true allocOnFill)
          refine Or.inr ⟨rfl, m', t, by rw [hadd]; rfl,
            ⟨rfl, rfl, Or.inr ⟨rfl, hl⟩, ⟨rfl, rfl, rfl⟩,
              fun hinfo h h' => ⟨h, h'.push hinfo _ _ _ _ _ _ _⟩⟩, hlinked.added hany ?_⟩
          rw [huppers]
          exact List.perm_append_comm
  · next hdefers =>
      rw [Bool.eq_false_of_not_eq_true hdefers, Bool.false_or] at hasks
      rw [hasks]
      cases hany : (pkt.upper (!m.inService)).any above with
      | true =>
          refine Or.inl ⟨rfl, ?_⟩
          unfold TargetList.add
          simp only [hany, if_true, Option.map_none]
      | false =>
          let t : Target := ⟨now, whenReady, order, pkt, .fromCPU,
            (pkt.upper (!m.inService)).isSome, allocOnFill⟩
          let l := m.targets.push info now pkt whenReady order .fromCPU
            (pkt.upper (!m.inService)).isSome
            allocOnFill
          have hadd : m.targets.add info now pkt whenReady order .fromCPU (!m.inService)
              allocOnFill above =
              some (l, above.set (pkt.upper (!m.inService))) := by
            unfold TargetList.add
            simp only [hany, Bool.false_eq_true, if_false, l]
          have hl : l.list = m.targets.list ++ [t] := TargetList.push_list _ _ _ _
          let m' : MSHR := { m with targets := l }
          have huppers : m'.uppers.Perm ((pkt.upper (!m.inService)).toList ++ m.uppers) := by
            change (OpenCache.uppers (l.list ++ m.deferredTargets.list)).Perm _
            unfold MSHR.uppers
            rw [hl, uppers_append, uppers_append, uppers_append, uppers_singleton,
              ← List.append_assoc]
            refine List.Perm.append_right _ ?_
            rw [show t.upper = pkt.upper (!m.inService) from upper_added _ _ _ _ _ _ _]
            exact List.perm_append_comm
          simp only [MSHR.defers, Bool.or_eq_true, not_or, Bool.not_eq_true'] at hdefers
          refine Or.inr ⟨rfl, m', t, by rw [hadd]; rfl, ⟨rfl, rfl, Or.inl ⟨hl, rfl, ?_, ?_⟩,
            ⟨rfl, rfl, rfl⟩, fun hinfo h h' => ⟨h.push hinfo _ _ _ _ _ _ _, h'⟩⟩,
            hlinked.added hany huppers⟩
          · simpa using hdefers.1.2
          · intro hservice hpending
            simp only [hservice, hpending, Bool.true_and, Bool.not_false, Bool.true_or,
              Bool.and_true, Bool.or_eq_true, not_or, Bool.not_eq_true] at hdefers
            exact hdefers.2.2

theorem isReset_replaceUpgrades {l : TargetList} (h : l.isReset = true) :
    l.replaceUpgrades.isReset = true := by
  rcases l.replaceUpgrades_cases with ⟨-, heq⟩ | heq
  · rwa [heq]
  · rw [heq]
    simp only [TargetList.isReset, Bool.and_eq_true, Bool.not_eq_true'] at h ⊢
    exact ⟨⟨⟨⟨h.1.1.1.1, trivial⟩, h.1.1.2⟩, h.1.2⟩, h.2⟩

/-- What a snoop does. -/
structure Snooped (info : CmdInfo) (pkt : Packet) (order : ℕ) (m m' : MSHR) : Prop where
  targets : m'.targets = m.targets ∨ m'.targets = m.targets.replaceUpgrades ∨
    m.inService = true ∧ ∃ t : Target, t.source = .fromSnoop ∧ t.order = order ∧
      t.pkt.cmd = pkt.cmd ∧ m'.targets.list = m.targets.list ++ [t] ∧
      (info.Documented → m.targets.Sound info → m'.targets.Sound info)
  deferred : m'.deferredTargets = m.deferredTargets ∨
    m'.deferredTargets = m.deferredTargets.replaceUpgrades
  taken : takesBlock info pkt = true → m'.deferredTargets = m.deferredTargets.replaceUpgrades ∧
    (m.inService = false → m'.targets = m.targets.replaceUpgrades)
  same : m'.inService = m.inService ∧ m'.pendingModified = m.pendingModified
  uppers : m'.uppers = m.uppers

theorem uppers_replaceUpgrades (l : TargetList) :
    OpenCache.uppers l.replaceUpgrades.list = OpenCache.uppers l.list := by
  rcases l.replaceUpgrades_cases with ⟨-, heq⟩ | heq
  · rw [heq]
  · rw [heq]
    unfold OpenCache.uppers
    rw [List.filterMap_map]
    refine List.filterMap_congr fun t _ => ?_
    change (if t.markedPending then (TargetList.replaceUpgrade t.pkt).sender else none) = t.upper
    rw [sender_replaceUpgrade]
    rfl

/-- No snoop comes from a register above: its copy has no sender state. -/
theorem upper_copySnoop (willRespond markPending : Bool) (pkt : Packet) (m : MSHR) :
    (m.copySnoop willRespond pkt).upper markPending = none := by
  unfold MSHR.copySnoop Packet.upper
  cases willRespond <;> exact ite_self _

theorem handleSnoop_spec (info : CmdInfo) (now : ℕ) {pkt : Packet} (order : ℕ) (above : Above)
    (hne : m.targets.list ≠ [])
    (hpanic : info.needsWritable pkt.cmd = info.isInvalidate pkt.cmd ∨
      pkt.cacheMaintenance = true) :
    ∃ r m', m.handleSnoop info now pkt order above = some (r, m', above) ∧
      Snooped info pkt order m m' := by
  obtain ⟨front, rest, hlist⟩ := List.exists_cons_of_ne_nil hne
  have hok : ¬(info.needsWritable pkt.cmd ≠ info.isInvalidate pkt.cmd ∧ !pkt.cacheMaintenance) := by
    rintro ⟨hdiff, hcache⟩
    rcases hpanic with h | h
    · exact hdiff h
    · rw [h] at hcache
      cases hcache
  unfold MSHR.handleSnoop
  rw [if_neg hok]
  split
  · -- the snoop comes first
    split
    · refine ⟨_, _, rfl, Or.inr (Or.inl rfl), Or.inr rfl, fun _ => ⟨rfl, fun _ => rfl⟩,
        ⟨rfl, rfl⟩, ?_⟩
      unfold MSHR.uppers
      rw [uppers_append, uppers_append, uppers_replaceUpgrades, uppers_replaceUpgrades]
    · next htakes =>
        exact ⟨_, _, rfl, Or.inl rfl, Or.inl rfl, fun h => absurd h htakes, ⟨rfl, rfl⟩, rfl⟩
  · next hfirst =>
      have hservice : m.inService = true := by
        simp only [Bool.or_eq_true, not_or, Bool.not_eq_true', Bool.not_eq_false] at hfirst
        exact hfirst.1
      have hidle : m.inService = false → False := by
        intro h
        rw [hservice] at h
        cases h
      -- the request comes first: the deferred targets lose the block
      obtain ⟨m₁, hm₁, htargets₁, hdeferred₁, htaken₁, hservice₁, hpending₁, huppers₁⟩ :
          ∃ m₁ : MSHR,
          (if takesBlock info pkt then { m with deferredTargets :=
            m.deferredTargets.replaceUpgrades }
            else m) = m₁ ∧ m₁.targets = m.targets ∧
          (m₁.deferredTargets = m.deferredTargets ∨
            m₁.deferredTargets = m.deferredTargets.replaceUpgrades) ∧
          (takesBlock info pkt = true → m₁.deferredTargets = m.deferredTargets.replaceUpgrades) ∧
          m₁.inService = m.inService ∧ m₁.pendingModified = m.pendingModified ∧
          m₁.uppers = m.uppers := by
        split
        · refine ⟨_, rfl, rfl, Or.inr rfl, fun _ => rfl, rfl, rfl, ?_⟩
          unfold MSHR.uppers
          rw [uppers_append, uppers_append, uppers_replaceUpgrades]
        · next htakes => exact ⟨_, rfl, rfl, Or.inl rfl, fun h => absurd h htakes, rfl, rfl, rfl⟩
      simp only [hm₁]
      rw [htargets₁, hlist, List.head?_cons, Option.bind_some]
      split
      · exact ⟨_, _, rfl, Or.inl htargets₁, hdeferred₁,
          fun h => ⟨htaken₁ h, fun h' => (hidle h').elim⟩, ⟨hservice₁, hpending₁⟩, huppers₁⟩
      · let willRespond := m₁.pendingModified && info.needsResponse pkt.cmd && !info.isClean pkt.cmd
        let saved := m₁.pendingModified || info.isInvalidate pkt.cmd
        let copy := m₁.copySnoop willRespond pkt
        let t : Target := ⟨now, now, order, copy, .fromSnoop, false, false⟩
        let l := m₁.targets.push info now copy now order .fromSnoop false false
        have hcmd : t.pkt.cmd = pkt.cmd := by
          simp only [t, copy, MSHR.copySnoop]
          split <;> rfl
        have hadd : m₁.targets.add info now copy now order .fromSnoop
            (m₁.downstreamPending && m₁.targets.needsWritable) false above = some (l, above) := by
          unfold TargetList.add
          simp only [copy, upper_copySnoop, Option.any_none, Bool.false_eq_true, if_false]
          rfl
        have hl : l.list = m.targets.list ++ [t] :=
          (TargetList.push_list _ _ _ _).trans
            (congrArg (fun l : TargetList => l.list ++ [t]) htargets₁)
        have ht : t.upper = none := rfl
        unfold MSHR.snoopInService
        simp only
        cases hsaved : (m₁.pendingModified || info.isInvalidate pkt.cmd) with
        | true =>
            rw [if_pos rfl, show TargetList.add info now (m₁.copySnoop _ pkt) now order .fromSnoop
              (m₁.downstreamPending && m₁.targets.needsWritable)
                false above m₁.targets = _ from hadd,
              Option.map_some]
            refine ⟨_, _, rfl, Or.inr (Or.inr ⟨hservice, t, rfl, rfl, hcmd, hl, ?_⟩), hdeferred₁,
              fun h => ⟨htaken₁ h, fun h' => (hidle h').elim⟩, ⟨hservice₁, hpending₁⟩, ?_⟩
            · rw [← htargets₁]
              exact fun hinfo h => h.push hinfo _ _ _ _ _ _ _
            · rw [← huppers₁]
              change OpenCache.uppers (l.list ++ m₁.deferredTargets.list) = m₁.uppers
              unfold MSHR.uppers
              rw [hl, ← htargets₁, uppers_append, uppers_append, uppers_append,
                uppers_singleton, ht, Option.toList_none, List.append_nil]
        | false =>
            rw [if_neg Bool.false_ne_true, Option.map_some]
            exact ⟨_, _, rfl, Or.inl htargets₁, hdeferred₁,
              fun h => ⟨htaken₁ h, fun h' => (hidle h').elim⟩, ⟨hservice₁, hpending₁⟩, huppers₁⟩

/-- The first target is dropped. -/
structure Squashed (info : CmdInfo) (m m' : MSHR) : Prop where
  shaped : Shaped false false m'
  waiting : m'.waiting false = (m.waiting false).tail
  inService : m'.inService = false
  targets : ∀ t ∈ m'.targets.list, t ∈ m.targets.list ∨ t ∈ m.deferredTargets.list
  deferred : ∀ t ∈ m'.deferredTargets.list, t ∈ m.deferredTargets.list
  sound : info.Documented → m.targets.Sound info → m.deferredTargets.Sound info →
    m'.targets.Sound info ∧ m'.deferredTargets.Sound info
  uppers : m'.uppers.Sublist m.uppers

theorem squash_spec (info : CmdInfo) (now : ℕ) (h : Shaped held outstanding m)
    (hne : m.targets.list ≠ [])
    (hidle : m.inService = false) : ∃ m', m.squash info now = some m' ∧ Squashed info m m' := by
  obtain ⟨front, rest, hlist⟩ := List.exists_cons_of_ne_nil hne
  have hall := h.idle hidle
  have hpop : m.popTarget.targets.list = rest := by
    unfold MSHR.popTarget
    rw [hlist]
    rfl
  have hrest : ∀ t ∈ rest, t ∈ m.targets.list := fun t ht => hlist ▸ List.mem_cons_of_mem _ ht
  have htail : ∀ t ∈ rest, t.source ≠ .fromPrefetcher := fun t ht => h.tail t (by rwa [hlist])
  have hwaiting : (m.waiting false).tail = (rest ++ m.deferredTargets.list).map key := by
    unfold MSHR.waiting live
    rw [hlist]
    rfl
  have hhas : m.hasTargets = true := by
    unfold MSHR.hasTargets
    rw [hlist]
    rfl
  have huppers : m.popTarget.uppers.Sublist m.uppers :=
    ((List.tail_sublist _).append_right _).filterMap _
  unfold MSHR.squash
  rw [if_neg (by simp [hhas])]
  simp only
  split
  · next hleft =>
      have hnonempty : m.popTarget.targets.list ≠ [] := by
        intro hnil
        rw [MSHR.hasTargets, hnil] at hleft
        cases hleft
      refine ⟨_, rfl, shaped_of_idle hidle ?_ ?_ h.deferred
        (fun hnil => absurd hnil hnonempty) h.reset, ?_, hidle, ?_, fun t ht => ht,
        fun _ hsound hsound' => ⟨?_, hsound'⟩, huppers⟩
      · exact fun t ht => hall t (hrest t (hpop ▸ ht))
      · intro t ht
        rw [hpop] at ht
        exact htail t (List.mem_of_mem_tail ht)
      · rw [hwaiting, MSHR.waiting, live, hpop]
        rfl
      · exact fun t ht => Or.inl (hrest t (hpop ▸ ht))
      · exact hsound.of_subset fun t ht => List.mem_of_mem_tail ht
  · next hleft =>
      have hempty : rest = [] := by
        rw [MSHR.hasTargets, hpop] at hleft
        simpa using hleft
      subst hempty
      by_cases hdeferred : m.deferredTargets.list = []
      · have hpromote : m.popTarget.promoteDeferredTargets info now = (false, m.popTarget) := by
          unfold MSHR.promoteDeferredTargets
          rw [hpop, show m.popTarget.deferredTargets.list = [] from hdeferred]
          rfl
        let m' : MSHR := { m.popTarget with
          targets := m.popTarget.targets.resetFlags
          inService := false }
        have hnil : m'.targets.list = [] := hpop
        rw [hpromote, if_neg (by simp)]
        refine ⟨m', if_pos ⟨by rw [hpop]; rfl, h.reset hdeferred⟩,
          shaped_of_idle rfl ?_ ?_ h.deferred (fun _ => hdeferred) h.reset, ?_, rfl, ?_,
          fun t ht => ht,
          fun _ _ hsound' => ⟨TargetList.sound_nil hnil, hsound'⟩, huppers⟩
        · rw [hnil]
          simp
        · rw [hnil]
          simp
        · rw [hwaiting, MSHR.waiting, live, hnil]
          rfl
        · rw [hnil]
          simp
      · obtain ⟨hpromote, moved, htargets, hsplit, hne', hservice, -, ⟨l, hl⟩, ⟨l', hl'⟩⟩ :=
          promoteDeferredTargets_spec info (m := m.popTarget) now fun hnil => hdeferred hnil.2
        rw [hpop, List.nil_append] at htargets
        have hmoved : ∀ t ∈ moved, t ∈ m.deferredTargets.list := fun t ht =>
          hsplit ▸ List.mem_append_left _ ht
        have hkept : ∀ t ∈ (m.popTarget.promoteDeferredTargets info now).2.deferredTargets.list,
            t ∈ m.deferredTargets.list := fun t ht => hsplit ▸ List.mem_append_right _ ht
        rw [if_pos hpromote]
        refine ⟨_, rfl, shaped_of_idle (hservice.trans hidle) ?_ ?_
          (fun t ht => h.deferred t (hkept t ht))
          (fun hnil => absurd hnil hne') ?_, ?_, hservice.trans hidle, ?_, hkept, ?_, ?_⟩
        · rw [htargets]
          exact fun t ht => demand_of_fromCPU (h.deferred t (hmoved t ht))
        · intro t ht
          rw [htargets] at ht
          rw [h.deferred t (hmoved t (List.mem_of_mem_tail ht))]
          exact Source.noConfusion
        · intro hnil
          rw [hl'] at hnil ⊢
          rw [TargetList.populateFlags_list] at hnil
          exact TargetList.isReset_populateFlags hnil
        · rw [hwaiting, MSHR.waiting, live, htargets, List.nil_append]
          exact congrArg (List.map key) hsplit.symm
        · rw [htargets]
          exact fun t ht => Or.inr (hmoved t ht)
        · intro hinfo _ _
          rw [hl, hl']
          exact ⟨TargetList.sound_populateFlags hinfo l, TargetList.sound_populateFlags hinfo l'⟩
        · refine List.Sublist.trans ?_ huppers
          unfold MSHR.uppers
          rw [htargets, hpop, List.nil_append, ← hsplit]

/-- The registers above that the targets have to tell are told. -/
theorem cleared_targets (hlinked : Linked above m) : ∃ above',
    clearUppers m.targets.list above = some above' ∧
      ∀ m' : MSHR, m'.targets.list = unmark m.targets.list →
      m'.deferredTargets = m.deferredTargets →
        Relinked above m above' m' := by
  have hperm : m.uppers.Perm
      (OpenCache.uppers m.targets.list ++ OpenCache.uppers m.deferredTargets.list) := by
    unfold MSHR.uppers
    rw [uppers_append]
  obtain ⟨above', hclear, hrelinked⟩ := hlinked.cleared hperm
  refine ⟨above', hclear, fun m' htargets hdeferred => hrelinked m' ?_⟩
  unfold MSHR.uppers
  rw [htargets, hdeferred, uppers_append, uppers_unmark, List.nil_append]

/-- A register is put in service. -/
theorem markInService_spec (info : CmdInfo) {m : MSHR} (pendingModifiedResp : Bool)
    (hlinked : Linked above m) (hidle : m.inService = false) :
    ∃ m' above', m.markInService pendingModifiedResp above = some (m', above') ∧
    m'.inService = true ∧
      m'.targets.list.map look = m.targets.list.map look ∧ m'.deferredTargets = m.deferredTargets ∧
      m'.pendingModified = (m.targets.needsWritable || pendingModifiedResp) ∧
      (m.targets.Sound info → m'.targets.Sound info) ∧ Relinked above m above' m' := by
  unfold MSHR.markInService
  rw [if_neg (by simp [hidle])]
  simp only
  split
  · exact ⟨_, above, rfl, rfl, rfl, rfl, rfl, fun hsound => hsound,
      hlinked.relinked (List.Sublist.refl _)⟩
  · obtain ⟨above', hclear, hrelinked⟩ := cleared_targets hlinked
    rw [hclear, Option.map_some]
    exact ⟨_, above', rfl, rfl, look_unmark _, rfl, rfl, fun hsound => hsound.unmark,
      hrelinked _ rfl rfl⟩

/-- **A register that is pending can be told that its request was sent**, and so can the
ones above it. -/
theorem clearDownstreamPending_spec (hlinked : Linked above m)
    (hpending : m.downstreamPending = true) :
    ∃ m' above', m.clearDownstreamPending above = some (m', above') ∧
      m' = { m with
        downstreamPending := false
        targets := { m.targets with list := unmark m.targets.list } } ∧
          Relinked above m above' m' := by
  obtain ⟨above', hclear, hrelinked⟩ := cleared_targets hlinked
  unfold MSHR.clearDownstreamPending
  rw [if_pos hpending, hclear, Option.map_some]
  exact ⟨_, above', rfl, rfl, hrelinked _ rfl rfl⟩

end MSHR

end OpenCache
