/-
**Runs of a miss register.**

What holds in every run of the operations of `Gem5/MshrSteps.lean`, in any order that
the cache allows.

Main definitions:

* `OpenCache.MissRegister.InOrder` — the targets that were served and that wait, against
  those that arrived;
* `OpenCache.MissRegister.Kept` — what is known of the copies that the targets need;
* `OpenCache.MissRegister.Clashes`, `OpenCache.MissRegister.AsksTwice` — the steps that
  fail an assertion;
* `OpenCache.MissRegister.Awaits`, `OpenCache.MissRegister.Counted` — a register in service waits
  for something, and each response serves a target or frees a locked read.

Main results:

* `OpenCache.MissRegister.step_spec` — what one step keeps, and when it fails;
* `OpenCache.MissRegister.run_in_order` — **no target is lost or served twice, the requests are
  served in the order in which they arrived, and none overtakes an earlier snoop**;
* `OpenCache.MissRegister.run_fails_iff` — **the only assertions that can fail are the one of
  `promoteWritable`**, in a clash, **and the one of `TargetList::add`**, if the register
  above is pending;
* `OpenCache.MissRegister.run_writable` — a request that needs a writable copy is served only if the
  block is writable or a modified copy was awaited;
* `OpenCache.MissRegister.run_upgrades` — **no upgrade is sent for a block that was taken away**;
* `OpenCache.MissRegister.run_progress` — a register in service waits for a response or a locked
  write, or has a locked read as its first target that was not served, which does not occur if
  locked reads need a writable copy; each response serves a target or frees a locked read.
-/

import OpenCache.Gem5.MshrSteps

set_option relaxedAutoImplicit false
set_option autoImplicit false

namespace OpenCache

variable {info : CmdInfo}

namespace MissRegister

open MSHR

variable {s s' : MissRegister} {g g' : History} {o : Op} {served : List Target}

/-! ### The order of the targets -/

/-- The targets that were served and the ones that wait, together, are in order, and are
what arrived. -/
structure InOrder (s : MissRegister) (g : History) : Prop where
  pairwise : (g.served.map key ++ s.mshr.waiting g.held).Pairwise Before
  accounted : ((g.served.map key ++ s.mshr.waiting g.held).map Prod.fst ++ g.dropped).Perm g.arrived
  bounded : ∀ order ∈ g.arrived, order < s.order
  nodup : g.arrived.Nodup

theorem InOrder.lt (h : InOrder s g) {k : ℕ × Bool}
    (hk : k ∈ g.served.map key ++ s.mshr.waiting g.held) :
    k.1 < s.order :=
  h.bounded _ (h.accounted.mem_iff.1 (List.mem_append_left _ (List.mem_map_of_mem hk)))

/-- Nothing arrives and nothing is served. -/
theorem InOrder.same (h : InOrder s g) (hwaiting : s'.mshr.waiting g'.held = s.mshr.waiting g.held)
    (horder : s.order ≤ s'.order) (hserved : g'.served = g.served)
    (harrived : g'.arrived = g.arrived) (hdropped : g'.dropped = g.dropped) : InOrder s' g' := by
  refine ⟨?_, ?_, ?_, ?_⟩
  · rw [hserved, hwaiting]
    exact h.pairwise
  · rw [hserved, hwaiting, hdropped, harrived]
    exact h.accounted
  · intro order hmem
    rw [harrived] at hmem
    exact lt_of_lt_of_le (h.bounded order hmem) horder
  · rw [harrived]
    exact h.nodup

/-- A target arrives.  Only a snoop is put before targets that wait. -/
theorem InOrder.arrive (h : InOrder s g) (front back : List (ℕ × Bool)) (demand : Bool)
    (hold : s.mshr.waiting g.held = front ++ back)
    (hnew : s'.mshr.waiting g'.held = front ++ (s.order, demand) :: back)
    (hback : demand = true → back = []) (horder : s'.order = s.order + 1)
    (hserved : g'.served = g.served) (harrived : g'.arrived = g.arrived ++ [s.order])
    (hdropped : g'.dropped = g.dropped) : InOrder s' g' := by
  have hpair := h.pairwise
  rw [hold, ← List.append_assoc, List.pairwise_append] at hpair
  obtain ⟨hfront, hrest, hcross⟩ := hpair
  refine ⟨?_, ?_, ?_, ?_⟩
  · rw [hserved, hnew, ← List.append_assoc, List.pairwise_append, List.pairwise_cons]
    refine ⟨hfront, ⟨fun k hk hdemand => ?_, hrest⟩, fun k hk k' hk' hdemand => ?_⟩
    · rw [hback hdemand] at hk
      cases hk
    · rcases List.mem_cons.1 hk' with rfl | hk'
      · refine h.lt ?_
        rw [hold, ← List.append_assoc]
        exact List.mem_append_left _ hk
      · exact hcross k hk k' hk' hdemand
  · have hperm : ((g.served.map key ++ (front ++ (s.order, demand) :: back)).map Prod.fst ++
        g.dropped).Perm
        (s.order :: ((g.served.map key ++ (front ++ back)).map Prod.fst ++ g.dropped)) := by
      rw [← List.append_assoc, ← List.append_assoc, ← List.cons_append]
      refine List.Perm.append_right _ ?_
      exact List.perm_middle.map Prod.fst
    rw [hserved, hnew, hdropped, harrived]
    refine hperm.trans (((List.perm_cons _).2 ?_).trans (List.perm_append_singleton _ _).symm)
    rw [← hold]
    exact h.accounted
  · intro order hmem
    rw [harrived, List.mem_append, List.mem_singleton] at hmem
    rw [horder]
    rcases hmem with hmem | rfl
    · exact Nat.lt_succ_of_lt (h.bounded order hmem)
    · exact Nat.lt_succ_self _
  · rw [harrived]
    refine List.nodup_append'.2 ⟨h.nodup, List.nodup_singleton _, ?_⟩
    intro order hmem hmem'
    rw [List.mem_singleton] at hmem'
    exact absurd (h.bounded order hmem) (by omega)

/-- Targets are served. -/
theorem InOrder.serve (h : InOrder s g) (horder : s'.order = s.order)
    (hperm : (served.map key ++ s'.mshr.waiting g'.held).Perm (s.mshr.waiting g.held))
    (hpair : ∀ before : List (ℕ × Bool), (before ++ s.mshr.waiting g.held).Pairwise Before →
      (before ++ (served.map key ++ s'.mshr.waiting g'.held)).Pairwise Before)
    (hserved : g'.served = g.served ++ served) (harrived : g'.arrived = g.arrived)
    (hdropped : g'.dropped = g.dropped) : InOrder s' g' := by
  refine ⟨?_, ?_, ?_, ?_⟩
  · rw [hserved, List.map_append, List.append_assoc]
    exact hpair _ h.pairwise
  · have hsplit : (g.served ++ served).map key ++ s'.mshr.waiting g'.held =
        g.served.map key ++ (served.map key ++ s'.mshr.waiting g'.held) := by
      rw [List.map_append, List.append_assoc]
    rw [hserved, hdropped, harrived, hsplit]
    exact (((hperm.append_left _).map Prod.fst).append_right _).trans h.accounted
  · rw [harrived, horder]
    exact h.bounded
  · rw [harrived]
    exact h.nodup

/-- The first target is dropped. -/
theorem InOrder.drop (h : InOrder s g) {k : ℕ × Bool}
    (hold : s.mshr.waiting g.held = k :: s'.mshr.waiting g'.held)
    (horder : s'.order = s.order) (hserved : g'.served = g.served)
    (harrived : g'.arrived = g.arrived)
    (hdropped : g'.dropped = g.dropped ++ [k.1]) : InOrder s' g' := by
  have hpair := h.pairwise
  rw [hold] at hpair
  refine ⟨?_, ?_, ?_, ?_⟩
  · rw [hserved]
    exact hpair.sublist (List.Sublist.append_left (List.sublist_cons_self _ _) _)
  · have haccounted := h.accounted
    rw [hold] at haccounted
    rw [hserved, hdropped, harrived]
    refine List.Perm.trans ?_ haccounted
    have hmiddle : ((g.served.map key ++ k :: s'.mshr.waiting g'.held).map Prod.fst).Perm
        (k.1 :: (g.served.map key ++ s'.mshr.waiting g'.held).map Prod.fst) :=
      List.perm_middle.map Prod.fst
    refine List.Perm.trans ?_ (hmiddle.append_right _).symm
    rw [← List.append_assoc, List.cons_append]
    exact List.perm_append_singleton _ _
  · rw [harrived, horder]
    exact h.bounded
  · rw [harrived]
    exact h.nodup

/-- What every run keeps. -/
structure Good (s : MissRegister) (g : History) : Prop where
  shaped : Shaped g.held g.outstanding s.mshr
  inOrder : InOrder s g
  linked : Linked s.above s.mshr

theorem perform_eq_ok : perform info s o = .ok (s', served) ↔
    s.step info o = some (s', served) := by
  unfold perform
  cases s.step info o with
  | none => simp
  | some r => simp

theorem perform_eq_error : perform info s o = .error () ↔ s.step info o = none := by
  unfold perform
  cases s.step info o with
  | none => simp
  | some r => simp

/-- A response finds a clash. -/
def Clashes (info : CmdInfo) (s : MissRegister) (o : Op) : Prop :=
  ∃ now resp blk, o = .respond now resp blk ∧ s.mshr.ClashAt info resp blk s.above

/-- A request has to mark a register above that is pending already. -/
def AsksTwice (info : CmdInfo) (s : MissRegister) : Op → Prop
  | .miss _ _ _ pkt _ _ => (pkt.upper true).any s.above = true
  | .lock _ _ _ pkt _ => (pkt.upper true).any s.above = true
  | .coalesce _ pkt _ _ => (s.mshr.asks info pkt).any s.above = true
  | _ => False

theorem targets_ne_nil (h : s.mshr.hasTargets = true) : s.mshr.targets.list ≠ [] := by
  intro hnil
  rw [MSHR.hasTargets, hnil] at h
  cases h

theorem targets_eq_nil (h : s.mshr.hasTargets = false) : s.mshr.targets.list = [] := by
  unfold MSHR.hasTargets at h
  simpa using h

/-- A register that is free holds nothing. -/
theorem Good.free (h : Good s g) (hfree : s.mshr.hasTargets = false) :
    s.mshr.targets.list = [] ∧ s.mshr.deferredTargets.list = [] ∧ g.held = false ∧
      g.outstanding = false ∧ s.mshr.waiting g.held = [] := by
  have hnil := targets_eq_nil hfree
  obtain ⟨hdeferred, hidle⟩ := h.shaped.free hnil
  have hheld : g.held = false := by
    refine Bool.eq_false_of_not_eq_true fun hheld => ?_
    rw [(h.shaped.of_held hheld).1] at hidle
    cases hidle
  have hsent : g.outstanding = false := by
    refine Bool.eq_false_of_not_eq_true fun hsent => ?_
    rw [(h.shaped.of_outstanding hsent).1] at hidle
    cases hidle
  refine ⟨hnil, hdeferred, hheld, hsent, ?_⟩
  rw [MSHR.waiting, live, hnil, hdeferred]
  simp

/-- A register that is not in service. -/
theorem Good.idle (h : Good s g) (hidle : s.mshr.inService = false) :
    g.held = false ∧ g.outstanding = false := by
  constructor
  · refine Bool.eq_false_of_not_eq_true fun hheld => ?_
    rw [(h.shaped.of_held hheld).1] at hidle
    cases hidle
  · refine Bool.eq_false_of_not_eq_true fun hsent => ?_
    rw [(h.shaped.of_outstanding hsent).1] at hidle
    cases hidle

section Steps

/-- A miss takes a register that is free. -/
theorem Good.miss (h : Good s g) (info : CmdInfo) (now : ℕ) (blkAddr : BitVec 64) (blkSize : ℕ)
    (pkt : Packet) (whenReady : ℕ) (allocOnFill : Bool) (hfree : s.mshr.hasTargets = false)
    (hasks : (pkt.upper true).any s.above = false) :
    ∃ m', s.mshr.allocate info now blkAddr blkSize pkt whenReady s.order allocOnFill s.above =
        some (m', s.above.set (pkt.upper true)) ∧
      Allocated info pkt s.order m' ∧ Relinked s.above s.mshr (s.above.set (pkt.upper true)) m' ∧
      Good ⟨m', s.order + 1, s.above.set (pkt.upper true)⟩
        { g with arrived := g.arrived ++ [s.order] } := by
  obtain ⟨htargets, hdeferred, hheld, hsent, hwaiting⟩ := h.free hfree
  obtain ⟨m', hm', hallocated, hrelinked⟩ :=
    allocate_spec info now blkAddr blkSize pkt whenReady s.order
    allocOnFill htargets hdeferred h.linked hasks
  refine ⟨m', hm', hallocated, hrelinked, ?_, ?_, hrelinked.linked⟩
  · simp only [hheld, hsent]
    exact hallocated.shaped
  · refine h.inOrder.arrive [] [] true hwaiting ?_ (fun _ => rfl) rfl rfl rfl rfl
    simp only [hheld]
    exact hallocated.waiting

/-- Nothing happens that the shape or the order depend on. -/
theorem Good.same (h : Good s g)
    (htargets : s'.mshr.targets.list.map view = s.mshr.targets.list.map view)
    (hdeferred : s'.mshr.deferredTargets.list.map view = s.mshr.deferredTargets.list.map view)
    (hservice : s'.mshr.inService = s.mshr.inService)
    (hreset : s.mshr.deferredTargets.isReset = true → s'.mshr.deferredTargets.isReset = true)
    (hlinked : Linked s'.above s'.mshr) (horder : s.order ≤ s'.order) (hheld : g'.held = g.held)
    (hsent : g'.outstanding = g.outstanding) (hserved : g'.served = g.served)
    (harrived : g'.arrived = g.arrived) (hdropped : g'.dropped = g.dropped) : Good s' g' := by
  refine ⟨?_, h.inOrder.same ?_ horder hserved harrived hdropped, hlinked⟩
  · rw [hheld, hsent]
    exact h.shaped.of_view htargets hdeferred hservice hreset
  · rw [hheld]
    exact waiting_of_view htargets hdeferred

/-- The shape of a register that is put in service. -/
theorem shaped_inService {m m' : MSHR} {held outstanding : Bool} (h : Shaped false false m)
    (hne : m.targets.list ≠ []) (htargets : m'.targets.list.map look = m.targets.list.map look)
    (hdeferred : m'.deferredTargets = m.deferredTargets) (hservice : m'.inService = true)
    (hheld : held = true → m.hasLockedRMWReadTarget = true)
    (hsent : outstanding = true → held = false)
    (hawaits : outstanding = true ∨ held = true) : Shaped held outstanding m' := by
  have hview := view_of_look htargets
  have hsame : Shaped false false { m' with inService := m.inService } :=
    h.of_view hview (by rw [hdeferred]) rfl (by rw [hdeferred]; exact fun h => h)
  refine ⟨hsame.head, hsame.tail, ?_, hsame.locked, hsame.deferred, ?_, hsame.reset, ?_, ?_, ?_⟩
  · intro hidle
    rw [hservice] at hidle
    cases hidle
  · intro hnil
    rw [hnil, List.map_nil, eq_comm, List.map_eq_nil_iff] at htargets
    exact absurd htargets hne
  · exact fun h' => ⟨hservice, (hasLocked_of_view hview).trans (hheld h')⟩
  · exact fun h' => ⟨hservice, hsent h'⟩
  · exact fun _ => hawaits.imp id fun h' => (hasLocked_of_view hview).trans (hheld h')

/-- A locked read that hits takes a register. -/
theorem Good.lock (h : Good s g) (info : CmdInfo) (now : ℕ) (blkAddr : BitVec 64) (blkSize : ℕ)
    {pkt : Packet}
    (allocOnFill : Bool) (hfree : s.mshr.hasTargets = false) (hcmd : pkt.cmd = .lockedRMWReadReq)
    (hasks : (pkt.upper true).any s.above = false) :
    ∃ m' above',
    ((s.mshr.allocate info now blkAddr blkSize pkt now s.order allocOnFill s.above).bind
        fun r => r.1.markInService false r.2) = some (m', above') ∧ m'.deferredTargets.list = [] ∧
      (info.Documented → m'.targets.Sound info) ∧ m'.inService = true ∧
      Relinked s.above s.mshr above' m' ∧
      Good ⟨m', s.order + 1, above'⟩ (note info g s (.lock now blkAddr blkSize pkt allocOnFill)
        ⟨m', s.order + 1, above'⟩ []) := by
  obtain ⟨htargets, hdeferred, hheld, hsent, hwaiting⟩ := h.free hfree
  obtain ⟨m₁, hm₁, hallocated, hrelinked₁⟩ := allocate_spec info now blkAddr blkSize pkt now s.order
    allocOnFill htargets hdeferred h.linked hasks
  obtain ⟨m₂, above₂, hm₂, hservice, hlook, hsame, -, hsound, hrelinked₂⟩ :=
    markInService_spec info false hrelinked₁.linked hallocated.idle.1
  obtain ⟨t, hlist, -, -, hpkt⟩ := hallocated.targets
  have hlocked : m₁.hasLockedRMWReadTarget = true := by
    rw [hasLocked_iff]
    exact ⟨t, [], hlist, hpkt ▸ hcmd⟩
  refine ⟨m₂, above₂, by rw [hm₁, Option.bind_some, hm₂], by rw [hsame, hallocated.deferred.1],
    fun hinfo => hsound (hallocated.sound hinfo), hservice, hrelinked₁.trans hrelinked₂, ?_, ?_,
    hrelinked₂.linked⟩
  · change Shaped true g.outstanding m₂
    rw [hsent]
    exact shaped_inService hallocated.shaped (by rw [hlist]; simp) hlook hsame hservice
      (fun _ => hlocked) (fun h => Bool.noConfusion h) (Or.inr rfl)
  · refine h.inOrder.same ?_ (Nat.le_succ _) rfl rfl rfl
    rw [hwaiting, MSHR.waiting, live, hsame, hallocated.deferred.1, List.append_nil, List.map_drop,
      key_of_look hlook, hlist]
    rfl

/-- A request has joined a register. -/
theorem Good.joined (h : Good s g) {m' : MSHR} {t : Target} {above' : Above}
    (hne : s.mshr.targets.list ≠ []) (hjoined : Joined info s.order s.mshr m' t)
    (hlinked : Linked above' m') :
    Good ⟨m', s.order + 1, above'⟩ { g with arrived := g.arrived ++ [s.order] } := by
  have hkey : key t = (s.order, true) := by
    rw [key, hjoined.order, demand_of_fromCPU hjoined.source]
  have hlength : g.held.toNat ≤ s.mshr.targets.list.length := by
    have hpos := List.length_pos_of_ne_nil hne
    have hbool := Bool.toNat_le g.held
    omega
  refine ⟨?_, ?_, hlinked⟩
  · have hshaped := h.shaped
    rcases hjoined.lists with ⟨htargets, hdeferred, -, -⟩ | ⟨htargets, hdeferred⟩
    · have hmem : ∀ u ∈ m'.targets.list, u ∈ s.mshr.targets.list ∨ u = t := by
        intro u hu
        rw [htargets, List.mem_append, List.mem_singleton] at hu
        exact hu
      have hfirst : s.mshr.hasLockedRMWReadTarget = true → m'.hasLockedRMWReadTarget = true := by
        intro hlocked
        obtain ⟨b, rest, hlist, hb⟩ := hasLocked_iff.1 hlocked
        refine hasLocked_iff.2 ⟨b, rest ++ [t], ?_, hb⟩
        rw [htargets, hlist, List.cons_append]
      refine ⟨?_, ?_, ?_, ?_, ?_, ?_, ?_, ?_, ?_, ?_⟩
      · intro u hu
        rw [htargets, List.head?_append_of_ne_nil _ hne] at hu
        exact hshaped.head u hu
      · intro u hu
        rw [htargets] at hu
        rcases mem_tail_append hu with hu | hu
        · exact hshaped.tail u hu
        · rw [List.mem_singleton.1 hu, hjoined.source]
          exact Source.noConfusion
      · intro hidle u hu
        rcases hmem u hu with hu | rfl
        · exact hshaped.idle (hjoined.same.1 ▸ hidle) u hu
        · exact demand_of_fromCPU hjoined.source
      · intro u hu hlocked
        rcases hmem u hu with hu | rfl
        · exact hshaped.locked u hu hlocked
        · exact demand_of_fromCPU hjoined.source
      · rw [hdeferred]
        exact hshaped.deferred
      · intro hnil
        rw [htargets] at hnil
        exact absurd hnil (by simp)
      · rw [hdeferred]
        exact hshaped.reset
      · intro hheld
        obtain ⟨hservice, hlocked⟩ := hshaped.of_held hheld
        exact ⟨hjoined.same.1.trans hservice, hfirst hlocked⟩
      · intro hsent
        obtain ⟨hservice, hheld⟩ := hshaped.of_outstanding hsent
        exact ⟨hjoined.same.1.trans hservice, hheld⟩
      · exact fun hin => (hshaped.awaits (hjoined.same.1.symm.trans hin)).imp id hfirst
    · refine ⟨htargets ▸ hshaped.head, htargets ▸ hshaped.tail, ?_,
        htargets ▸ hshaped.locked, ?_, ?_, ?_, ?_, ?_, ?_⟩
      · rw [htargets]
        exact fun hidle => hshaped.idle (hjoined.same.1 ▸ hidle)
      · intro u hu
        rw [hdeferred, List.mem_append, List.mem_singleton] at hu
        rcases hu with hu | rfl
        · exact hshaped.deferred u hu
        · exact hjoined.source
      · intro hnil
        rw [htargets] at hnil
        exact absurd hnil hne
      · intro hnil
        rw [hdeferred] at hnil
        exact absurd hnil (by simp)
      · intro hheld
        obtain ⟨hservice, hlocked⟩ := hshaped.of_held hheld
        refine ⟨hjoined.same.1.trans hservice, ?_⟩
        unfold MSHR.hasLockedRMWReadTarget
        rw [htargets]
        exact hlocked
      · intro hsent
        obtain ⟨hservice, hheld⟩ := hshaped.of_outstanding hsent
        exact ⟨hjoined.same.1.trans hservice, hheld⟩
      · intro hin
        have hawaits := hshaped.awaits (hjoined.same.1.symm.trans hin)
        unfold MSHR.hasLockedRMWReadTarget at hawaits ⊢
        rwa [htargets]
  · refine h.inOrder.arrive (s.mshr.waiting g.held) [] true (List.append_nil _).symm ?_
      (fun _ => rfl) rfl rfl
      rfl rfl
    unfold MSHR.waiting live
    rcases hjoined.lists with ⟨htargets, hdeferred, hnone, -⟩ | ⟨htargets, hdeferred⟩
    · rw [htargets, hdeferred, hnone, List.append_nil, List.append_nil,
        List.drop_append_of_le_length hlength, List.map_append, List.map_singleton, hkey]
    · rw [htargets, hdeferred, ← List.append_assoc, List.map_append, List.map_singleton, hkey]

/-- A request joins, unless it has to mark a register above that is pending already. -/
theorem Good.coalesce (h : Good s g) (info : CmdInfo) (now : ℕ) {pkt : Packet} (whenReady : ℕ)
    (allocOnFill : Bool) (hhas : s.mshr.hasTargets = true) (hcmd : pkt.cmd ≠ .hardPFReq) :
    ((s.mshr.asks info pkt).any s.above = true ∧
      s.mshr.allocateTarget info now pkt whenReady s.order allocOnFill s.above = none) ∨
    (s.mshr.asks info pkt).any s.above = false ∧ ∃ m' t above',
      s.mshr.allocateTarget info now pkt whenReady s.order allocOnFill s.above = some (m', above') ∧
      Joined info s.order s.mshr m' t ∧ Relinked s.above s.mshr above' m' ∧
      Good ⟨m', s.order + 1, above'⟩ { g with arrived := g.arrived ++ [s.order] } := by
  have hne := targets_ne_nil hhas
  rcases allocateTarget_spec info now whenReady s.order allocOnFill hne hcmd h.linked with
    hfails | ⟨hfree, m', t, hm', hjoined, hrelinked⟩
  · exact Or.inl hfails
  · exact Or.inr ⟨hfree, m', t, _, hm', hjoined, hrelinked, h.joined hne hjoined hrelinked.linked⟩

/-- A snoop arrives. -/
theorem Good.snoop (h : Good s g) (info : CmdInfo) (now : ℕ)
    {pkt : Packet} (hhas : s.mshr.hasTargets = true) (hcmd : pkt.cmd ≠ .lockedRMWReadReq)
    (hpanic : info.needsWritable pkt.cmd = info.isInvalidate pkt.cmd ∨
      pkt.cacheMaintenance = true) :
    ∃ r m', s.mshr.handleSnoop info now pkt s.order s.above = some (r, m', s.above) ∧
      Snooped info pkt s.order s.mshr m' ∧ Good ⟨m', s.order + 1, s.above⟩
        (note info g s (.snoop now pkt) ⟨m', s.order + 1, s.above⟩ []) := by
  have hne := targets_ne_nil hhas
  obtain ⟨r, m', hm', hsnooped⟩ := handleSnoop_spec info now s.order s.above hne hpanic
  have hlinked : Linked s.above m' :=
    ⟨hsnooped.uppers ▸ h.linked.nodup, hsnooped.uppers ▸ h.linked.pending⟩
  have hdeferred : m'.deferredTargets.list.map view = s.mshr.deferredTargets.list.map view := by
    rcases hsnooped.deferred with heq | heq
    · rw [heq]
    · rw [heq, view_replaceUpgrades]
  have hreset : s.mshr.deferredTargets.isReset = true → m'.deferredTargets.isReset = true := by
    rcases hsnooped.deferred with heq | heq
    · rw [heq]
      exact fun h => h
    · rw [heq]
      exact isReset_replaceUpgrades
  have hlength : ∀ {ts us : List Target}, ts.map view = us.map view → ts.length = us.length := by
    intro ts us heq
    simpa using congrArg List.length heq
  refine ⟨r, m', hm', hsnooped, ?_⟩
  have hsame : ∀ hview : m'.targets.list.map view = s.mshr.targets.list.map view,
      Good ⟨m', s.order + 1, s.above⟩
        (note info g s (.snoop now pkt) ⟨m', s.order + 1, s.above⟩ []) := by
    intro hview
    have hnum : m'.getNumTargets = s.mshr.getNumTargets := by
      unfold MSHR.getNumTargets
      rw [hlength hview, hlength hdeferred]
    exact h.same hview hdeferred hsnooped.same.1 hreset hlinked (Nat.le_succ _) rfl rfl rfl
      (if_pos hnum) rfl
  rcases hsnooped.targets with heq | heq | ⟨hservice, t, hsource, horder, htcmd, hlist, -⟩
  · exact hsame (by rw [heq])
  · exact hsame (by rw [heq, view_replaceUpgrades])
  · have hnum : ¬m'.getNumTargets = s.mshr.getNumTargets := by
      unfold MSHR.getNumTargets
      rw [hlist, hlength hdeferred, List.length_append, List.length_singleton]
      omega
    have hshaped := h.shaped
    have hmem : ∀ u ∈ m'.targets.list, u ∈ s.mshr.targets.list ∨ u = t := by
      intro u hu
      rw [hlist, List.mem_append, List.mem_singleton] at hu
      exact hu
    have hold : Shaped g.held g.outstanding { s.mshr with deferredTargets := m'.deferredTargets } :=
      hshaped.of_view rfl hdeferred rfl hreset
    have hkey : key t = (s.order, false) := by
      rw [key, horder, Target.demand, hsource]
      rfl
    have hle : g.held.toNat ≤ s.mshr.targets.list.length := by
      have hpos := List.length_pos_of_ne_nil hne
      have hbool := Bool.toNat_le g.held
      omega
    have hfirst : s.mshr.hasLockedRMWReadTarget = true → m'.hasLockedRMWReadTarget = true := by
      intro hlocked
      obtain ⟨b, rest, hcons, hb⟩ := hasLocked_iff.1 hlocked
      refine hasLocked_iff.2 ⟨b, rest ++ [t], ?_, hb⟩
      rw [hlist, hcons, List.cons_append]
    refine ⟨⟨?_, ?_, ?_, ?_, hold.deferred, ?_, hold.reset, ?_, ?_, ?_⟩, ?_, hlinked⟩
    · intro u hu
      rw [hlist, List.head?_append_of_ne_nil _ hne] at hu
      exact hshaped.head u hu
    · intro u hu
      rw [hlist] at hu
      rcases mem_tail_append hu with hu | hu
      · exact hshaped.tail u hu
      · rw [List.mem_singleton.1 hu, hsource]
        exact Source.noConfusion
    · intro hidle
      rw [hsnooped.same.1, hservice] at hidle
      cases hidle
    · intro u hu hlocked
      rcases hmem u hu with hu | rfl
      · exact hshaped.locked u hu hlocked
      · exact absurd (htcmd.symm.trans hlocked) hcmd
    · intro hnil
      rw [hlist] at hnil
      exact absurd hnil (by simp)
    · intro hheld
      obtain ⟨hin, hlocked⟩ := hshaped.of_held hheld
      exact ⟨hsnooped.same.1.trans hin, hfirst hlocked⟩
    · intro hsent
      obtain ⟨hin, hheld⟩ := hshaped.of_outstanding hsent
      exact ⟨hsnooped.same.1.trans hin, hheld⟩
    · exact fun hin => (hshaped.awaits (hsnooped.same.1.symm.trans hin)).imp id hfirst
    · refine h.inOrder.arrive ((s.mshr.live g.held).map key)
        (s.mshr.deferredTargets.list.map key) false ?_ ?_
        (fun hf => Bool.noConfusion hf) rfl rfl (if_neg hnum) rfl
      · rw [MSHR.waiting, List.map_append]
      · change (m'.waiting g.held) = _
        unfold MSHR.waiting live
        rw [hlist, List.drop_append_of_le_length hle, List.append_assoc, List.map_append,
          List.map_append, List.map_singleton, hkey, key_of_view hdeferred]
        rfl

/-- The request is sent, or a cache below does not accept it. -/
theorem Good.send (h : Good s g) (info : CmdInfo) (accepted pendingModifiedResp isForward : Bool)
    (hhas : s.mshr.hasTargets = true) (hidle : s.mshr.inService = false) :
    ∃ m' above', s.step info (.send accepted pendingModifiedResp isForward) =
        some (⟨m', s.order, above'⟩, []) ∧
      m'.targets.list.map look = s.mshr.targets.list.map look ∧
      m'.deferredTargets = s.mshr.deferredTargets ∧ m'.inService = accepted ∧
      (accepted = true → m'.pendingModified =
        (s.mshr.targets.needsWritable || pendingModifiedResp)) ∧
      (s.mshr.targets.Sound info → m'.targets.Sound info) ∧
      Relinked s.above s.mshr above' m' ∧
      Good ⟨m', s.order, above'⟩ { g with outstanding := accepted } := by
  obtain ⟨hheld, hsent⟩ := h.idle hidle
  have hne := targets_ne_nil hhas
  let m : MSHR := { s.mshr with isForward := isForward }
  have hlinked : Linked s.above m := ⟨h.linked.nodup, h.linked.pending⟩
  have hrelinked : Relinked s.above s.mshr s.above m := h.linked.relinked (List.Sublist.refl _)
  cases accepted with
  | false =>
      refine ⟨m, s.above, rfl, rfl, rfl, hidle, fun h => Bool.noConfusion h, fun hsound => hsound,
        hrelinked, ?_⟩
      exact h.same rfl rfl rfl (fun hreset => hreset) hlinked (le_refl _) rfl hsent.symm rfl rfl rfl
  | true =>
      have hforward : Shaped false false m := by
        have hshaped := h.shaped
        rw [hheld, hsent] at hshaped
        exact hshaped.of_view rfl rfl rfl fun hreset => hreset
      obtain ⟨m', above', hm', hservice, hlook, hdeferred, hpending, hsound, hrelinked'⟩ :=
        markInService_spec info (m := m) pendingModifiedResp hlinked hidle
      refine ⟨m', above', ?_, hlook, hdeferred, hservice, fun _ => hpending, hsound,
        hrelinked.trans hrelinked', ?_, ?_, hrelinked'.linked⟩
      · unfold step
        simp only [if_true]
        rw [show MSHR.markInService pendingModifiedResp s.above m = _ from hm', Option.map_some]
      · rw [hheld]
        exact shaped_inService hforward hne hlook hdeferred hservice (fun h => Bool.noConfusion h)
          (fun _ => rfl) (Or.inl rfl)
      · exact h.inOrder.same (waiting_of_view (view_of_look hlook) (congrArg (fun l : TargetList =>
          l.list.map view) hdeferred)) (le_refl _) rfl rfl rfl

/-- The registers above are told that the request was sent. -/
theorem Good.clearDownstream (h : Good s g) (info : CmdInfo)
    (hpending : s.mshr.downstreamPending = true) :
    ∃ m' above', s.mshr.clearDownstreamPending s.above = some (m', above') ∧
      m'.targets.list.map look = s.mshr.targets.list.map look ∧
      m'.deferredTargets = s.mshr.deferredTargets ∧ m'.inService = s.mshr.inService ∧
      m'.pendingModified = s.mshr.pendingModified ∧
      (s.mshr.targets.Sound info → m'.targets.Sound info) ∧ Relinked s.above s.mshr above' m' ∧
      Good ⟨m', s.order, above'⟩ g := by
  obtain ⟨m', above', hm', rfl, hrelinked⟩ := clearDownstreamPending_spec h.linked hpending
  have hlook := look_unmark s.mshr.targets.list
  exact ⟨_, above', hm', hlook, rfl, rfl, rfl, fun hsound => hsound.unmark, hrelinked,
    h.same (view_of_look hlook) rfl rfl (fun hreset => hreset) hrelinked.linked
      (le_refl _) rfl rfl rfl
      rfl rfl⟩

/-- A response is served, or finds a clash. -/
theorem Good.respond (h : Good s g) (info : CmdInfo) (now : ℕ) {resp : Packet} (blk : BlockInfo)
    (hpending : s.mshr.downstreamPending = false)
    (hresp : g.outstanding = true ∧ resp.cmd ≠ .lockedRMWWriteResp ∨
      g.held = true ∧ resp.cmd = .lockedRMWWriteResp) :
    (s.mshr.ClashAt info resp blk s.above ∧ s.mshr.receiveResp info now resp blk s.above = none) ∨
      ¬s.mshr.ClashAt info resp blk s.above ∧ ∃ ready m' above',
        s.mshr.receiveResp info now resp blk s.above = some (ready, m', above') ∧
        Response info resp blk g.held s.mshr m' ready ∧ Relinked s.above s.mshr above' m' ∧
        Good ⟨m', s.order, above'⟩
          (note info g s (.respond now resp blk) ⟨m', s.order, above'⟩ ready) := by
  rcases receiveResp_spec info now blk h.shaped h.linked hpending hresp with
    hclash | ⟨hclash, ready, m', above', hm', hresponse, hrelinked⟩
  · exact Or.inl hclash
  · refine Or.inr ⟨hclash, ready, m', above', hm', hresponse, hrelinked, hresponse.shaped, ?_,
      hrelinked.linked⟩
    exact h.inOrder.serve rfl hresponse.perm hresponse.pairwise rfl rfl rfl

/-- The first target is dropped. -/
theorem Good.squash (h : Good s g) (info : CmdInfo) (now : ℕ) (hhas : s.mshr.hasTargets = true)
    (hidle : s.mshr.inService = false) :
    ∃ m', s.mshr.squash info now = some m' ∧ Squashed info s.mshr m' ∧
      Good { s with mshr := m' } (note info g s (.squash now) { s with mshr := m' } []) := by
  obtain ⟨hheld, hsent⟩ := h.idle hidle
  obtain ⟨front, rest, hlist⟩ := List.exists_cons_of_ne_nil (targets_ne_nil hhas)
  obtain ⟨m', hm', hsquashed⟩ := squash_spec info now h.shaped (targets_ne_nil hhas) hidle
  have hwaiting : s.mshr.waiting false = key front :: m'.waiting false := by
    rw [hsquashed.waiting, MSHR.waiting, live, hlist]
    rfl
  refine ⟨m', hm', hsquashed, ?_, ?_, (h.linked.relinked hsquashed.uppers).linked⟩
  · change Shaped g.held g.outstanding m'
    rw [hheld, hsent]
    exact hsquashed.shaped
  · refine h.inOrder.drop (k := key front) ?_ rfl rfl rfl ?_
    · change s.mshr.waiting g.held = key front :: m'.waiting g.held
      rw [hheld]
      exact hwaiting
    · change g.dropped ++ (s.mshr.targets.list.take 1).map Target.order = _
      rw [hlist]
      rfl

end Steps

/-! ### The copies that the requests need -/

/-- What every run keeps of the copies that the targets need: the flags are right, a request for a
shared copy has no target that needs a writable one, and what has to be sent after the block was
taken away is not an upgrade. -/
structure Kept (info : CmdInfo) (s : MissRegister) (g : History) : Prop where
  targets : s.mshr.targets.Sound info
  deferred : s.mshr.deferredTargets.Sound info
  awaited : g.outstanding = true → s.mshr.pendingModified = false →
    ∀ t ∈ s.mshr.targets.list, t.demand = true → info.needsWritable t.pkt.cmd = false
  bounded : g.lastTaken ≤ s.order
  later : ∀ t ∈ s.mshr.deferredTargets.list, t.order < g.lastTaken → t.upgrades = false
  next : s.mshr.inService = false → ∀ t ∈ s.mshr.targets.list, t.order < g.lastTaken →
    t.upgrades = false

theorem upgrades_of_look {t u : Target} (h : look u = look t) : u.upgrades = t.upgrades := by
  rw [Target.upgrades, (same_of_look h).2.2.1, Target.upgrades]

/-- An upgrade needs a writable copy. -/
theorem not_upgrades (hinfo : info.Documented)
    {t : Target} (h : info.needsWritable t.pkt.cmd = false) :
    t.upgrades = false := by
  refine Bool.eq_false_of_not_eq_true fun hupgrades => ?_
  simp only [Target.upgrades, Bool.or_eq_true, beq_iff_eq] at hupgrades
  have hwritable : info.needsWritable t.pkt.cmd = true := by
    rcases hupgrades with (hcmd | hcmd) | hcmd
    · rw [hcmd]
      exact hinfo.needsWritable _ (by simp)
    · rw [hcmd]
      exact hinfo.needsWritable _ (by simp)
    · rw [hcmd]
      exact hinfo.needsWritable _ (by simp)
  rw [h] at hwritable
  cases hwritable

/-- The targets look as before. -/
theorem Kept.same (h : Kept info s g)
    (htargets : s'.mshr.targets.list.map look = s.mshr.targets.list.map look)
    (hdeferred : s'.mshr.deferredTargets = s.mshr.deferredTargets)
    (hsound : s'.mshr.targets.Sound info) (hbounded : g'.lastTaken ≤ s'.order)
    (htaken : g'.lastTaken = g.lastTaken)
    (hawaited : g'.outstanding = true → s'.mshr.pendingModified = false →
      (g.outstanding = true ∧ s.mshr.pendingModified = false) ∨
      s.mshr.targets.needsWritable = false)
    (hidle : s'.mshr.inService = false → s.mshr.inService = false) : Kept info s' g' := by
  refine ⟨hsound, hdeferred ▸ h.deferred, ?_, hbounded, hdeferred ▸ htaken ▸ h.later, ?_⟩
  · intro hsent hpending t ht hdemand
    obtain ⟨u, hu, hlook⟩ := mem_of_look htargets ht
    obtain ⟨hdemand', -, hcmd, -⟩ := same_of_look hlook
    rw [← hcmd]
    rcases hawaited hsent hpending with ⟨hsent, hpending⟩ | hnone
    · exact h.awaited hsent hpending u hu (hdemand'.trans hdemand)
    · refine Bool.eq_false_of_not_eq_true fun hneeds => ?_
      rw [h.targets.needsWritable u hu (hdemand'.trans hdemand) hneeds] at hnone
      cases hnone
  · intro hservice t ht horder
    obtain ⟨u, hu, hlook⟩ := mem_of_look htargets ht
    rw [← upgrades_of_look hlook]
    rw [← (same_of_look hlook).2.2.2, htaken] at horder
    exact h.next (hidle hservice) u hu horder

theorem Kept.miss (h : Kept info s g) (hinfo : info.Documented) {m' : MSHR} {pkt : Packet}
    (hallocated : Allocated info pkt s.order m') (hsent : g.outstanding = false) (above' : Above) :
    Kept info ⟨m', s.order + 1, above'⟩ { g with arrived := g.arrived ++ [s.order] } := by
  obtain ⟨t, hlist, -, horder, -⟩ := hallocated.targets
  refine ⟨hallocated.sound hinfo, TargetList.sound_nil hallocated.deferred.1, ?_,
    Nat.le_succ_of_le h.bounded, ?_, ?_⟩
  · intro h
    rw [show g.outstanding = true from h] at hsent
    cases hsent
  · intro u hu
    rw [show m'.deferredTargets.list = [] from hallocated.deferred.1] at hu
    cases hu
  · intro _ u hu hlt
    rw [show m'.targets.list = [t] from hlist, List.mem_singleton] at hu
    subst hu
    rw [horder] at hlt
    exact absurd h.bounded (Nat.not_le.2 hlt)

theorem Kept.coalesce (h : Kept info s g) (hinfo : info.Documented) (hgood : Good s g) {m' : MSHR}
    {t : Target} (hjoined : Joined info s.order s.mshr m' t) (above' : Above) :
    Kept info ⟨m', s.order + 1, above'⟩ { g with arrived := g.arrived ++ [s.order] } := by
  obtain ⟨hsound, hsound'⟩ := hjoined.sound hinfo h.targets h.deferred
  have hnew : ¬t.order < g.lastTaken := by
    rw [hjoined.order]
    exact Nat.not_lt.2 h.bounded
  refine ⟨hsound, hsound', ?_, Nat.le_succ_of_le h.bounded, ?_, ?_⟩
  · intro hsent hpending u hu hdemand
    have hpending : s.mshr.pendingModified = false := hjoined.same.2.1.symm.trans hpending
    rcases hjoined.lists with ⟨htargets, -, -, hneeds⟩ | ⟨htargets, -⟩
    · rw [htargets, List.mem_append, List.mem_singleton] at hu
      rcases hu with hu | rfl
      · exact h.awaited hsent hpending u hu hdemand
      · exact hneeds (hgood.shaped.of_outstanding hsent).1 hpending
    · exact h.awaited hsent hpending u (htargets ▸ hu) hdemand
  · intro u hu horder
    rcases hjoined.lists with ⟨-, hdeferred, -, -⟩ | ⟨-, hdeferred⟩
    · exact h.later u (hdeferred ▸ hu) horder
    · rw [hdeferred, List.mem_append, List.mem_singleton] at hu
      rcases hu with hu | rfl
      · exact h.later u hu horder
      · exact absurd horder hnew
  · intro hidle u hu horder
    have hidle : s.mshr.inService = false := hjoined.same.1.symm.trans hidle
    rcases hjoined.lists with ⟨htargets, -, -, -⟩ | ⟨htargets, -⟩
    · rw [htargets, List.mem_append, List.mem_singleton] at hu
      rcases hu with hu | rfl
      · exact h.next hidle u hu horder
      · exact absurd horder hnew
    · exact h.next hidle u (htargets ▸ hu) horder

/-- What replacing upgrades does to what is known of the targets. -/
theorem mem_replaceUpgrades (hinfo : info.Documented) {l : TargetList} {t : Target}
    (ht : t ∈ l.replaceUpgrades.list) : ∃ u ∈ l.list, u.demand = t.demand ∧ u.order = t.order ∧
      info.needsWritable u.pkt.cmd = info.needsWritable t.pkt.cmd ∧
      (u.upgrades = false → t.upgrades = false) := by
  rcases l.replaceUpgrades_cases with ⟨-, heq⟩ | heq
  · rw [heq] at ht
    exact ⟨t, ht, rfl, rfl, rfl, fun h => h⟩
  · rw [heq] at ht
    obtain ⟨u, hu, rfl⟩ := List.mem_map.1 ht
    exact ⟨u, hu, rfl, rfl, (TargetList.needsWritable_replaced hinfo u).symm,
      fun _ => TargetList.upgrades_replaced u⟩

theorem Kept.snoop (h : Kept info s g) (hinfo : info.Documented) (hgood : Good s g)
    (now : ℕ) {m' : MSHR}
    {pkt : Packet} (hsnooped : Snooped info pkt s.order s.mshr m') (above' : Above) :
    Kept info ⟨m', s.order + 1, above'⟩
      (note info g s (.snoop now pkt) ⟨m', s.order + 1, above'⟩ []) := by
  have hshaped := hgood.shaped
  have hdeferred : m'.deferredTargets.Sound info := by
    rcases hsnooped.deferred with heq | heq
    · exact heq ▸ h.deferred
    · exact heq ▸ h.deferred.replaceUpgrades hinfo
  have hall : ∀ t ∈ m'.deferredTargets.list, t.demand = true := by
    intro t ht
    rcases hsnooped.deferred with heq | heq
    · exact demand_of_fromCPU (hshaped.deferred t (heq ▸ ht))
    · obtain ⟨u, hu, hdemand, -⟩ := mem_replaceUpgrades hinfo (heq ▸ ht)
      exact hdemand ▸ demand_of_fromCPU (hshaped.deferred u hu)
  refine ⟨?_, hdeferred, ?_, ?_, ?_, ?_⟩
  · rcases hsnooped.targets with heq | heq | ⟨-, -, -, -, -, -, hsound⟩
    · exact heq ▸ h.targets
    · exact heq ▸ h.targets.replaceUpgrades hinfo
    · exact hsound hinfo h.targets
  · intro hsent hpending t ht hdemand
    have hpending : s.mshr.pendingModified = false := hsnooped.same.2.symm.trans hpending
    have hbefore := h.awaited hsent hpending
    rcases hsnooped.targets with heq | heq | ⟨-, u, hsource, -, -, hlist, -⟩
    · exact hbefore t (heq ▸ ht) hdemand
    · obtain ⟨u, hu, hdemand', -, hneeds, -⟩ := mem_replaceUpgrades hinfo (heq ▸ ht)
      exact hneeds ▸ hbefore u hu (hdemand'.trans hdemand)
    · rw [hlist, List.mem_append, List.mem_singleton] at ht
      rcases ht with ht | rfl
      · exact hbefore t ht hdemand
      · rw [Target.demand, hsource] at hdemand
        cases hdemand
  · change (if takesBlock info pkt then s.order else g.lastTaken) ≤ s.order + 1
    split
    · exact Nat.le_succ _
    · exact Nat.le_succ_of_le h.bounded
  · intro t ht horder
    change t.order < (if takesBlock info pkt then s.order else g.lastTaken) at horder
    split at horder
    · next htakes =>
        have heq := (hsnooped.taken htakes).1
        exact h.deferred.upgrades_replaceUpgrades t (heq ▸ ht) (hall t ht)
    · rcases hsnooped.deferred with heq | heq
      · exact h.later t (heq ▸ ht) horder
      · obtain ⟨u, hu, -, horder', -, hupgrades⟩ := mem_replaceUpgrades hinfo (heq ▸ ht)
        exact hupgrades (h.later u hu (horder' ▸ horder))
  · intro hidle t ht horder
    have hidle : s.mshr.inService = false := hsnooped.same.1.symm.trans hidle
    change t.order < (if takesBlock info pkt then s.order else g.lastTaken) at horder
    split at horder
    · next htakes =>
        have heq := (hsnooped.taken htakes).2 hidle
        have ht : t ∈ s.mshr.targets.replaceUpgrades.list := heq ▸ ht
        obtain ⟨u, hu, hdemand, -⟩ := mem_replaceUpgrades hinfo ht
        exact h.targets.upgrades_replaceUpgrades t ht (hdemand ▸ hshaped.idle hidle u hu)
    · rcases hsnooped.targets with heq | heq | ⟨hservice, -⟩
      · exact h.next hidle t (heq ▸ ht) horder
      · obtain ⟨u, hu, -, horder', -, hupgrades⟩ := mem_replaceUpgrades hinfo (heq ▸ ht)
        exact hupgrades (h.next hidle u hu (horder' ▸ horder))
      · rw [hidle] at hservice
        cases hservice

theorem Kept.respond (h : Kept info s g) (hinfo : info.Documented) (now : ℕ) {resp : Packet}
    {blk : BlockInfo} {m' : MSHR} {ready : List Target} (above' : Above)
    (hresponse : Response info resp blk g.held s.mshr m' ready)
    (hshared : resp.cmd = .readRespWithInvalidate →
      g.outstanding = true ∧ s.mshr.pendingModified = false) :
    Kept info ⟨m', s.order, above'⟩
      (note info g s (.respond now resp blk) ⟨m', s.order, above'⟩ ready) := by
  obtain ⟨hsound, hsound'⟩ := hresponse.sound hinfo h.deferred
  refine ⟨hsound, hsound', fun hsent => Bool.noConfusion hsent, h.bounded,
    fun t ht => h.later t (hresponse.deferred t ht), ?_⟩
  intro hidle t ht horder
  rcases hresponse.left hidle t ht with ⟨u, hu, hlook⟩ | ⟨hcmd, hdemand, u, hu, hlook⟩
  · rw [← upgrades_of_look hlook]
    exact h.later u hu ((same_of_look hlook).2.2.2 ▸ horder)
  · -- the request was for a shared copy: it has no target that needs a writable one
    obtain ⟨hsent, hpending⟩ := hshared hcmd
    rw [← upgrades_of_look hlook]
    exact not_upgrades hinfo (h.awaited hsent hpending u hu ((same_of_look hlook).1.trans hdemand))

theorem Kept.squash (h : Kept info s g) (hinfo : info.Documented) (now : ℕ) {m' : MSHR}
    (hsquashed : Squashed info s.mshr m') (hidle : s.mshr.inService = false)
    (hsent : g.outstanding = false) :
    Kept info { s with mshr := m' } (note info g s (.squash now) { s with mshr := m' } []) := by
  obtain ⟨hsound, hsound'⟩ := hsquashed.sound hinfo h.targets h.deferred
  refine ⟨hsound, hsound', ?_, h.bounded, fun t ht => h.later t (hsquashed.deferred t ht), ?_⟩
  · intro hsent'
    rw [show g.outstanding = true from hsent'] at hsent
    cases hsent
  · intro _ t ht horder
    rcases hsquashed.targets t ht with ht | ht
    · exact h.next hidle t ht horder
    · exact h.later t ht horder

/-! ### Progress -/

/-- A register in service waits for a response or for a locked write. -/
def Awaits (s : MissRegister) (g : History) : Prop :=
  s.mshr.inService = true → g.outstanding = true ∨ g.held = true

/-- Each response serves a target or frees a locked read. -/
def Counted (g : History) : Prop := g.responses + g.held.toNat ≤ 2 * g.served.length + g.locks

theorem Awaits.same (h : Awaits s g)
    (hservice : s'.mshr.inService = true → s.mshr.inService = true)
    (hsent : g'.outstanding = g.outstanding) (hheld : g'.held = g.held) : Awaits s' g' := by
  intro hin
  rw [hsent, hheld]
  exact h (hservice hin)

/-- A register in service that waits for nothing has a locked read, not served, as its
first target. -/
theorem Good.awaits (h : Good s g) (hservice : s.mshr.inService = true) :
    g.outstanding = true ∨ g.held = true ∨ ∃ t ∈ s.mshr.targets.list.head?,
      t.pkt.cmd = .lockedRMWReadReq ∧ t.order ∉ g.served.map Target.order := by
  rcases h.shaped.awaits hservice with hsent | hlocked
  · exact Or.inl hsent
  · cases hheld : g.held with
    | true => exact Or.inr (Or.inl rfl)
    | false =>
        obtain ⟨t, rest, hlist, hcmd⟩ := hasLocked_iff.1 hlocked
        refine Or.inr (Or.inr ⟨t, by rw [hlist]; rfl, hcmd, fun hserved => ?_⟩)
        -- what was served and what waits, together, are different
        have hnodup := h.inOrder.nodup
        rw [← h.inOrder.accounted.nodup_iff, List.map_append, List.append_assoc] at hnodup
        refine List.disjoint_of_nodup_append hnodup (a := t.order) ?_ (List.mem_append_left _ ?_)
        · rw [List.map_map]
          exact hserved
        · rw [MSHR.waiting, live, hheld, hlist]
          exact List.mem_cons_self

theorem Awaits.respond (hinfo : info.needsWritable .lockedRMWReadReq = true) (hkept : Kept info s g)
    {now : ℕ} {resp : Packet} {blk : BlockInfo} {m' : MSHR} {above' : Above} {ready : List Target}
    (hresponse : Response info resp blk g.held s.mshr m' ready)
    (hresp : g.outstanding = true ∧ resp.cmd ≠ .lockedRMWWriteResp ∨
      g.held = true ∧ resp.cmd = .lockedRMWWriteResp)
    (hshared : resp.cmd = .readRespWithInvalidate →
      s.mshr.pendingModified = false ∧ blk.writable = false) :
    Awaits ⟨m', s.order, above'⟩
      (note info g s (.respond now resp blk) ⟨m', s.order, above'⟩ ready) := by
  intro hservice
  refine Or.inr (Bool.eq_true_of_not_eq_false fun hholds => ?_)
  obtain ⟨hcmd, t, hlock, hdemand, hfrom⟩ := hresponse.stranded hservice hholds
  obtain ⟨hpending, hblk⟩ := hshared hcmd
  -- a locked read needs a writable copy, so that it was not among the targets
  have hneeds : info.needsWritable t.pkt.cmd = false := by
    rcases hfrom with ⟨u, hu, hlook⟩ | hfrom
    · obtain ⟨hdemand', -, hcmd', -⟩ := same_of_look hlook
      have hsent : g.outstanding = true := by
        rcases hresp with ⟨hsent, -⟩ | ⟨-, hresp⟩
        · exact hsent
        · rw [hcmd] at hresp
          cases hresp
      exact hcmd' ▸ hkept.awaited hsent hpending u hu (hdemand'.trans hdemand)
    · exact hfrom hblk
  rw [hlock, hinfo] at hneeds
  cases hneeds

theorem Counted.respond (h : Counted g) (hgood : Good s g)
    {now : ℕ} {resp : Packet} {blk : BlockInfo} {m' : MSHR} {above' : Above} {ready : List Target}
    (hresponse : Response info resp blk g.held s.mshr m' ready)
    (hresp : g.outstanding = true ∧ resp.cmd ≠ .lockedRMWWriteResp ∨
      g.held = true ∧ resp.cmd = .lockedRMWWriteResp) :
    Counted (note info g s (.respond now resp blk) ⟨m', s.order, above'⟩ ready) := by
  have hcounts : g.responses + g.held.toNat ≤ 2 * g.served.length + g.locks := h
  have hbool := Bool.toNat_le (holds ready)
  have hserved : (g.served ++ ready).length = g.served.length + ready.length := List.length_append
  change g.responses + 1 + (holds ready).toNat ≤ 2 * (g.served ++ ready).length + g.locks
  rcases hresp with ⟨hsent, -⟩ | ⟨hheld, -⟩
  · -- the request was sent for the first target
    obtain ⟨hservice, hheld⟩ := hgood.shaped.of_outstanding hsent
    have hne : s.mshr.live g.held ≠ [] := by
      intro hnil
      rw [hheld] at hnil
      rw [(hgood.shaped.free hnil).2] at hservice
      cases hservice
    have hpos := List.length_pos_of_ne_nil (hresponse.serves hne)
    omega
  · rw [hheld, Bool.toNat_true] at hcounts
    cases ready with
    | nil =>
        have hnone : (holds []).toNat = 0 := rfl
        omega
    | cons t ts =>
        rw [List.length_cons] at hserved
        omega

/-! ### A step and a run -/

/-- What a step keeps, and which flags of the registers above it touches. -/
structure Next (info : CmdInfo) (s : MissRegister) (g : History) (o : Op) (s' : MissRegister)
    (g' : History) : Prop where
  good : Good s' g'
  kept : info.Documented → Kept info s g → Kept info s' g'
  awaits : info.Documented → info.needsWritable .lockedRMWReadReq = true → Kept info s g →
    Awaits s g → Awaits s' g'
  counted : Counted g → Counted g'
  relinked : Relinked s.above s.mshr s'.above s'.mshr ∨ ∃ above, o = .changeAbove above

/-- The assertions that can fail, as they are seen before the step. -/
def Fails (info : CmdInfo) (s : MissRegister) (o : Op) : Prop :=
  Clashes info s o ∨ AsksTwice info s o

theorem not_fails {o : Op} (hrespond : ∀ now resp blk, o ≠ .respond now resp blk)
    (hasks : ¬AsksTwice info s o) : ¬Fails info s o := by
  rintro (⟨now, resp, blk, heq, -⟩ | htwice)
  · exact hrespond now resp blk heq
  · exact hasks htwice

/-- The targets are as they were, or look as they did, and nothing is sent. -/
theorem Good.next (h : Good s g)
    (hlook : s'.mshr.targets.list.map look = s.mshr.targets.list.map look)
    (hdeferred : s'.mshr.deferredTargets = s.mshr.deferredTargets)
    (hservice : s'.mshr.inService = s.mshr.inService)
    (hpending : s'.mshr.pendingModified = s.mshr.pendingModified)
    (hsound : s.mshr.targets.Sound info → s'.mshr.targets.Sound info)
    (hlinked : Linked s'.above s'.mshr) (horder : s.order ≤ s'.order)
    (hrelinked : Relinked s.above s.mshr s'.above s'.mshr ∨ ∃ above, o = .changeAbove above) :
    Next info s g o s' g where
  good := h.same (view_of_look hlook) (by rw [hdeferred])
    hservice (by rw [hdeferred]; exact fun h => h)
    hlinked horder rfl rfl rfl rfl rfl
  kept _ hkept := hkept.same hlook hdeferred (hsound hkept.targets) (hkept.bounded.trans horder) rfl
    (fun hsent hnone => Or.inl ⟨hsent, hpending ▸ hnone⟩) fun hidle => hservice ▸ hidle
  awaits _ _ _ hawaits := hawaits.same (fun hin => hservice ▸ hin) rfl rfl
  counted h := h
  relinked := hrelinked

/-- **A step fails in a clash, or if it marks a register above that is pending already, and keeps
the invariants otherwise.** -/
theorem step_spec (h : Good s g) (hp : promise info (s, g) o) :
    (Fails info s o ∧ s.step info o = none) ∨ ¬Fails info s o ∧ ∃ s' served,
      s.step info o = some (s', served) ∧ Next info s g o s' (note info g s o s' served) := by
  cases o with
  | miss now blkAddr blkSize pkt whenReady allocOnFill =>
      obtain ⟨-, -, hheld, hsent, -⟩ := h.free hp
      cases hasks : (pkt.upper true).any s.above with
      | true =>
          refine Or.inl ⟨Or.inr hasks, ?_⟩
          rw [step, allocate_eq_none info now blkAddr blkSize whenReady s.order allocOnFill hasks,
            Option.map_none]
      | false =>
          obtain ⟨m', hm', hallocated, hrelinked, hgood⟩ :=
            h.miss info now blkAddr blkSize pkt whenReady allocOnFill hp hasks
          refine Or.inr ⟨not_fails (fun _ _ _ => Op.noConfusion) ?_, ⟨m', s.order + 1, _⟩, [], ?_,
            hgood, fun hinfo hkept => hkept.miss hinfo hallocated hsent _, fun _ _ _ hawaits => ?_,
            fun h => h, Or.inl hrelinked⟩
          · simp [AsksTwice, hasks]
          · rw [step, hm', Option.map_some]
          · refine hawaits.same (fun hin => ?_) rfl rfl
            rw [show m'.inService = false from hallocated.idle.1] at hin
            cases hin
  | lock now blkAddr blkSize pkt allocOnFill =>
      obtain ⟨-, -, hheld, hsent, -⟩ := h.free hp.1
      cases hasks : (pkt.upper true).any s.above with
      | true =>
          refine Or.inl ⟨Or.inr hasks, ?_⟩
          rw [step, allocate_eq_none info now blkAddr blkSize now s.order allocOnFill hasks,
            Option.bind_none, Option.map_none]
      | false =>
          obtain ⟨m', above', hm', hdeferred, hsound, hservice, hrelinked, hgood⟩ :=
            h.lock info now blkAddr blkSize allocOnFill hp.1 hp.2 hasks
          refine Or.inr ⟨not_fails (fun _ _ _ => Op.noConfusion) ?_,
            ⟨m', s.order + 1, above'⟩, [], ?_, hgood, fun hinfo hkept =>
              ⟨hsound hinfo, TargetList.sound_nil hdeferred, ?_, Nat.le_succ_of_le hkept.bounded,
                ?_, ?_⟩, fun _ _ _ _ _ => Or.inr rfl, fun hcounted => ?_, Or.inl hrelinked⟩
          · simp [AsksTwice, hasks]
          · rw [step, hm', Option.map_some]
          · intro hsent'
            rw [show g.outstanding = true from hsent'] at hsent
            cases hsent
          · intro t ht
            rw [show m'.deferredTargets.list = [] from hdeferred] at ht
            cases ht
          · intro hidle
            rw [show m'.inService = false from hidle] at hservice
            cases hservice
          · have hresponses : g.responses + g.held.toNat ≤ 2 * g.served.length + g.locks := hcounted
            rw [hheld, Bool.toNat_false] at hresponses
            change g.responses + 1 ≤ 2 * g.served.length + (g.locks + 1)
            omega
  | coalesce now pkt whenReady allocOnFill =>
      rcases h.coalesce info now whenReady allocOnFill hp.1 hp.2 with
        ⟨hasks, hnone⟩ | ⟨hasks, m', t, above', hm', hjoined, hrelinked, hgood⟩
      · refine Or.inl ⟨Or.inr hasks, ?_⟩
        rw [step, hnone, Option.map_none]
      · refine Or.inr ⟨not_fails (fun _ _ _ => Op.noConfusion) ?_,
          ⟨m', s.order + 1, above'⟩, [], ?_, hgood, fun hinfo hkept =>
            hkept.coalesce hinfo h hjoined above', fun _ _ _ hawaits => ?_,
          fun h => h, Or.inl hrelinked⟩
        · simp [AsksTwice, hasks]
        · rw [step, hm', Option.map_some]
        · exact hawaits.same (fun hin => hjoined.same.1.symm.trans hin) rfl rfl
  | snoop now pkt =>
      obtain ⟨r, m', hm', hsnooped, hgood⟩ := h.snoop info now hp.1 hp.2.1 hp.2.2
      refine Or.inr ⟨not_fails (fun _ _ _ => Op.noConfusion) id, ⟨m', s.order + 1, s.above⟩, [], ?_,
        hgood, fun hinfo hkept => hkept.snoop hinfo h now hsnooped s.above, fun _ _ _ hawaits => ?_,
        fun h => h, Or.inl (h.linked.relinked (hsnooped.uppers ▸ List.Sublist.refl _))⟩
      · rw [step, hm', Option.map_some]
      · exact hawaits.same (fun hin => hsnooped.same.1.symm.trans hin) rfl rfl
  | buffered =>
      exact Or.inr ⟨not_fails (fun _ _ _ => Op.noConfusion) id, _, [], rfl,
        h.next rfl rfl rfl rfl (fun hsound => hsound) ⟨h.linked.nodup, h.linked.pending⟩ (le_refl _)
          (Or.inl (h.linked.relinked (List.Sublist.refl _)))⟩
  | clearDownstream =>
      obtain ⟨m', above', hm', hlook, hdeferred, hservice, hpending, hsound, hrelinked, -⟩ :=
        h.clearDownstream info hp
      refine Or.inr ⟨not_fails (fun _ _ _ => Op.noConfusion) id, ⟨m', s.order, above'⟩, [], ?_,
        h.next hlook hdeferred hservice hpending hsound hrelinked.linked (le_refl _)
          (Or.inl hrelinked)⟩
      rw [step, hm', Option.map_some]
  | send accepted pendingModifiedResp isForward =>
      obtain ⟨m', above', hm', hlook, hdeferred, hservice, hpending, hsound, hrelinked, hgood⟩ :=
        h.send info accepted pendingModifiedResp isForward hp.1 hp.2
      refine Or.inr ⟨not_fails (fun _ _ _ => Op.noConfusion) id, ⟨m', s.order, above'⟩,
        [], hm', hgood, fun _ hkept => ?_, fun _ _ _ _ hin =>
          Or.inl (hservice.symm.trans hin), fun h => h, Or.inl hrelinked⟩
      refine hkept.same hlook hdeferred (hsound hkept.targets) hkept.bounded rfl ?_ fun _ => hp.2
      intro hsent hnone
      rw [show m'.pendingModified = false from hnone] at hpending
      exact Or.inr (Bool.or_eq_false_iff.1 (hpending hsent).symm).1
  | delay now delayTicks =>
      refine Or.inr ⟨not_fails (fun _ _ _ => Op.noConfusion) id,
        { s with mshr := { s.mshr with readyTime := now + delayTicks } }, [], ?_,
        h.next rfl rfl rfl rfl (fun hsound => hsound) ⟨h.linked.nodup, h.linked.pending⟩ (le_refl _)
          (Or.inl (h.linked.relinked (List.Sublist.refl _)))⟩
      have hready : s.mshr.readyTime ≤ now := hp
      rw [step, MSHR.delay, if_pos hready, Option.map_some]
  | respond now resp blk =>
      obtain ⟨hpending, hresp, hshared⟩ := hp
      have hresp' : g.outstanding = true ∧ resp.cmd ≠ .lockedRMWWriteResp ∨
          g.held = true ∧ resp.cmd = .lockedRMWWriteResp := hresp.imp id fun h => ⟨h.1, h.2.1⟩
      rcases h.respond info now blk hpending hresp' with
        ⟨hclash, hnone⟩ | ⟨hclash, ready, m', above', hm', hresponse, hrelinked, hgood⟩
      · refine Or.inl ⟨Or.inl ⟨now, resp, blk, rfl, hclash⟩, ?_⟩
        rw [step, hnone, Option.map_none]
      · refine Or.inr ⟨?_, ⟨m', s.order, above'⟩, ready, ?_, hgood, fun hinfo hkept => ?_,
          fun _ hlocked hkept _ => Awaits.respond hlocked hkept hresponse hresp' hshared,
          fun hcounted => hcounted.respond h hresponse hresp', Or.inl hrelinked⟩
        · rintro (⟨now', resp', blk', heq, hclash'⟩ | htwice)
          · cases heq
            exact hclash hclash'
          · exact htwice
        · rw [step, hm', Option.map_some]
        · refine hkept.respond hinfo now above' hresponse fun hcmd => ⟨?_, (hshared hcmd).1⟩
          rcases hresp with ⟨hsent, -⟩ | ⟨-, hcmd', -⟩
          · exact hsent
          · rw [hcmd] at hcmd'
            cases hcmd'
  | squash now =>
      obtain ⟨hheld, hsent⟩ := h.idle hp.2
      obtain ⟨m', hm', hsquashed, hgood⟩ := h.squash info now hp.1 hp.2
      refine Or.inr ⟨not_fails (fun _ _ _ => Op.noConfusion) id, { s with mshr := m' },
        [], ?_, hgood, fun hinfo hkept => hkept.squash hinfo now hsquashed hp.2 hsent,
        fun _ _ _ hawaits => ?_, fun h => h, Or.inl (h.linked.relinked hsquashed.uppers)⟩
      · rw [step, hm', Option.map_some]
      · refine hawaits.same (fun hin => ?_) rfl rfl
        rw [show m'.inService = false from hsquashed.inService] at hin
        cases hin
  | elsewhere =>
      exact Or.inr ⟨not_fails (fun _ _ _ => Op.noConfusion) id, { s with order := s.order + 1 },
        [], rfl, h.next rfl rfl rfl rfl (fun hsound => hsound) h.linked (Nat.le_succ _)
          (Or.inl (h.linked.relinked (List.Sublist.refl _)))⟩
  | changeAbove above =>
      exact Or.inr ⟨not_fails (fun _ _ _ => Op.noConfusion) id, { s with above := above }, [], rfl,
        h.next rfl rfl rfl rfl (fun hsound => hsound) ⟨h.linked.nodup, hp⟩ (le_refl _)
          (Or.inr ⟨above, rfl⟩)⟩

/-- The register of a cache that has not seen a miss. -/
def init : MissRegister := ⟨MSHR.empty, 0, fun _ => false⟩

/-- The runs of a register, with what they have served. -/
abbrev Run (info : CmdInfo) : List (List Target) → MissRegister × History → Prop :=
  Runs.Run (Runs.withHistory (perform info) (note info)) (promise info) (init, .init)

section Run

variable {trace : List (List Target)}

theorem good_init : Good init .init := by
  refine ⟨shaped_of_idle rfl ?_ ?_ ?_ (fun _ => rfl) fun _ => rfl,
    ⟨List.Pairwise.nil, List.Perm.nil, ?_, List.nodup_nil⟩, List.nodup_nil, ?_⟩
  · intro t ht
    cases ht
  · intro t ht
    cases ht
  · intro t ht
    cases ht
  · intro order horder
    cases horder
  · intro r hr
    cases hr

theorem kept_init : Kept info init .init := by
  refine ⟨TargetList.sound_nil rfl, TargetList.sound_nil rfl, fun h => Bool.noConfusion h,
    le_refl _, ?_, ?_⟩
  · intro t ht
    cases ht
  · intro _ t ht
    cases ht

/-- What holds after every run. -/
theorem run_invariant (h : Run info trace (s, g)) :
    Good s g ∧ Counted g ∧ (info.Documented → Kept info s g) ∧
      (info.Documented → info.needsWritable .lockedRMWReadReq = true → Awaits s g) := by
  let P : MissRegister × History → Prop := fun x => Good x.1 x.2 ∧ Counted x.2 ∧
    (info.Documented → Kept info x.1 x.2) ∧
    (info.Documented → info.needsWritable .lockedRMWReadReq = true → Awaits x.1 x.2)
  have hinit : P (init, .init) :=
    ⟨good_init, Nat.le_refl _, fun _ => kept_init, fun _ _ hin => Bool.noConfusion hin⟩
  refine h.state_invariant P hinit ?_
  rintro ⟨s₁, g₁⟩ o ⟨s₂, g₂⟩ served ⟨hgood, hcounted, hkept, hawaits⟩ hp hstep
  obtain ⟨hok, rfl⟩ := Runs.withHistory_eq_ok.1 hstep
  rw [perform_eq_ok] at hok
  rcases step_spec hgood hp with ⟨-, hnone⟩ | ⟨-, s', served', hsome, hnext⟩
  · rw [hnone] at hok
    cases hok
  · rw [hsome] at hok
    cases hok
    exact ⟨hnext.good, hnext.counted hcounted, fun hinfo => hnext.kept hinfo (hkept hinfo),
      fun hinfo hlocked => hnext.awaits hinfo hlocked (hkept hinfo) (hawaits hinfo hlocked)⟩

/-- **No target is lost or served twice, the requests are served in the order in which they arrived,
and none overtakes an earlier snoop.** -/
theorem run_in_order (h : Run info trace (s, g)) :
    InOrder s g :=
  (run_invariant h).1.inOrder

/-- A read, a second one that joins, a snoop that invalidates, a write that is deferred, and a
response that invalidates: the first read and the snoop are served. -/
theorem run_in_order_snoop :
    ∃ trace s g, Run .usual trace (s, g) ∧ g.served.map Target.order = [0, 2] ∧ InOrder s g := by
  have hrun : ∃ trace x, Run .usual trace x ∧ x.2.served.map Target.order = [0, 2] :=
    Runs.exists_run_of_exec [.miss 0 0 4 (.plain .readReq) 0 false, .send true false false,
      .coalesce 0 (.plain .readReq) 0 false, .snoop 0 (.plain .readExReq),
      .coalesce 1 (.plain .writeReq) 1 false,
      .respond 2 (.plain .readRespWithInvalidate) ⟨true, false, false⟩] (by decide)
  obtain ⟨trace, ⟨s, g⟩, hrun, hserved⟩ := hrun
  exact ⟨trace, s, g, hrun, hserved, run_in_order hrun⟩

/-- **The only assertions that can fail are the one of `promoteWritable`**, which fails in a clash,
**and the one of `TargetList::add`**, which fails if the register above is pending already. -/
theorem run_fails_iff (h : Run info trace (s, g)) (hp : promise info (s, g) o) :
    perform info s o = .error () ↔ Clashes info s o ∨ AsksTwice info s o := by
  rw [perform_eq_error]
  rcases step_spec (run_invariant h).1 hp with ⟨hfails, hnone⟩ | ⟨hfails, s', served, hsome, -⟩
  · exact ⟨fun _ => hfails, fun _ => hnone⟩
  · refine ⟨fun hnone => ?_, fun h => absurd h hfails⟩
    rw [hsome] at hnone
    cases hnone

/-- A clash: a write that waits for a modified copy, a read with the flag of a cache maintenance
request, which is deferred, and another write behind it.  And a register above whose second request
joins its first. -/
theorem run_fails_iff_clash :
    (∃ trace s g o, Run .usual trace (s, g) ∧ promise .usual (s, g) o ∧
      perform .usual s o = .error () ∧ (Clashes .usual s o ∨ AsksTwice .usual s o)) ∧
    ∃ trace s g o, Run .stub trace (s, g) ∧ promise .stub (s, g) o ∧
      perform .stub s o = .error () ∧ (Clashes .stub s o ∨ AsksTwice .stub s o) := by
  constructor
  · let o : Op := .respond 2 (.plain .writeResp) ⟨true, true, true⟩
    have hrun : ∃ trace x, Run .usual trace x ∧ promise .usual x o ∧
        Runs.failure (perform .usual x.1 o) = some () :=
      Runs.exists_run_of_exec [.miss 0 0 4 (.plain .writeReq) 0 false, .send true false false,
        .coalesce 0 { Packet.plain .readReq with cacheMaintenance := true } 0 false,
        .coalesce 1 (.plain .writeReq) 1 false] (by decide)
    obtain ⟨trace, ⟨s, g⟩, hrun, hpromise, hfails⟩ := hrun
    rw [Runs.failure_eq_some] at hfails
    exact ⟨trace, s, g, o, hrun, hpromise, hfails, (run_fails_iff hrun hpromise).1 hfails⟩
  · let pkt : Packet := { Packet.plain .readReq with sender := some 0 }
    let o : Op := .coalesce 1 pkt 1 false
    have hrun : ∃ trace x, Run .stub trace x ∧ promise .stub x o ∧
        Runs.failure (perform .stub x.1 o) = some () :=
      Runs.exists_run_of_exec [.miss 0 0 4 pkt 0 false] (by decide)
    obtain ⟨trace, ⟨s, g⟩, hrun, hpromise, hfails⟩ := hrun
    rw [Runs.failure_eq_some] at hfails
    exact ⟨trace, s, g, o, hrun, hpromise, hfails, (run_fails_iff hrun hpromise).1 hfails⟩

/-- **A request that needs a writable copy is served only if the block is writable or a modified
copy was awaited.** -/
theorem run_writable (hinfo : info.Documented) (h : Run info trace (s, g))
    {now : ℕ} {resp : Packet} {blk : BlockInfo} (hp : promise info (s, g) (.respond now resp blk))
    (hstep : perform info s (.respond now resp blk) = .ok (s', served)) :
    ∀ t ∈ served, t.demand = true → info.needsWritable t.pkt.cmd = true →
      s.mshr.pendingModified = true ∨ blk.writable = true := by
  intro t ht hdemand hneeds
  obtain ⟨hgood, -, hkept, -⟩ := run_invariant h
  obtain ⟨hpending, hresp, -⟩ := hp
  have hresp' : g.outstanding = true ∧ resp.cmd ≠ .lockedRMWWriteResp ∨
      g.held = true ∧ resp.cmd = .lockedRMWWriteResp := hresp.imp id fun h => ⟨h.1, h.2.1⟩
  rw [perform_eq_ok, step] at hstep
  rcases hgood.respond info now blk hpending hresp' with
    ⟨-, hnone⟩ | ⟨-, ready, m', above', hm', hresponse, -, -⟩
  · rw [hnone] at hstep
    cases hstep
  · rw [hm', Option.map_some] at hstep
    cases hstep
    by_contra hcopy
    rw [not_or, Bool.not_eq_true, Bool.not_eq_true] at hcopy
    obtain ⟨hmodified, hblk⟩ := hcopy
    rcases hresponse.served t ht with ⟨u, hu, hlook⟩ | ⟨u, -, -, hshared⟩
    · have hsent : g.outstanding = true := by
        rcases hresp with ⟨hsent, -⟩ | ⟨-, -, hwritable⟩
        · exact hsent
        · rw [hblk] at hwritable
          cases hwritable
      obtain ⟨hdemand', -, hcmd, -⟩ := same_of_look hlook
      have hnot := (hkept hinfo).awaited hsent hmodified u hu (hdemand'.trans hdemand)
      rw [hcmd, hneeds] at hnot
      cases hnot
    · rw [hshared hblk] at hneeds
      cases hneeds

/-- A write that joins a read that was sent is served with it, from a block that is writable. -/
theorem run_writable_promoted : ∃ trace s g resp blk s' served, Run .usual trace (s, g) ∧
    perform .usual s (.respond 2 resp blk) = .ok (s', served) ∧ served.map Target.order = [0, 1] ∧
    s.mshr.pendingModified = false ∧
    ∀ t ∈ served, t.demand = true → CmdInfo.usual.needsWritable t.pkt.cmd = true →
      s.mshr.pendingModified = true ∨ blk.writable = true := by
  let o : Op := .respond 2 (.plain .readResp) ⟨true, true, true⟩
  have hrun : ∃ trace x, Run .usual trace x ∧ promise .usual x o ∧
      x.1.mshr.pendingModified = false ∧
      ((perform .usual x.1 o).toOption.map fun r => r.2.map Target.order) = some [0, 1] :=
    Runs.exists_run_of_exec [.miss 0 0 4 (.plain .readReq) 0 false, .send true false false,
      .coalesce 0 (.plain .writeReq) 0 false] (by decide)
  obtain ⟨trace, ⟨s, g⟩, hrun, hpromise, hpending, hserved⟩ := hrun
  cases hok : perform CmdInfo.usual s o with
  | error e =>
      rw [hok] at hserved
      cases hserved
  | ok r =>
      obtain ⟨s', served⟩ := r
      rw [hok] at hserved
      exact ⟨trace, s, g, .plain .readResp, ⟨true, true, true⟩, s', served, hrun, hok,
        Option.some.inj hserved, hpending, run_writable CmdInfo.documented_usual hrun hpromise hok⟩

/-- **No upgrade is sent for a block that was taken away**: what a register that may be sent has
from before the last snoop that took the block is not an upgrade. -/
theorem run_upgrades (hinfo : info.Documented) (h : Run info trace (s, g))
    (hidle : s.mshr.inService = false) :
    ∀ t ∈ s.mshr.targets.list, t.order < g.lastTaken → t.upgrades = false :=
  ((run_invariant h).2.2.1 hinfo).next hidle

/-- An upgrade, and a snoop that takes the block before it is sent. -/
theorem run_upgrades_snoop : ∃ trace s g, Run .usual trace (s, g) ∧
    s.mshr.targets.list.map Target.order = [0] ∧ g.lastTaken = 1 ∧
    ∀ t ∈ s.mshr.targets.list, t.order < g.lastTaken → t.upgrades = false := by
  have hrun : ∃ trace x, Run .usual trace x ∧ x.1.mshr.inService = false ∧
      x.1.mshr.targets.list.map Target.order = [0] ∧ x.2.lastTaken = 1 :=
    Runs.exists_run_of_exec [.miss 0 0 4 (.plain .upgradeReq) 0 false, .snoop 0 (.plain .readExReq)]
      (by decide)
  obtain ⟨trace, ⟨s, g⟩, hrun, hidle, horder, htaken⟩ := hrun
  exact ⟨trace, s, g, hrun, horder, htaken, run_upgrades CmdInfo.documented_usual hrun hidle⟩

/-- **A register in service waits for a response or for a locked write, or has a locked read as its
first target that was not served**, and the responses are at most two for each target that was
served, and one for each locked read that took the register.  If locked reads need a writable copy,
as they are documented to, the third case does not occur. -/
theorem run_progress (h : Run info trace (s, g)) :
    (s.mshr.inService = true → g.outstanding = true ∨ g.held = true ∨
      ∃ t ∈ s.mshr.targets.list.head?, t.pkt.cmd = .lockedRMWReadReq ∧
        t.order ∉ g.served.map Target.order) ∧
    (info.Documented → info.needsWritable .lockedRMWReadReq = true →
      s.mshr.inService = true → g.outstanding = true ∨ g.held = true) ∧
    g.responses + g.held.toNat ≤ 2 * g.served.length + g.locks := by
  obtain ⟨hgood, hcounted, -, hawaits⟩ := run_invariant h
  exact ⟨hgood.awaits, hawaits, hcounted⟩

/-- A locked read takes a register, a read joins it, and the locked write comes.  And with
attributes by which no command needs a writable copy, a locked read that joins a read is left behind
by a response that invalidates. -/
theorem run_progress_locked :
    (∃ trace s g, Run .usual trace (s, g) ∧ g.responses = 1 ∧ g.locks = 1 ∧
      (s.mshr.inService = true → g.outstanding = true ∨ g.held = true) ∧
      g.responses + g.held.toNat ≤ 2 * g.served.length + g.locks) ∧
    ∃ trace s g, Run .stub trace (s, g) ∧ s.mshr.inService = true ∧ g.outstanding = false ∧
      g.held = false ∧ ∃ t ∈ s.mshr.targets.list.head?, t.pkt.cmd = .lockedRMWReadReq ∧
        t.order ∉ g.served.map Target.order := by
  constructor
  · have hrun : ∃ trace x, Run .usual trace x ∧ x.2.responses = 1 ∧ x.2.locks = 1 :=
      Runs.exists_run_of_exec [.lock 0 0 4 (.plain .lockedRMWReadReq) false,
        .coalesce 0 (.plain .readReq) 0 false, .respond 2 (.plain .lockedRMWWriteResp)
          ⟨true, true, true⟩]
        (by decide)
    obtain ⟨trace, ⟨s, g⟩, hrun, hresponses, hlocks⟩ := hrun
    obtain ⟨-, hawaits, hcounted⟩ := run_progress hrun
    exact ⟨trace, s, g, hrun, hresponses, hlocks,
      hawaits CmdInfo.documented_usual (by decide), hcounted⟩
  · have hrun : ∃ trace x, Run .stub trace x ∧ x.1.mshr.inService = true ∧ x.2.outstanding = false ∧
        x.2.held = false :=
      Runs.exists_run_of_exec [.miss 0 0 4 (.plain .readReq) 0 false, .send true false false,
        .coalesce 0 (.plain .lockedRMWReadReq) 0 false,
        .respond 2 (.plain .readRespWithInvalidate) ⟨true, false, false⟩] (by decide)
    obtain ⟨trace, ⟨s, g⟩, hrun, hservice, hsent, hheld⟩ := hrun
    refine ⟨trace, s, g, hrun, hservice, hsent, hheld, ?_⟩
    rcases (run_progress hrun).1 hservice with hsent' | hheld' | hstuck
    · cases hsent.symm.trans hsent'
    · cases hheld.symm.trans hheld'
    · exact hstuck

end Run

end MissRegister

end OpenCache
