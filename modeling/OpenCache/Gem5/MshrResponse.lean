/-
**What a response does to a miss register.**

When a response comes (`recvTimingResp`, `serviceMSHRTargets`), deferred targets are promoted if the
block allows it, targets are served, and what is left goes downstream again, or the register is
freed.  A locked read that is served stays, first among the targets, until the locked write comes;
it is then *held*.  This module puts the functions of `Gem5/MshrTargets.lean` together in this way,
and says once what a response does.

Main definitions:

* `OpenCache.MSHR.receiveResp` — a response; `OpenCache.MSHR.squash` — the first target is dropped;
* `OpenCache.MSHR.Clash` — both lists need a writable copy, and the deferred targets
  could be promoted;
* `OpenCache.MSHR.Shaped` — the shape of a register;
* `OpenCache.MSHR.waiting` — the targets that wait, without the one that is held.

Main results:

* `OpenCache.MSHR.promote_spec` — what is promoted, and when the assertion of
  `promoteWritable` fails;
* `OpenCache.MSHR.splitTargets_spec` — what is served, and what stays;
* `OpenCache.MSHR.receiveResp_spec` — **one response: it fails in a clash, and otherwise keeps the
  shape and serves targets in an order that respects their arrival**.
-/

import OpenCache.Gem5.MshrTargets
import Mathlib.Data.List.TakeWhile

set_option relaxedAutoImplicit false
set_option autoImplicit false

namespace OpenCache

variable {info : CmdInfo}

/-- What a response finds in the cache: a valid block, a writable block, and whether requests are
satisfied from the block. -/
structure BlockInfo where
  valid : Bool
  writable : Bool
  fromBlock : Bool
  deriving DecidableEq, Repr

namespace MSHR

variable (info)

/-- Deferred targets join the others before a response is served (`recvTimingResp`). -/
def promoteClean (resp : Packet) (blk : BlockInfo) (above : Above) (m : MSHR) :
    Option (MSHR × Above) :=
  if blk.valid && info.isClean resp.cmd && !info.isInvalidate resp.cmd
    then m.promoteReadable info above
  else some (m, above)

def promote (resp : Packet) (blk : BlockInfo) (above : Above) (m : MSHR) : Option (MSHR × Above) :=
  if m.hasLockedRMWReadTarget then some (m, above)
  else (m.promoteClean info resp blk above).bind fun r =>
    if blk.writable && !resp.cacheInvalidate then r.1.promoteWritable info r.2 else some r

/-- The response of a locked write pops the locked read (`serviceMSHRTargets`). -/
def popLocked (resp : Packet) (m : MSHR) : Option MSHR :=
  if !m.hasTargets then none
  else if resp.cmd = .lockedRMWWriteResp then
    if m.hasLockedRMWReadTarget then some m.popTarget else none
  else some m

/-- A target is served, as far as the register goes (`serviceMSHRTargets`): what is said of the time
after the response goes with it, and the packet of a locked read that the block
satisfies is replaced. -/
def serveTarget (blk : BlockInfo) (m : MSHR) (t : Target) : Option MSHR :=
  match t.source with
  | .fromCPU =>
      if info.isSWPrefetch t.pkt.cmd || !blk.fromBlock then some m
      else m.hasPostDowngrade.bind fun _ =>
        if t.pkt.cmd = .lockedRMWReadReq then m.updateLockedRMWReadTarget t else some m
  | .fromPrefetcher => some m
  | .fromSnoop => m.hasPostInvalidate.map fun _ => m

/-- The targets that a response serves (`serviceMSHRTargets`). -/
def service (resp : Packet) (blk : BlockInfo) (m : MSHR) : Option (List Target × MSHR) :=
  (m.extractServiceableTargets info resp).bind fun r =>
    (r.1.list.foldlM (serveTarget info blk) r.2).map fun m => (r.1.list, m)

/-- What is left goes downstream again, or the register is freed (`recvTimingResp`). -/
def finish (now : ℕ) (m : MSHR) : Option MSHR :=
  if m.hasLockedRMWReadTarget then some m
  else if (m.promoteDeferredTargets info now).1 then
    some { (m.promoteDeferredTargets info now).2 with inService := false }
  else m.deallocate

def receiveResp (now : ℕ) (resp : Packet) (blk : BlockInfo) (above : Above) (m : MSHR) :
    Option (List Target × MSHR × Above) :=
  (m.promote info resp blk above).bind fun promoted =>
    ((popLocked resp promoted.1).bind (service info resp blk)).bind fun r =>
      (r.2.finish info now).map fun m => (r.1, m, promoted.2)

/-- `forceDeallocateTarget`, without the queue. -/
def squash (now : ℕ) (m : MSHR) : Option MSHR :=
  if !m.hasTargets then none
  else
    let m := m.popTarget
    if m.hasTargets then some m
    else if (m.promoteDeferredTargets info now).1 then some (m.promoteDeferredTargets info now).2
    else m.deallocate

end MSHR

/-! ### Serving targets -/

namespace MSHR

theorem takeTargets_spec (ts : List Target) :
    ((∀ t ∈ ts, t.pkt.cmd ≠ .lockedRMWReadReq) ∧ takeTargets ts = (ts, [])) ∨
      ∃ pre b post, ts = pre ++ b :: post ∧ (∀ t ∈ pre, t.pkt.cmd ≠ .lockedRMWReadReq) ∧
        b.pkt.cmd = .lockedRMWReadReq ∧ takeTargets ts = (pre ++ [b], b :: post) := by
  induction ts with
  | nil => exact Or.inl ⟨by simp, rfl⟩
  | cons t ts ih =>
      by_cases ht : t.pkt.cmd = .lockedRMWReadReq
      · refine Or.inr ⟨[], t, ts, rfl, by simp, ht, ?_⟩
        rw [takeTargets, if_pos ht]
        rfl
      · rcases ih with ⟨hnone, heq⟩ | ⟨pre, b, post, rfl, hpre, hb, heq⟩
        · refine Or.inl ⟨?_, ?_⟩
          · intro u hu
            rcases List.mem_cons.1 hu with rfl | hu
            · exact ht
            · exact hnone u hu
          · rw [takeTargets, if_neg ht, heq]
        · refine Or.inr ⟨t :: pre, b, post, rfl, ?_, hb, ?_⟩
          · intro u hu
            rcases List.mem_cons.1 hu with rfl | hu
            · exact ht
            · exact hpre u hu
          · rw [takeTargets, if_neg ht, heq]
            rfl

theorem takeSnoops_eq {ts : List Target} (h : ∀ t ∈ ts, t.source ≠ .fromPrefetcher) :
    takeSnoops ts = some (ts.filter fun t => !t.demand, ts.filter Target.demand) := by
  induction ts with
  | nil => rfl
  | cons t ts ih =>
      have ih := ih fun u hu => h u (List.mem_cons_of_mem _ hu)
      have ht := h t List.mem_cons_self
      cases hsource : t.source with
      | fromCPU =>
          have hdemand : t.demand = true := by simp [Target.demand, hsource]
          simp [takeSnoops, hsource, ih, hdemand]
      | fromSnoop =>
          have hdemand : t.demand = false := by simp [Target.demand, hsource]
          simp [takeSnoops, hsource, ih, hdemand]
      | fromPrefetcher => exact absurd hsource ht

theorem splitDeferred_append (targets deferred : List Target) :
    (splitDeferred targets deferred).1 ++ (splitDeferred targets deferred).2 = deferred := by
  unfold splitDeferred
  simp only
  split
  · next h =>
      have hrest : deferred.dropWhile (fun t => !t.pkt.cacheMaintenance) = deferred := by
        have := List.takeWhile_append_dropWhile (p := fun t : Target => !t.pkt.cacheMaintenance)
          (l := deferred)
        rwa [List.isEmpty_iff.1 h] at this
      split
      · rw [List.take_append_drop, hrest]
      · rw [List.nil_append, hrest]
  · exact List.takeWhile_append_dropWhile

/-- If no target is left, a deferred one is promoted. -/
theorem splitDeferred_ne_nil {deferred : List Target} (h : deferred ≠ []) :
    (splitDeferred [] deferred).1 ≠ [] := by
  unfold splitDeferred
  simp only [List.isEmpty_nil, if_true]
  split
  · next hnil =>
      have hrest : deferred.dropWhile (fun t => !t.pkt.cacheMaintenance) = deferred := by
        have := List.takeWhile_append_dropWhile (p := fun t : Target => !t.pkt.cacheMaintenance)
          (l := deferred)
        rwa [List.isEmpty_iff.1 hnil] at this
      rw [hrest]
      cases deferred with
      | nil => exact absurd rfl h
      | cons t ts => simp
  · next hne => simpa using hne

/-! ### One response -/

/-- What the proofs follow of a target. -/
def look (t : Target) : ℕ × Source × MemCmd := (t.order, t.source, t.pkt.cmd)

/-- The order of a target, and whether it is a request. -/
def key (t : Target) : ℕ × Bool := (t.order, t.demand)

/-- A request comes before everything that arrived later. -/
def Before (x y : ℕ × Bool) : Prop := x.2 = true → x.1 < y.1

@[simp] theorem look_unmark (ts : List Target) : (unmark ts).map look = ts.map look := by
  unfold unmark
  rw [List.map_map]
  rfl

theorem key_of_look {ts us : List Target} (h : ts.map look = us.map look) :
    ts.map key = us.map key := by
  have hkey : key = (fun x : ℕ × Source × MemCmd => (x.1, decide (x.2.1 ≠ .fromSnoop))) ∘ look :=
    rfl
  rw [hkey, ← List.map_map, ← List.map_map, h]

/-- The targets that wait in the first list: without the one that is held. -/
def live (held : Bool) (m : MSHR) : List Target := m.targets.list.drop held.toNat

/-- The shape of a register. -/
structure Shaped (held outstanding : Bool) (m : MSHR) : Prop where
  head : ∀ t ∈ m.targets.list.head?, t.demand = true
  tail : ∀ t ∈ m.targets.list.tail, t.source ≠ .fromPrefetcher
  idle : m.inService = false → ∀ t ∈ m.targets.list, t.demand = true
  locked : ∀ t ∈ m.targets.list, t.pkt.cmd = .lockedRMWReadReq → t.demand = true
  deferred : ∀ t ∈ m.deferredTargets.list, t.source = .fromCPU
  free : m.targets.list = [] → m.deferredTargets.list = [] ∧ m.inService = false
  reset : m.deferredTargets.list = [] → m.deferredTargets.isReset = true
  of_held : held = true → m.inService = true ∧ m.hasLockedRMWReadTarget = true
  of_outstanding : outstanding = true → m.inService = true ∧ held = false
  awaits : m.inService = true → outstanding = true ∨ m.hasLockedRMWReadTarget = true

/-- Deferred targets have joined the others. -/
structure Promoted (info : CmdInfo) (m m' : MSHR) (moved : List Target) : Prop where
  deferred : m.deferredTargets.list = moved ++ m'.deferredTargets.list
  targets : m'.targets.list = m.targets.list ++ unmark moved
  same : m'.inService = m.inService ∧ m'.downstreamPending = m.downstreamPending ∧
    m'.pendingModified = m.pendingModified
  flags : m'.deferredTargets = m.deferredTargets ∨
    ∃ l, m'.deferredTargets = TargetList.populateFlags info l

theorem Promoted.refl (m : MSHR) : Promoted info m m [] :=
  ⟨rfl, (List.append_nil _).symm, ⟨rfl, rfl, rfl⟩, Or.inl rfl⟩

theorem Promoted.trans {m m₁ m₂ : MSHR} {moved₁ moved₂ : List Target}
    (h₁ : Promoted info m m₁ moved₁)
    (h₂ : Promoted info m₁ m₂ moved₂) : Promoted info m m₂ (moved₁ ++ moved₂) := by
  refine ⟨?_, ?_, ?_, ?_⟩
  · rw [h₁.deferred, h₂.deferred, List.append_assoc]
  · rw [h₂.targets, h₁.targets, List.append_assoc, unmark, unmark, unmark, List.map_append]
  · exact ⟨h₂.same.1.trans h₁.same.1, h₂.same.2.1.trans h₁.same.2.1, h₂.same.2.2.trans h₁.same.2.2⟩
  · rcases h₂.flags with heq | hflags
    · rw [heq]
      exact h₁.flags
    · exact Or.inr hflags

section Promotion

variable {m : MSHR} {above : Above}

/-- `promoteIf` does not fail on deferred requests. -/
theorem promoteIf_spec (info : CmdInfo) (pred : Target → Bool) (hlinked : Linked above m)
    (hpending : m.downstreamPending = false)
    (hdeferred : ∀ t ∈ m.deferredTargets.list, t.source = .fromCPU) :
    ∃ m' above' moved, m.promoteIf info pred above = some (m', above') ∧ Promoted info m m' moved ∧
      Relinked above m above' m' ∧ ∀ t ∈ moved, pred t = true := by
  have happend := List.takeWhile_append_dropWhile (p := pred) (l := m.deferredTargets.list)
  have hcpu : ((m.deferredTargets.list.takeWhile pred ++
      (m.deferredTargets.list.dropWhile pred).take 1).all fun t => t.source = .fromCPU) = true := by
    rw [List.all_eq_true]
    intro t ht
    rcases List.mem_append.1 ht with ht | ht
    · exact decide_eq_true (hdeferred t ((List.takeWhile_sublist _).mem ht))
    · exact decide_eq_true (hdeferred t ((List.dropWhile_sublist _).mem (List.mem_of_mem_take ht)))
  let moved := m.deferredTargets.list.takeWhile pred
  let left := m.deferredTargets.list.dropWhile pred
  let rest : TargetList := { m.deferredTargets with list := left }
  let m' : MSHR := { m with
    targets := { m.targets with list := m.targets.list ++ unmark moved }
    deferredTargets := TargetList.populateFlags info rest }
  have hperm : m.uppers.Perm
      (OpenCache.uppers moved ++ (OpenCache.uppers m.targets.list ++ OpenCache.uppers left)) := by
    unfold MSHR.uppers
    rw [← happend, uppers_append, uppers_append, ← List.append_assoc, ← List.append_assoc]
    exact List.perm_append_comm.append_right _
  have huppers : m'.uppers = OpenCache.uppers m.targets.list ++ OpenCache.uppers left := by
    simp only [MSHR.uppers, m', rest, TargetList.populateFlags_list, uppers_append, uppers_unmark,
      List.append_nil]
  obtain ⟨above', hclear, hrelinked⟩ := hlinked.cleared hperm
  refine ⟨m', above', moved, ?_, ⟨?_, rfl, ⟨rfl, rfl, rfl⟩, Or.inr ⟨rest, rfl⟩⟩,
    hrelinked m' huppers, ?_⟩
  · unfold MSHR.promoteIf
    dsimp only
    rw [if_neg (by rw [hpending, hcpu]; simp),
      show clearUppers (m.deferredTargets.list.takeWhile pred) above = _ from hclear]
    rfl
  · change _ = _ ++ (TargetList.populateFlags info rest).list
    rw [TargetList.populateFlags_list]
    exact happend.symm
  · intro t ht
    exact List.mem_takeWhile_imp ht

theorem promoteReadable_spec (info : CmdInfo) (hlinked : Linked above m)
    (hservice : m.inService = true) (hpending : m.downstreamPending = false)
    (hdeferred : ∀ t ∈ m.deferredTargets.list, t.source = .fromCPU) :
    ∃ m' above' moved, m.promoteReadable info above = some (m', above') ∧ Promoted info m m' moved ∧
      Relinked above m above' m' ∧ ∀ t ∈ moved, info.needsWritable t.pkt.cmd = false := by
  have hsame : Relinked above m above m := hlinked.relinked (List.Sublist.refl _)
  unfold MSHR.promoteReadable
  rw [hasPostInvalidate_of_inService hservice, Option.bind_some]
  split
  · exact ⟨m, above, [], rfl, .refl m, hsame, by simp⟩
  · split
    · exact ⟨m, above, [], rfl, .refl m, hsame, by simp⟩
    · obtain ⟨m', above', moved, hm', hpromoted, hrelinked, hmoved⟩ := promoteIf_spec info
        (fun t => !t.pkt.cacheInvalidate && !info.needsWritable t.pkt.cmd)
          hlinked hpending hdeferred
      refine ⟨m', above', moved, hm', hpromoted, hrelinked, fun t ht => ?_⟩
      have h := hmoved t ht
      simp only [Bool.and_eq_true, Bool.not_eq_true'] at h
      exact h.2

/-- Both lists need a writable copy, and the deferred targets could be promoted. -/
def Clash (m : MSHR) : Prop :=
  m.targets.needsWritable = true ∧ m.deferredTargets.needsWritable = true ∧
    m.postInvalidate = false ∧ m.postDowngrade = false ∧
    ∃ front ∈ m.deferredTargets.list.head?, front.pkt.cacheInvalidate = false

theorem promoteWritable_spec (info : CmdInfo) (hlinked : Linked above m)
    (hservice : m.inService = true) (hpending : m.downstreamPending = false)
    (hdeferred : ∀ t ∈ m.deferredTargets.list, t.source = .fromCPU) :
    (m.Clash ∧ m.promoteWritable info above = none) ∨
      ¬m.Clash ∧ ∃ m' above' moved, m.promoteWritable info above = some (m', above') ∧
        Promoted info m m' moved ∧ Relinked above m above' m' := by
  have hsame : Relinked above m above m := hlinked.relinked (List.Sublist.refl _)
  unfold MSHR.promoteWritable
  simp only [hasPostInvalidate_of_inService hservice, hasPostDowngrade_of_inService hservice,
    Option.bind_some]
  split
  · next hnil =>
      refine Or.inr ⟨?_, m, above, [], rfl, .refl m, hsame⟩
      rintro ⟨-, -, -, -, front, hfront, -⟩
      rw [hnil] at hfront
      cases hfront
  · next front rest hcons =>
      have hclash : m.Clash ↔ m.targets.needsWritable = true ∧
          m.deferredTargets.needsWritable = true ∧
          m.postInvalidate = false ∧ m.postDowngrade = false ∧
          front.pkt.cacheInvalidate = false := by
        unfold Clash
        rw [hcons, List.head?_cons]
        simp
      split
      · next hwritable =>
          rw [Bool.not_eq_true'] at hwritable
          refine Or.inr ⟨fun h => ?_, m, above, [], rfl, .refl m, hsame⟩
          rw [h.2.1] at hwritable
          cases hwritable
      · next hwritable =>
          rw [Bool.not_eq_true', Bool.not_eq_false] at hwritable
          split
          · next hinvalidate =>
              refine Or.inr ⟨fun h => ?_, m, above, [], rfl, .refl m, hsame⟩
              rw [h.2.2.1] at hinvalidate
              cases hinvalidate
          · next hinvalidate =>
              rw [Bool.not_eq_true] at hinvalidate
              split
              · next hstays =>
                  refine Or.inr ⟨fun h => ?_, m, above, [], rfl, .refl m, hsame⟩
                  rw [(hclash.1 h).2.2.2.1, (hclash.1 h).2.2.2.2] at hstays
                  cases hstays
              · next hmoves =>
                  rw [Bool.or_eq_true, not_or, Bool.not_eq_true, Bool.not_eq_true] at hmoves
                  split
                  · next htargets =>
                      exact Or.inl ⟨hclash.2 ⟨htargets, hwritable, hinvalidate, hmoves⟩, rfl⟩
                  · next htargets =>
                      let m₀ : MSHR := { m with targets :=
                        { m.targets with needsWritable := true } }
                      have hlinked₀ : Linked above m₀ := ⟨hlinked.nodup, hlinked.pending⟩
                      obtain ⟨m', above', moved, hm', hpromoted, hrelinked, -⟩ :=
                        promoteIf_spec info
                        (fun t => !t.pkt.cacheInvalidate) hlinked₀ hpending hdeferred
                      exact Or.inr ⟨fun h => htargets h.1, m', above', moved, hm',
                        ⟨hpromoted.deferred, hpromoted.targets, hpromoted.same, hpromoted.flags⟩,
                        ⟨hrelinked.linked, hrelinked.uppers, hrelinked.above⟩⟩

/-- A response finds a clash, after the targets that a clean request allows were promoted. -/
def ClashAt (info : CmdInfo) (resp : Packet) (blk : BlockInfo) (above : Above) (m : MSHR) : Prop :=
  m.hasLockedRMWReadTarget = false ∧ blk.writable = true ∧ resp.cacheInvalidate = false ∧
    ∃ r, m.promoteClean info resp blk above = some r ∧ r.1.Clash

theorem promote_spec (info : CmdInfo) (resp : Packet) (blk : BlockInfo) (hlinked : Linked above m)
    (hservice : m.inService = true) (hpending : m.downstreamPending = false)
    (hdeferred : ∀ t ∈ m.deferredTargets.list, t.source = .fromCPU) :
    (m.ClashAt info resp blk above ∧ m.promote info resp blk above = none) ∨
      ¬m.ClashAt info resp blk above ∧ ∃ m' above' moved,
        m.promote info resp blk above = some (m', above') ∧
        Promoted info m m' moved ∧ Relinked above m above' m' ∧
        (m.hasLockedRMWReadTarget = true → m' = m) ∧
        (blk.writable = false → ∀ t ∈ moved, info.needsWritable t.pkt.cmd = false) := by
  have hrefl : Relinked above m above m := hlinked.relinked (List.Sublist.refl _)
  unfold MSHR.promote
  split
  · next hlocked =>
      refine Or.inr ⟨fun h => ?_, m, above, [], rfl, .refl m, hrefl, fun _ => rfl, by simp⟩
      rw [h.1] at hlocked
      cases hlocked
  · next hlocked =>
      obtain ⟨m₁, above₁, moved₁, hm₁, hpromoted₁, hrelinked₁, hmoved₁⟩ : ∃ m' above' moved,
          m.promoteClean info resp blk above = some (m', above') ∧ Promoted info m m' moved ∧
            Relinked above m above' m' ∧ ∀ t ∈ moved, info.needsWritable t.pkt.cmd = false := by
        unfold MSHR.promoteClean
        split
        · exact promoteReadable_spec info hlinked hservice hpending hdeferred
        · exact ⟨m, above, [], rfl, .refl m, hrefl, by simp⟩
      have hdeferred₁ : ∀ t ∈ m₁.deferredTargets.list, t.source = .fromCPU := by
        intro t ht
        refine hdeferred t ?_
        rw [hpromoted₁.deferred]
        exact List.mem_append_right _ ht
      have hservice₁ : m₁.inService = true := hpromoted₁.same.1.trans hservice
      have hpending₁ : m₁.downstreamPending = false := hpromoted₁.same.2.1.trans hpending
      have hclash : m.ClashAt info resp blk above ↔
          blk.writable = true ∧ resp.cacheInvalidate = false ∧ m₁.Clash := by
        unfold ClashAt
        rw [hm₁]
        constructor
        · rintro ⟨-, hwritable, hresp, r, hr, h⟩
          obtain rfl := Option.some.inj hr
          exact ⟨hwritable, hresp, h⟩
        · rintro ⟨hwritable, hresp, h⟩
          exact ⟨Bool.eq_false_of_not_eq_true hlocked, hwritable, hresp, (m₁, above₁), rfl, h⟩
      rw [hm₁, Option.bind_some]
      split
      · next hcond =>
          simp only [Bool.and_eq_true, Bool.not_eq_true'] at hcond
          rcases promoteWritable_spec info hrelinked₁.linked hservice₁ hpending₁ hdeferred₁ with
            ⟨h, hnone⟩ | ⟨h, m₂, above₂, moved₂, hm₂, hpromoted₂, hrelinked₂⟩
          · exact Or.inl ⟨hclash.2 ⟨hcond.1, hcond.2, h⟩, hnone⟩
          · refine Or.inr ⟨fun h' => h (hclash.1 h').2.2, m₂, above₂, moved₁ ++ moved₂, hm₂,
              hpromoted₁.trans hpromoted₂, hrelinked₁.trans hrelinked₂, fun hl => absurd hl hlocked,
              fun hwritable => ?_⟩
            rw [hcond.1] at hwritable
            cases hwritable
      · next hcond =>
          refine Or.inr ⟨fun h' => hcond ?_, m₁, above₁, moved₁, rfl, hpromoted₁, hrelinked₁,
            fun hl => absurd hl hlocked, fun _ => hmoved₁⟩
          obtain ⟨hwritable, hresp, -⟩ := hclash.1 h'
          rw [hwritable, hresp]
          rfl

end Promotion

section Service

variable {m : MSHR} {ts ready stay : List Target}

/-- Whether a locked read is served: it stays. -/
def holds (ready : List Target) : Bool := ready.any fun t => t.pkt.cmd = .lockedRMWReadReq

theorem holds_eq_false : holds ready = false ↔ ∀ t ∈ ready, t.pkt.cmd ≠ .lockedRMWReadReq := by
  simp [holds]

/-- What is served and what stays. -/
structure Split (resp : Packet) (ts ready stay : List Target) : Prop where
  arranged : ready ++ stay.drop (holds ready).toNat = ts ∨
    ∃ t rest, ts = t :: rest ∧ ready ++ stay.drop (holds ready).toNat =
      t :: (rest.filter (fun t => !t.demand) ++ rest.filter Target.demand)
  of_holds : holds ready = true → ∃ pre b post, ready = pre ++ [b] ∧ stay = b :: post ∧
    b.pkt.cmd = .lockedRMWReadReq ∧ ∀ t ∈ pre, t.pkt.cmd ≠ .lockedRMWReadReq
  stays : stay.Sublist ts
  tail : ∀ t ∈ stay.tail, t ∈ ts.tail
  left : holds ready = false → stay = [] ∨
    resp.cmd = .readRespWithInvalidate ∧ ∀ t ∈ stay, t.demand = true ∧ t ∈ ts.tail
  serves : ts ≠ [] → ready ≠ []

theorem splitTargets_spec (resp : Packet)
    (hhead : resp.cmd = .readRespWithInvalidate → ∀ t ∈ ts.head?, t.demand = true)
    (htail : ∀ t ∈ ts.tail, t.source ≠ .fromPrefetcher)
    (hlocked : ∀ t ∈ ts, t.pkt.cmd = .lockedRMWReadReq → t.demand = true)
    (hne : resp.cmd = .readRespWithInvalidate → ts ≠ []) :
    ∃ ready stay, splitTargets resp ts = some (ready, stay) ∧ Split resp ts ready stay := by
  unfold splitTargets
  split
  · next hresp =>
      cases ts with
      | nil => exact absurd rfl (hne hresp)
      | cons t rest =>
          have ht : t.demand = true := hhead hresp t rfl
          simp only
          rw [if_neg (by simpa [Target.demand] using ht)]
          split
          · -- the first request and the snoops
            next hcmd =>
              have hready : holds (t :: rest.filter fun t => !t.demand) = false := by
                rw [holds_eq_false]
                intro u hu
                rcases List.mem_cons.1 hu with rfl | hu
                · exact hcmd
                · obtain ⟨hu, hsnoop⟩ := List.mem_filter.1 hu
                  intro hlock
                  rw [hlocked u (List.mem_cons_of_mem _ hu) hlock] at hsnoop
                  cases hsnoop
              have hsnoops : takeSnoops rest = _ := takeSnoops_eq htail
              rw [hsnoops]
              refine ⟨_, _, rfl, Or.inr ⟨t, rest, rfl, ?_⟩, ?_, ?_, ?_, ?_,
                fun _ => List.cons_ne_nil _ _⟩
              · rw [hready]
                rfl
              · intro h
                rw [hready] at h
                cases h
              · exact List.filter_sublist.trans (List.sublist_cons_self _ _)
              · intro u hu
                exact (List.mem_filter.1 (List.mem_of_mem_tail hu)).1
              · intro _
                exact Or.inr ⟨hresp, fun u hu => ⟨(List.mem_filter.1 hu).2,
                  (List.mem_filter.1 hu).1⟩⟩
          · -- a locked read stays with all that follow it
            next hcmd =>
              rw [not_not] at hcmd
              have hready : holds [t] = true := by simp [holds, hcmd]
              refine ⟨[t], t :: rest, rfl, Or.inl ?_,
                fun _ => ⟨[], t, rest, rfl, rfl, hcmd, fun u hu => by cases hu⟩,
                List.Sublist.refl _,
                fun u hu => hu, fun h => ?_, fun _ => List.cons_ne_nil _ _⟩
              · rw [hready]
                rfl
              · rw [hready] at h
                cases h
  · rcases takeTargets_spec ts with ⟨hnone, heq⟩ | ⟨pre, b, post, rfl, hpre, hb, heq⟩
    · have hready : holds ts = false := holds_eq_false.2 hnone
      refine ⟨ts, [], by rw [heq], Or.inl ?_, fun h => ?_, by simp, by simp, fun _ => Or.inl rfl,
        fun hne => hne⟩
      · simp
      · rw [hready] at h
        cases h
    · have hready : holds (pre ++ [b]) = true := by simp [holds, hb]
      refine ⟨pre ++ [b], b :: post, by rw [heq], Or.inl ?_,
        fun _ => ⟨pre, b, post, rfl, rfl, hb, hpre⟩, List.sublist_append_right _ _, fun u hu => ?_,
        fun h => ?_, fun _ => by simp⟩
      · rw [hready]
        simp
      · cases pre with
        | nil => exact hu
        | cons c pre => exact List.mem_append_right _ (List.mem_cons_of_mem _ hu)
      · rw [hready] at h
        cases h

/-- The keys of a list of which only the snoops were moved ahead. -/
theorem Split.pairwise {resp : Packet} (h : Split resp ts ready stay)
    (hts : (ts.map key).Pairwise Before) :
    ((ready ++ stay.drop (holds ready).toNat).map key).Pairwise Before := by
  rcases h.arranged with heq | ⟨t, rest, rfl, heq⟩
  · rwa [heq]
  · rw [heq]
    rw [List.map_cons, List.pairwise_cons] at hts
    obtain ⟨ht, hrest⟩ := hts
    have hsub : ∀ p : Target → Bool, ((rest.filter p).map key).Pairwise Before := fun p =>
      hrest.sublist (List.filter_sublist.map key)
    rw [List.map_cons, List.pairwise_cons, List.map_append, List.pairwise_append]
    refine ⟨?_, hsub _, hsub _, ?_⟩
    · intro k hk
      rcases List.mem_append.1 hk with hk | hk
      · exact ht k ((List.filter_sublist.map key).mem hk)
      · exact ht k ((List.filter_sublist.map key).mem hk)
    · intro k hk k' _ hdemand
      obtain ⟨u, hu, rfl⟩ := List.mem_map.1 hk
      have hsnoop := (List.mem_filter.1 hu).2
      rw [show u.demand = true from hdemand] at hsnoop
      cases hsnoop

theorem Split.perm {resp : Packet} (h : Split resp ts ready stay) :
    (ready ++ stay.drop (holds ready).toNat).Perm ts := by
  rcases h.arranged with heq | ⟨t, rest, rfl, heq⟩
  · rw [heq]
  · rw [heq]
    refine List.Perm.cons t ?_
    have hperm := List.filter_append_perm (fun t : Target => !t.demand) rest
    simpa using hperm

/-- A locked read is first. -/
theorem hasLocked_iff : m.hasLockedRMWReadTarget = true ↔
    ∃ t rest, m.targets.list = t :: rest ∧ t.pkt.cmd = .lockedRMWReadReq := by
  unfold MSHR.hasLockedRMWReadTarget
  cases m.targets.list with
  | nil => simp
  | cons t rest => simp

theorem hasLocked_of_look {b : Target} {post : List Target}
    (h : m.targets.list.map look = (b :: post).map look) (hb : b.pkt.cmd = .lockedRMWReadReq) :
    m.hasLockedRMWReadTarget = true := by
  rw [hasLocked_iff]
  cases hlist : m.targets.list with
  | nil =>
      rw [hlist] at h
      cases h
  | cons t rest =>
      rw [hlist, List.map_cons, List.map_cons, List.cons_eq_cons] at h
      have hcmd : t.pkt.cmd = b.pkt.cmd := congrArg (fun x : ℕ × Source × MemCmd => x.2.2) h.1
      exact ⟨t, rest, rfl, hcmd.trans hb⟩

/-- The targets that stay after a response was served. -/
structure Served (info : CmdInfo) (m m' : MSHR) (stay : List Target) : Prop where
  look : m'.targets.list.map look = stay.map look
  deferred : m'.deferredTargets = m.deferredTargets
  same : m'.inService = m.inService ∧ m'.pendingModified = m.pendingModified
  sound : info.Documented → m'.targets.Sound info
  uppers : (OpenCache.uppers m'.targets.list).Sublist (OpenCache.uppers stay)

/-- If no locked read is first after a response, none was served. -/
theorem Split.not_holds {m₂ m₃ : MSHR} {resp : Packet} (h : Split resp m₂.targets.list ready stay)
    (hserved : Served info m₂ m₃ stay) (hfirst : m₃.hasLockedRMWReadTarget = false) :
    holds ready = false := by
  refine Bool.eq_false_of_not_eq_true fun hholds => ?_
  obtain ⟨-, b, post, -, rfl, hb, -⟩ := h.of_holds hholds
  rw [hasLocked_of_look hserved.look hb] at hfirst
  cases hfirst

/-- What the flags of a list say depends on the orders, sources and commands of its targets. -/
theorem sound_of_look {l l' : TargetList} (h : l.Sound info)
    (hlook : l'.list.map look = l.list.map look)
    (hwritable : l'.needsWritable = l.needsWritable) (hupgrade : l'.hasUpgrade = l.hasUpgrade) :
    l'.Sound info := by
  have hmem : ∀ t ∈ l'.list, ∃ u ∈ l.list, look u = look t := by
    intro t ht
    have hin : look t ∈ l.list.map look := hlook ▸ List.mem_map_of_mem ht
    obtain ⟨u, hu, heq⟩ := List.mem_map.1 hin
    exact ⟨u, hu, heq⟩
  have hcmd : ∀ {t u : Target}, look u = look t → u.pkt.cmd = t.pkt.cmd ∧ u.demand = t.demand := by
    intro t u heq
    simp only [look, Prod.mk.injEq] at heq
    exact ⟨heq.2.2, by rw [Target.demand, heq.2.1, Target.demand]⟩
  constructor
  · intro t ht hdemand hneeds
    obtain ⟨u, hu, heq⟩ := hmem t ht
    rw [hwritable]
    exact h.needsWritable u hu ((hcmd heq).2.trans hdemand) (by rw [(hcmd heq).1]; exact hneeds)
  · intro t ht hdemand hneeds
    obtain ⟨u, hu, heq⟩ := hmem t ht
    rw [hupgrade]
    refine h.hasUpgrade u hu ((hcmd heq).2.trans hdemand) ?_
    rw [Target.upgrades, (hcmd heq).1]
    exact hneeds

/-- A target that is not a locked read is served without a change of the register. -/
theorem serveTarget_of_ne (info : CmdInfo) (blk : BlockInfo) (hservice : m.inService = true)
    {t : Target} (hcmd : t.pkt.cmd ≠ .lockedRMWReadReq) : m.serveTarget info blk t = some m := by
  unfold MSHR.serveTarget
  rw [hasPostInvalidate_of_inService hservice, hasPostDowngrade_of_inService hservice,
    Option.bind_some, if_neg hcmd]
  cases t.source with
  | fromCPU => exact ite_self _
  | fromSnoop => rfl
  | fromPrefetcher => rfl

theorem foldlM_serveTarget (info : CmdInfo) (blk : BlockInfo) (hservice : m.inService = true)
    (h : ∀ t ∈ ts, t.pkt.cmd ≠ .lockedRMWReadReq) :
    ts.foldlM (serveTarget info blk) m = some m := by
  induction ts with
  | nil => rfl
  | cons t ts ih =>
      rw [List.foldlM_cons, serveTarget_of_ne info blk hservice (h t List.mem_cons_self)]
      exact ih fun u hu => h u (List.mem_cons_of_mem _ hu)

/-- The packet of the first target may be replaced when it is served. -/
theorem serveTarget_of_first (info : CmdInfo) (blk : BlockInfo) (hservice : m.inService = true)
    {t : Target} {post : List Target} (hfirst : m.targets.list = t :: post)
    (hcmd : t.pkt.cmd = .lockedRMWReadReq) : m.serveTarget info blk t = some m ∨
      ∃ u : Target, look u = look t ∧ u.upper = none ∧
        m.serveTarget info blk t =
        some { m with targets := { m.targets with list := u :: post } } := by
  unfold MSHR.serveTarget
  rw [hasPostInvalidate_of_inService hservice, hasPostDowngrade_of_inService hservice,
    Option.bind_some, if_pos hcmd]
  cases t.source with
  | fromCPU =>
      simp only
      split
      · exact Or.inl rfl
      · let u : Target := { t with pkt := { t.pkt with
            cmd := .lockedRMWReadReq
            addr := 0
            size := 0
            maskedWrite := false
            fromCache := false
            expressSnoop := false
            sender := none } }
        refine Or.inr ⟨u, by simp [look, u, hcmd], ite_self _, ?_⟩
        unfold MSHR.updateLockedRMWReadTarget
        rw [hfirst]
        exact if_pos ⟨rfl, rfl⟩
  | fromSnoop => exact Or.inl rfl
  | fromPrefetcher => exact Or.inl rfl

theorem service_spec (info : CmdInfo) (resp : Packet) (blk : BlockInfo)
    (hservice : m.inService = true)
    (hhead : resp.cmd = .readRespWithInvalidate → ∀ t ∈ m.targets.list.head?, t.demand = true)
    (htail : ∀ t ∈ m.targets.list.tail, t.source ≠ .fromPrefetcher)
    (hlocked : ∀ t ∈ m.targets.list, t.pkt.cmd = .lockedRMWReadReq → t.demand = true)
    (hne : resp.cmd = .readRespWithInvalidate → m.targets.list ≠ []) :
    ∃ ready stay m', m.service info resp blk = some (ready, m') ∧
      Split resp m.targets.list ready stay ∧ Served info m m' stay := by
  obtain ⟨ready, stay, hsplit, hspec⟩ := splitTargets_spec resp hhead htail hlocked hne
  let l : TargetList := TargetList.populateFlags info { m.targets with list := stay }
  let m₁ : MSHR := { m with targets := l }
  have hlist : l.list = stay := TargetList.populateFlags_list
  have hready : (TargetList.populateFlags info
      { (TargetList.empty.init m.blkAddr m.blkSize) with list := ready }).list = ready :=
    TargetList.populateFlags_list
  have hserve : m.service info resp blk =
      (ready.foldlM (serveTarget info blk) m₁).map fun m => (ready, m) := by
    unfold MSHR.service MSHR.extractServiceableTargets
    rw [hsplit, Option.map_some, Option.bind_some]
    simp only [hready]
    rfl
  have hserved : Served info m m₁ stay := ⟨by simp only [m₁, hlist], rfl, ⟨rfl, rfl⟩,
    fun hinfo => TargetList.sound_populateFlags hinfo _, by simp only [m₁, hlist,
      List.Sublist.refl]⟩
  by_cases hholds : holds ready = true
  · -- the locked read is the last one that is served, and the first one that stays
    obtain ⟨pre, b, post, hb, hstay, hcmd, hpre⟩ := hspec.of_holds hholds
    have hbefore : pre.foldlM (serveTarget info blk) m₁ = some m₁ :=
      foldlM_serveTarget info blk hservice hpre
    have hfold : ready.foldlM (serveTarget info blk) m₁ = m₁.serveTarget info blk b := by
      rw [hb, List.foldlM_append, hbefore]
      exact bind_pure (m₁.serveTarget info blk b)
    rcases serveTarget_of_first info blk (m := m₁) hservice (hlist.trans hstay) hcmd with
      heq | ⟨u, hlook, hupper, heq⟩
    · exact ⟨ready, stay, m₁, by rw [hserve, hfold, heq]; rfl, hspec, hserved⟩
    · refine ⟨ready, stay, { m₁ with targets := { l with list := u :: post } },
        by rw [hserve, hfold, heq]; rfl, hspec, ?_⟩
      have hlook' : (u :: post).map look = l.list.map look := by
        rw [hlist, hstay, List.map_cons, List.map_cons, hlook]
      refine ⟨hlook'.trans (by rw [hlist]), rfl, ⟨rfl, rfl⟩, fun hinfo =>
        sound_of_look (TargetList.sound_populateFlags hinfo _) hlook' rfl rfl, ?_⟩
      change (OpenCache.uppers (u :: post)).Sublist (OpenCache.uppers stay)
      rw [hstay, uppers_cons, uppers_cons, hupper]
      exact List.sublist_append_right _ _
  · have hnone := holds_eq_false.1 (Bool.eq_false_of_not_eq_true hholds)
    have hfold : ready.foldlM (serveTarget info blk) m₁ = some m₁ :=
      foldlM_serveTarget info blk hservice hnone
    exact ⟨ready, stay, m₁, by rw [hserve, hfold]; rfl, hspec, hserved⟩

end Service

section Response

variable {m m' : MSHR} {held outstanding : Bool}

/-- The targets that wait, in the order in which they would be served. -/
def waiting (held : Bool) (m : MSHR) : List (ℕ × Bool) :=
  (m.live held ++ m.deferredTargets.list).map key

/-- What is left after a response is still in service, because a locked read is first, or waits to
be sent, or there is nothing left. -/
structure Finished (info : CmdInfo) (m m' : MSHR) : Prop where
  cases : (m.hasLockedRMWReadTarget = true ∧ m' = m) ∨
    m.hasLockedRMWReadTarget = false ∧ m'.inService = false ∧ ∃ moved,
      m'.targets.list = m.targets.list ++ moved ∧
      m.deferredTargets.list = moved ++ m'.deferredTargets.list ∧
      (m'.targets.list = [] → m'.deferredTargets.list = [])
  reset : (m.deferredTargets.list = [] → m.deferredTargets.isReset = true) →
    m'.deferredTargets.list = [] → m'.deferredTargets.isReset = true
  sound : info.Documented → m.targets.Sound info → m.deferredTargets.Sound info →
    m'.targets.Sound info ∧ m'.deferredTargets.Sound info

/-- `promoteDeferredTargets`, with what it means for `hasTargets`. -/
theorem promoteDeferredTargets_spec (info : CmdInfo) (now : ℕ)
    (hne : ¬(m.targets.list = [] ∧ m.deferredTargets.list = [])) :
    (m.promoteDeferredTargets info now).1 = true ∧ ∃ moved,
      (m.promoteDeferredTargets info now).2.targets.list = m.targets.list ++ moved ∧
      m.deferredTargets.list = moved ++ (m.promoteDeferredTargets info now).2.deferredTargets.list ∧
      (m.promoteDeferredTargets info now).2.targets.list ≠ [] ∧
      (m.promoteDeferredTargets info now).2.inService = m.inService ∧
      (m.promoteDeferredTargets info now).2.downstreamPending = m.downstreamPending ∧
      (∃ l, (m.promoteDeferredTargets info now).2.targets = TargetList.populateFlags info l) ∧
      ∃ l, (m.promoteDeferredTargets info now).2.deferredTargets =
      TargetList.populateFlags info l := by
  have hcond : ¬(m.targets.list.isEmpty && m.deferredTargets.list.isEmpty) = true := by
    intro h
    rw [Bool.and_eq_true, List.isEmpty_iff, List.isEmpty_iff] at h
    exact hne h
  unfold MSHR.promoteDeferredTargets
  rw [if_neg hcond]
  simp only [TargetList.populateFlags_list]
  refine ⟨trivial, (splitDeferred m.targets.list m.deferredTargets.list).1, rfl,
    (splitDeferred_append _ _).symm, ?_, trivial, trivial, ⟨_, rfl⟩, ⟨_, rfl⟩⟩
  intro hnil
  obtain ⟨htargets, hmoved⟩ := List.append_eq_nil_iff.1 hnil
  rw [htargets] at hmoved
  exact splitDeferred_ne_nil (fun hdeferred => hne ⟨htargets, hdeferred⟩) hmoved

theorem finish_spec (info : CmdInfo) (now : ℕ)
    (hreset : m.deferredTargets.list = [] → m.deferredTargets.isReset = true) :
    ∃ m', m.finish info now = some m' ∧ Finished info m m' := by
  unfold MSHR.finish
  split
  · next hlocked => exact ⟨m, rfl, Or.inl ⟨hlocked, rfl⟩, fun h => h, fun _ h h' => ⟨h, h'⟩⟩
  · next hlocked =>
      have hlocked := Bool.eq_false_of_not_eq_true hlocked
      by_cases hnil : m.targets.list = [] ∧ m.deferredTargets.list = []
      · have hpromote : m.promoteDeferredTargets info now = (false, m) := by
          unfold MSHR.promoteDeferredTargets
          rw [hnil.1, hnil.2]
          rfl
        rw [hpromote]
        refine ⟨{ m with
            targets := m.targets.resetFlags
            inService := false }, ?_, Or.inr ⟨hlocked, rfl, [], ?_, rfl, fun _ => hnil.2⟩,
              fun h => h,
          fun _ _ h' => ⟨TargetList.sound_nil hnil.1, h'⟩⟩
        · unfold MSHR.deallocate
          rw [if_neg (by simp), if_pos ⟨by rw [hnil.1]; rfl, hreset hnil.2⟩]
        · exact (List.append_nil _).symm
      · obtain ⟨hpromote, moved, htargets, hdeferred, hne, -, -, ⟨l, hl⟩, ⟨l', hl'⟩⟩ :=
          promoteDeferredTargets_spec info now hnil
        rw [if_pos hpromote]
        refine ⟨_, rfl, Or.inr ⟨hlocked, rfl, moved, htargets, hdeferred,
          fun h => absurd h hne⟩, ?_, ?_⟩
        · intro _ hnone
          simp only [hl', TargetList.populateFlags_list] at hnone
          simp only [hl']
          exact TargetList.isReset_populateFlags hnone
        · intro hinfo _ _
          simp only [hl, hl']
          exact ⟨TargetList.sound_populateFlags hinfo l, TargetList.sound_populateFlags hinfo l'⟩

/-- What is left has the same registers above to tell. -/
theorem Finished.uppers (h : Finished info m m') : m'.uppers = m.uppers := by
  rcases h.cases with ⟨-, rfl⟩ | ⟨-, -, moved, htargets, hdeferred, -⟩
  · rfl
  · unfold MSHR.uppers
    rw [htargets, hdeferred, List.append_assoc]

/-- What a response does to a register. -/
structure Response (info : CmdInfo) (resp : Packet) (blk : BlockInfo) (held : Bool) (m m' : MSHR)
    (ready : List Target) : Prop where
  shaped : Shaped (holds ready) false m'
  perm : (ready.map key ++ m'.waiting (holds ready)).Perm (m.waiting held)
  pairwise : ∀ before : List (ℕ × Bool), (before ++ m.waiting held).Pairwise Before →
    (before ++ (ready.map key ++ m'.waiting (holds ready))).Pairwise Before
  served : ∀ t ∈ ready, (∃ u ∈ m.targets.list, look u = look t) ∨
    ∃ u ∈ m.deferredTargets.list, look u = look t ∧
      (blk.writable = false → info.needsWritable t.pkt.cmd = false)
  left : m'.inService = false → ∀ t ∈ m'.targets.list,
  (∃ u ∈ m.deferredTargets.list, look u = look t) ∨
    resp.cmd = .readRespWithInvalidate ∧ t.demand = true ∧ ∃ u ∈ m.targets.list, look u = look t
  deferred : ∀ t ∈ m'.deferredTargets.list, t ∈ m.deferredTargets.list
  serves : m.live held ≠ [] → ready ≠ []
  stranded : m'.inService = true → holds ready = false → resp.cmd = .readRespWithInvalidate ∧
    ∃ t : Target, t.pkt.cmd = .lockedRMWReadReq ∧ t.demand = true ∧
      ((∃ u ∈ m.targets.list, look u = look t) ∨
        (blk.writable = false → info.needsWritable t.pkt.cmd = false))
  sound : info.Documented → m.deferredTargets.Sound info →
    m'.targets.Sound info ∧ m'.deferredTargets.Sound info

theorem mem_of_look {ts us : List Target} (h : ts.map look = us.map look)
    {t : Target} (ht : t ∈ ts) :
    ∃ u ∈ us, look u = look t := by
  have hin : look t ∈ us.map look := h ▸ List.mem_map_of_mem ht
  obtain ⟨u, hu, heq⟩ := List.mem_map.1 hin
  exact ⟨u, hu, heq⟩

theorem tail_of_look {ts us : List Target} (h : ts.map look = us.map look) :
    ts.tail.map look = us.tail.map look := by
  rw [List.map_tail, List.map_tail, h]

/-- Targets that look alike are alike for the register. -/
theorem same_of_look {t u : Target} (h : look u = look t) :
    u.demand = t.demand ∧ u.source = t.source ∧ u.pkt.cmd = t.pkt.cmd ∧ u.order = t.order := by
  simp only [look, Prod.mk.injEq] at h
  exact ⟨by rw [Target.demand, Target.demand, h.2.1], h.2.1, h.2.2, h.1⟩

theorem demand_of_fromCPU {t : Target} (h : t.source = .fromCPU) : t.demand = true := by
  simp [Target.demand, h]

theorem mem_unmark {ts : List Target} {t : Target} (h : t ∈ unmark ts) :
    ∃ u ∈ ts, look u = look t ∧ u.source = t.source ∧ u.pkt = t.pkt := by
  obtain ⟨u, hu, rfl⟩ := List.mem_map.1 h
  exact ⟨u, hu, rfl, rfl, rfl⟩

theorem mem_tail_append {α : Type*} {as bs : List α} {a : α} (h : a ∈ (as ++ bs).tail) :
    a ∈ as.tail ∨ a ∈ bs := by
  cases as with
  | nil => exact Or.inr (List.mem_of_mem_tail h)
  | cons b as => exact List.mem_append.1 h

/-- Part of a list is put in another order. -/
theorem pairwise_replace {α : Type*} {R : α → α → Prop} {xs as bs ys : List α}
    (h : (xs ++ (as ++ ys)).Pairwise R) (hbs : bs.Pairwise R) (hmem : ∀ b ∈ bs, b ∈ as) :
    (xs ++ (bs ++ ys)).Pairwise R := by
  rw [List.pairwise_append, List.pairwise_append] at h ⊢
  obtain ⟨hxs, ⟨-, hys, hcross⟩, hbefore⟩ := h
  refine ⟨hxs, ⟨hbs, hys, fun b hb => hcross b (hmem b hb)⟩, fun x hx b hb => hbefore x hx b ?_⟩
  rcases List.mem_append.1 hb with hb | hb
  · exact List.mem_append_left _ (hmem b hb)
  · exact List.mem_append_right _ hb

/-- What a response takes of a register: the targets that were promoted are appended, a locked read
that was served is popped. -/
theorem popLocked_spec {m₁ : MSHR} {moved : List Target} {resp : Packet}
    (h : Shaped held outstanding m)
    (hp : Promoted info m m₁ moved) (hsame : m.hasLockedRMWReadTarget = true → m₁ = m)
    (hresp : outstanding = true ∧ resp.cmd ≠ .lockedRMWWriteResp ∨
      held = true ∧ resp.cmd = .lockedRMWWriteResp) :
    popLocked resp m₁ =
        some { m₁ with targets := { m₁.targets with list := m.live held ++ unmark moved } } ∧
      m.targets.list ≠ [] ∧ (resp.cmd = .readRespWithInvalidate → held = false) := by
  have hservice : m.inService = true := by
    rcases hresp with ⟨h', -⟩ | ⟨h', -⟩
    · exact (h.of_outstanding h').1
    · exact (h.of_held h').1
  have hne : m.targets.list ≠ [] := by
    intro hnil
    rw [(h.free hnil).2] at hservice
    cases hservice
  have hhas : m₁.hasTargets = true := by
    unfold MSHR.hasTargets
    rw [hp.targets]
    cases hlist : m.targets.list with
    | nil => exact absurd hlist hne
    | cons t ts => rfl
  unfold popLocked
  rcases hresp with ⟨hsent, hcmd⟩ | ⟨hheld, hcmd⟩
  · have hheld := (h.of_outstanding hsent).2
    refine ⟨?_, hne, fun _ => hheld⟩
    rw [if_neg (by simp [hhas]), if_neg hcmd, hheld]
    have hlist : m.live false ++ unmark moved = m₁.targets.list := hp.targets.symm
    rw [hlist]
  · have hlocked := (h.of_held hheld).2
    obtain rfl := hsame hlocked
    have hmoved : unmark moved = [] := List.self_eq_append_right.1 hp.targets
    refine ⟨?_, hne, fun hcmd' => ?_⟩
    · rw [if_neg (by simp [hhas]), if_pos hcmd, if_pos hlocked, hheld, hmoved]
      unfold MSHR.popTarget live
      rw [List.append_nil, Bool.toNat_true, List.drop_one]
    · rw [hcmd] at hcmd'
      cases hcmd'

/-- The targets that a response finds. -/
theorem live_spec {moved deferred : List Target} (h : Shaped held outstanding m)
    (hdeferred : m.deferredTargets.list = moved ++ deferred) (hne : m.targets.list ≠ []) :
    (held = false → ∀ t ∈ (m.live held ++ unmark moved).head?, t.demand = true) ∧
      (∀ t ∈ (m.live held ++ unmark moved).tail, t.source ≠ .fromPrefetcher) ∧
      (∀ t ∈ m.live held ++ unmark moved, t.pkt.cmd = .lockedRMWReadReq → t.demand = true) ∧
      ∀ t ∈ m.live held ++ unmark moved, t ∈ m.targets.list ∨
        ∃ u ∈ moved, look u = look t ∧ u.pkt = t.pkt := by
  have hmoved : ∀ t ∈ unmark moved, t.source = .fromCPU := by
    intro t ht
    obtain ⟨u, hu, -, hsource, -⟩ := mem_unmark ht
    rw [← hsource]
    exact h.deferred u (hdeferred ▸ List.mem_append_left _ hu)
  refine ⟨?_, ?_, ?_, ?_⟩
  · rintro rfl t ht
    cases hlist : m.targets.list with
    | nil => exact absurd hlist hne
    | cons u us =>
        unfold live at ht
        rw [hlist] at ht
        exact h.head t (hlist ▸ ht)
  · intro t ht
    rcases mem_tail_append ht with ht | ht
    · refine h.tail t ?_
      unfold live at ht
      cases held with
      | false => exact ht
      | true =>
          rw [Bool.toNat_true, List.drop_one] at ht
          exact List.mem_of_mem_tail ht
    · rw [hmoved t ht]
      exact Source.noConfusion
  · intro t ht hcmd
    rcases List.mem_append.1 ht with ht | ht
    · exact h.locked t (List.mem_of_mem_drop ht) hcmd
    · exact demand_of_fromCPU (hmoved t ht)
  · intro t ht
    rcases List.mem_append.1 ht with ht | ht
    · exact Or.inl (List.mem_of_mem_drop ht)
    · obtain ⟨u, hu, hlook, -, hpkt⟩ := mem_unmark ht
      exact Or.inr ⟨u, hu, hlook, hpkt⟩

/-- What is left after a response keeps its shape. -/
theorem shaped_finish {m₂ m₃ m₄ : MSHR} {resp : Packet} {stay ready : List Target}
    (hsplit : Split resp m₂.targets.list ready stay) (hserved : Served info m₂ m₃ stay)
    (hfinished : Finished info m₃ m₄) (hservice : m₂.inService = true)
    (htail : ∀ t ∈ m₂.targets.list.tail, t.source ≠ .fromPrefetcher)
    (hlocked : ∀ t ∈ m₂.targets.list, t.pkt.cmd = .lockedRMWReadReq → t.demand = true)
    (hdeferred : ∀ t ∈ m₂.deferredTargets.list, t.source = .fromCPU)
    (hreset : m₂.deferredTargets.list = [] → m₂.deferredTargets.isReset = true) :
    Shaped (holds ready) false m₄ := by
  have hlocked₃ : ∀ t ∈ m₃.targets.list, t.pkt.cmd = .lockedRMWReadReq → t.demand = true := by
    intro t ht hcmd
    obtain ⟨u, hu, hlook⟩ := mem_of_look hserved.look ht
    obtain ⟨hdemand, -, hcmd', -⟩ := same_of_look hlook
    rw [← hdemand]
    exact hlocked u (hsplit.stays.mem hu) (hcmd'.trans hcmd)
  have htail₃ : ∀ t ∈ m₃.targets.list.tail, t.source ≠ .fromPrefetcher := by
    intro t ht
    obtain ⟨u, hu, hlook⟩ := mem_of_look (tail_of_look hserved.look) ht
    rw [← (same_of_look hlook).2.1]
    exact htail u (hsplit.tail u hu)
  rw [← hserved.deferred] at hdeferred hreset
  rcases hfinished.cases with ⟨hfirst, rfl⟩ | ⟨hfirst, hidle, moved, htargets, hrest, hfree⟩
  · -- a locked read is first: nothing is promoted
    obtain ⟨b, post, hlist, hb⟩ := hasLocked_iff.1 hfirst
    refine ⟨?_, htail₃, ?_, hlocked₃, hdeferred, ?_, hreset, ?_, ?_, fun _ => Or.inr hfirst⟩
    · intro t ht
      rw [hlist, List.head?_cons, Option.mem_some_iff] at ht
      subst ht
      exact hlocked₃ _ (hlist ▸ List.mem_cons_self) hb
    · intro hidle
      rw [hserved.same.1, hservice] at hidle
      cases hidle
    · intro hnil
      rw [hlist] at hnil
      cases hnil
    · exact fun _ => ⟨hserved.same.1.trans hservice, hfirst⟩
    · exact fun h => Bool.noConfusion h
  · have hholds := hsplit.not_holds hserved hfirst
    have hall : ∀ t ∈ m₄.targets.list, t.demand = true := by
      intro t ht
      rw [htargets] at ht
      rcases List.mem_append.1 ht with ht | ht
      · obtain ⟨u, hu, hlook⟩ := mem_of_look hserved.look ht
        rw [← (same_of_look hlook).1]
        rcases hsplit.left hholds with rfl | ⟨-, hstay⟩
        · cases hu
        · exact (hstay u hu).1
      · exact demand_of_fromCPU (hdeferred t (hrest ▸ List.mem_append_left _ ht))
    refine ⟨fun t ht => hall t (List.mem_of_mem_head? ht), ?_, fun _ => hall,
      fun t ht _ => hall t ht, ?_, fun hnil => ⟨hfree hnil, hidle⟩, hfinished.reset hreset, ?_, ?_,
      fun hin => ?_⟩
    · intro t ht
      rw [htargets] at ht
      rcases mem_tail_append ht with ht | ht
      · exact htail₃ t ht
      · rw [hdeferred t (hrest ▸ List.mem_append_left _ ht)]
        exact Source.noConfusion
    · intro t ht
      exact hdeferred t (hrest ▸ List.mem_append_right _ ht)
    · intro h
      rw [hholds] at h
      cases h
    · exact fun h => Bool.noConfusion h
    · rw [hidle] at hin
      cases hin

/-- The keys of what is left. -/
theorem waiting_finish {m₂ m₃ m₄ : MSHR} {resp : Packet} {stay ready : List Target}
    (hsplit : Split resp m₂.targets.list ready stay) (hserved : Served info m₂ m₃ stay)
    (hfinished : Finished info m₃ m₄) :
    m₄.waiting (holds ready) =
      (stay.drop (holds ready).toNat).map key ++ m₂.deferredTargets.list.map key := by
  unfold waiting live
  rcases hfinished.cases with ⟨-, rfl⟩ | ⟨hfirst, -, moved, htargets, hrest, -⟩
  · rw [List.map_append, List.map_drop, key_of_look hserved.look, ← List.map_drop, hserved.deferred]
  · have hholds := hsplit.not_holds hserved hfirst
    rw [hholds, Bool.toNat_false, List.drop_zero, List.drop_zero, htargets,
      List.append_assoc, ← hrest, List.map_append, key_of_look hserved.look, hserved.deferred]

/-- **One response**: it fails in a clash, and serves targets otherwise. -/
theorem receiveResp_spec (info : CmdInfo) (now : ℕ) {resp : Packet} (blk : BlockInfo)
    {above : Above}
    (h : Shaped held outstanding m) (hlinked : Linked above m)
    (hpending : m.downstreamPending = false)
    (hresp : outstanding = true ∧ resp.cmd ≠ .lockedRMWWriteResp ∨
      held = true ∧ resp.cmd = .lockedRMWWriteResp) :
    (m.ClashAt info resp blk above ∧ m.receiveResp info now resp blk above = none) ∨
      ¬m.ClashAt info resp blk above ∧ ∃ ready m' above',
        m.receiveResp info now resp blk above = some (ready, m', above') ∧
        Response info resp blk held m m' ready ∧ Relinked above m above' m' := by
  have hservice₀ : m.inService = true := by
    rcases hresp with ⟨h', -⟩ | ⟨h', -⟩
    · exact (h.of_outstanding h').1
    · exact (h.of_held h').1
  rcases promote_spec info resp blk hlinked hservice₀ hpending h.deferred with
    ⟨hclash, hnone⟩ | ⟨hclash, m₁, above₁, moved, hm₁, hp, hrelinked, hsame, hwritable⟩
  · refine Or.inl ⟨hclash, ?_⟩
    unfold MSHR.receiveResp
    rw [hnone]
    rfl
  · obtain ⟨hpop, hne, hinvalid⟩ := popLocked_spec h hp hsame hresp
    obtain ⟨hhead, htail, hlocked, hlive⟩ := live_spec h hp.deferred hne
    have hservice : m₁.inService = true := hp.same.1.trans hservice₀
    have hdeferred : ∀ t ∈ m₁.deferredTargets.list, t ∈ m.deferredTargets.list := fun t ht =>
      hp.deferred ▸ List.mem_append_right _ ht
    have hmoved : ∀ t ∈ moved, t ∈ m.deferredTargets.list := fun t ht =>
      hp.deferred ▸ List.mem_append_left _ ht
    have hreset : m₁.deferredTargets.list = [] → m₁.deferredTargets.isReset = true := by
      intro hnil
      rcases hp.flags with heq | ⟨l, hl⟩
      · rw [heq] at hnil ⊢
        exact h.reset hnil
      · rw [hl] at hnil ⊢
        rw [TargetList.populateFlags_list] at hnil
        exact TargetList.isReset_populateFlags hnil
    obtain ⟨ready, stay, m₃, hm₃, hsplit, hserved⟩ := service_spec info
      (m := { m₁ with targets := { m₁.targets with list := m.live held ++ unmark moved } }) resp blk
      hservice (fun hcmd => hhead (hinvalid hcmd)) htail hlocked
      (fun hcmd hnil => hne (by
        have hnil := (List.append_eq_nil_iff.1 hnil).1
        rw [hinvalid hcmd] at hnil
        exact hnil))
    obtain ⟨m₄, hm₄, hfinished⟩ := finish_spec info (m := m₃) now (by
      rw [hserved.deferred]
      exact hreset)
    have hwaiting := waiting_finish hsplit hserved hfinished
    have hwaiting₀ : m.waiting held =
        (m.live held ++ unmark moved).map key ++ m₁.deferredTargets.list.map key := by
      unfold waiting
      rw [hp.deferred, List.map_append, List.map_append, List.map_append,
        key_of_look (look_unmark moved), List.append_assoc]
    have hleft : m₄.uppers.Sublist m₁.uppers := by
      rw [hfinished.uppers]
      unfold MSHR.uppers
      rw [hserved.deferred, hp.targets, uppers_append, uppers_append]
      refine List.Sublist.append (hserved.uppers.trans ?_) (List.Sublist.refl _)
      refine (hsplit.stays.filterMap _).trans ?_
      exact ((List.drop_sublist _ _).append_right _).filterMap _
    refine Or.inr ⟨hclash, ready, m₄, above₁, ?_, ⟨?_, ?_, ?_, ?_, ?_, ?_, ?_, ?_, ?_⟩,
      hrelinked.trans (hrelinked.linked.relinked hleft)⟩
    · unfold MSHR.receiveResp
      rw [hm₁, Option.bind_some, hpop, Option.bind_some, hm₃, Option.bind_some, hm₄]
      rfl
    · exact shaped_finish hsplit hserved hfinished hservice htail hlocked
        (fun t ht => h.deferred t (hdeferred t ht)) hreset
    · rw [hwaiting, hwaiting₀, ← List.append_assoc, ← List.map_append]
      exact (hsplit.perm.map key).append_right _
    · intro before hbefore
      rw [hwaiting₀] at hbefore
      rw [hwaiting, ← List.append_assoc (ready.map key), ← List.map_append]
      refine pairwise_replace hbefore (hsplit.pairwise ?_) ?_
      · exact (List.pairwise_append.1 (List.pairwise_append.1 hbefore).2.1).1
      · intro k hk
        exact (hsplit.perm.map key).mem_iff.1 hk
    · intro t ht
      rcases hlive t (hsplit.perm.mem_iff.1 (List.mem_append_left _ ht)) with
        ht | ⟨u, hu, hlook, hpkt⟩
      · exact Or.inl ⟨t, ht, rfl⟩
      · exact Or.inr ⟨u, hmoved u hu, hlook, fun hblk => hpkt ▸ hwritable hblk u hu⟩
    · intro hidle t ht
      rcases hfinished.cases with ⟨-, rfl⟩ | ⟨hfirst, -, moved', htargets, hrest, -⟩
      · rw [hserved.same.1] at hidle
        rw [show m₁.inService = false from hidle] at hservice
        cases hservice
      · rw [htargets] at ht
        rcases List.mem_append.1 ht with ht | ht
        · obtain ⟨v, hv, hlook⟩ := mem_of_look hserved.look ht
          have hholds := hsplit.not_holds hserved hfirst
          rcases hsplit.left hholds with rfl | ⟨hcmd, hstay⟩
          · cases hv
          · rcases hlive v (hsplit.stays.mem hv) with hv' | ⟨u, hu, hlook', -⟩
            · exact Or.inr ⟨hcmd, (same_of_look hlook).1 ▸ (hstay v hv).1, v, hv', hlook⟩
            · exact Or.inl ⟨u, hmoved u hu, hlook'.trans hlook⟩
        · refine Or.inl ⟨t, hdeferred t ?_, rfl⟩
          have hrest' : m₁.deferredTargets.list = moved' ++ m₄.deferredTargets.list := by
            rw [← hrest, hserved.deferred]
          exact hrest' ▸ List.mem_append_left _ ht
    · intro t ht
      refine hdeferred t ?_
      rcases hfinished.cases with ⟨-, rfl⟩ | ⟨-, -, moved', -, hrest, -⟩
      · rw [hserved.deferred] at ht
        exact ht
      · have hrest' : m₁.deferredTargets.list = moved' ++ m₄.deferredTargets.list := by
          rw [← hrest, hserved.deferred]
        exact hrest' ▸ List.mem_append_right _ ht
    · exact fun hnonempty => hsplit.serves fun hnil => hnonempty (List.append_eq_nil_iff.1 hnil).1
    · intro hservice' hholds
      rcases hfinished.cases with ⟨hfirst, rfl⟩ | ⟨-, hidle, -⟩
      · -- a locked read is first that was not served
        obtain ⟨b, post, hlist, hb⟩ := hasLocked_iff.1 hfirst
        have hin : b ∈ m₄.targets.list := hlist ▸ List.mem_cons_self
        obtain ⟨v, hv, hlook⟩ := mem_of_look hserved.look hin
        obtain ⟨-, -, hcmd', -⟩ := same_of_look hlook
        rcases hsplit.left hholds with rfl | ⟨hcmd, hstay⟩
        · cases hv
        · refine ⟨hcmd, v, hcmd'.trans hb, (hstay v hv).1, ?_⟩
          rcases hlive v (hsplit.stays.mem hv) with hv' | ⟨u, hu, -, hpkt⟩
          · exact Or.inl ⟨v, hv', rfl⟩
          · exact Or.inr fun hblk => hpkt ▸ hwritable hblk u hu
      · rw [hidle] at hservice'
        cases hservice'
    · intro hinfo hsound
      refine hfinished.sound hinfo (hserved.sound hinfo) ?_
      rw [hserved.deferred]
      rcases hp.flags with heq | ⟨l, hl⟩
      · exact heq ▸ hsound
      · exact hl ▸ TargetList.sound_populateFlags hinfo l

end Response

end MSHR

end OpenCache
