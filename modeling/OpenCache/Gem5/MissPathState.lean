/-
**What the miss path keeps.**

The two queues of `Gem5/MissPath.lean` stay consistent, every register goes through a run of its own
as in `Gem5/MshrRuns.lean`, no two registers are for one cacheable block or have to tell one
register above, and the cache is blocked exactly while something is used up.

Main definitions:

* `OpenCache.MissPath.Writes` — what holds of the write buffer;
* `OpenCache.MissPath.Single` — no two registers are for the same cacheable block;
* `OpenCache.MissPath.Apart` — no register above waits for two registers;
* `OpenCache.MissPath.Tracked` — every register has gone through a run of its own;
* `OpenCache.MissPath.Blocking` — the register for which the cache is blocked is in use;
* `OpenCache.MissPath.Safe` — all of it, `OpenCache.MissPath.Used` — a register did something.

Main results:

* `OpenCache.MissPath.Writes.allocate`, `OpenCache.MissPath.Writes.markInService` — a
  write comes and goes;
* `OpenCache.MissPath.Single.add`, `OpenCache.MissPath.Single.update`,
  `OpenCache.MissPath.Single.free` — a register comes, changes and goes;
* `OpenCache.MissPath.Tracked.replay` — operations of one register, while the counter and the flags
  of the registers above change for all;
* `OpenCache.MissPath.Safe.use` — what an operation of a register has to keep.
-/

import OpenCache.Gem5.MissPath
import OpenCache.Gem5.MshrRuns

set_option relaxedAutoImplicit false
set_option autoImplicit false

namespace OpenCache

/-! ### The block of a register -/

/-- What a request has to match to join an entry. -/
def QueueEntry.block (e : QueueEntry) : BitVec 64 × Bool × Bool :=
  (e.blkAddr, e.isSecure, e.isUncacheable)

namespace MSHR

variable {info : CmdInfo} {m m' : MSHR} {above above' : Above}

/-- The block of a register, and whether it was sent. -/
def place (m : MSHR) : (BitVec 64 × Bool × Bool) × Bool := (m.block, m.inService)

theorem place_promoteIf {pred : Target → Bool}
    (h : m.promoteIf info pred above = some (m', above')) : m'.place = m.place := by
  unfold promoteIf at h
  simp only [Option.ite_none_left_eq_some] at h
  obtain ⟨_, -, heq⟩ := Option.map_eq_some_iff.1 h.2
  obtain ⟨rfl, -⟩ := Prod.mk.inj heq
  rfl

theorem place_promoteReadable (h : m.promoteReadable info above = some (m', above')) :
    m'.place = m.place := by
  unfold promoteReadable at h
  split at h
  · cases h
    rfl
  · obtain ⟨_, -, h⟩ := Option.bind_eq_some_iff.1 h
    split at h
    · cases h
      rfl
    · exact place_promoteIf h

theorem place_promoteWritable (h : m.promoteWritable info above = some (m', above')) :
    m'.place = m.place := by
  unfold promoteWritable at h
  split at h
  · cases h
    rfl
  · split at h
    · cases h
      rfl
    · obtain ⟨_, -, h⟩ := Option.bind_eq_some_iff.1 h
      split at h
      · cases h
        rfl
      · obtain ⟨_, -, h⟩ := Option.bind_eq_some_iff.1 h
        split at h
        · cases h
          rfl
        · rw [Option.ite_none_left_eq_some] at h
          exact (place_promoteIf h.2).trans rfl

theorem place_promote {resp : Packet} {blk : BlockInfo}
    (h : m.promote info resp blk above = some (m', above')) : m'.place = m.place := by
  unfold promote at h
  split at h
  · cases h
    rfl
  · obtain ⟨⟨m₁, above₁⟩, hm₁, hm'⟩ := Option.bind_eq_some_iff.1 h
    have hfirst : m₁.place = m.place := by
      unfold promoteClean at hm₁
      split at hm₁
      · exact place_promoteReadable hm₁
      · cases hm₁
        rfl
    split at hm'
    · exact (place_promoteWritable hm').trans hfirst
    · cases hm'
      exact hfirst

theorem place_popLocked {resp : Packet} (h : m.popLocked resp = some m') : m'.place = m.place := by
  unfold popLocked at h
  rw [Option.ite_none_left_eq_some] at h
  obtain ⟨-, h⟩ := h
  split at h
  · rw [Option.ite_none_right_eq_some] at h
    obtain rfl := Option.some.inj h.2
    rfl
  · obtain rfl := Option.some.inj h
    rfl

theorem place_serveTarget {blk : BlockInfo} {t : Target} (h : m.serveTarget info blk t = some m') :
    m'.place = m.place := by
  unfold serveTarget at h
  split at h
  · split at h
    · cases h
      rfl
    · obtain ⟨_, -, h⟩ := Option.bind_eq_some_iff.1 h
      split at h
      · unfold updateLockedRMWReadTarget at h
        split at h
        · cases h
        · rw [Option.ite_none_right_eq_some] at h
          obtain rfl := Option.some.inj h.2
          rfl
      · cases h
        rfl
  · cases h
    rfl
  · obtain ⟨_, -, rfl⟩ := Option.map_eq_some_iff.1 h
    rfl

theorem place_foldlM_serveTarget {blk : BlockInfo} {ts : List Target}
    (h : ts.foldlM (serveTarget info blk) m = some m') : m'.place = m.place := by
  induction ts generalizing m with
  | nil =>
      obtain rfl := Option.some.inj h
      rfl
  | cons t ts ih =>
      rw [List.foldlM_cons] at h
      obtain ⟨m₁, hm₁, h⟩ := Option.bind_eq_some_iff.1 h
      exact (ih h).trans (place_serveTarget hm₁)

theorem place_service {resp : Packet} {blk : BlockInfo} {ready : List Target}
    (h : m.service info resp blk = some (ready, m')) : m'.place = m.place := by
  unfold service extractServiceableTargets at h
  obtain ⟨⟨l, m₁⟩, hm₁, h⟩ := Option.bind_eq_some_iff.1 h
  obtain ⟨_, -, heq⟩ := Option.map_eq_some_iff.1 hm₁
  obtain ⟨-, rfl⟩ := Prod.mk.inj heq
  obtain ⟨_, hserve, heq⟩ := Option.map_eq_some_iff.1 h
  obtain ⟨-, rfl⟩ := Prod.mk.inj heq
  exact (place_foldlM_serveTarget hserve).trans rfl

theorem place_promoteDeferredTargets (now : ℕ) :
    (m.promoteDeferredTargets info now).2.place = m.place := by
  unfold promoteDeferredTargets
  split <;> rfl

theorem block_allocate {now whenReady order blkSize : ℕ} {blkAddr : BitVec 64} {pkt : Packet}
    {allocOnFill : Bool}
    (h : m.allocate info now blkAddr blkSize pkt whenReady order allocOnFill above =
      some (m', above')) :
    m'.block = (blkAddr, pkt.secure, pkt.uncacheable) := by
  unfold allocate at h
  obtain ⟨_, -, h⟩ := Option.bind_eq_some_iff.1 h
  dsimp only at h
  rw [Option.ite_none_right_eq_some] at h
  obtain ⟨rfl, -⟩ := Prod.mk.inj (Option.some.inj h.2)
  rfl

theorem place_allocateTarget {now whenReady order : ℕ} {pkt : Packet} {allocOnFill : Bool}
    (h : m.allocateTarget info now pkt whenReady order allocOnFill above = some (m', above')) :
    m'.place = m.place := by
  unfold allocateTarget at h
  rw [Option.ite_none_left_eq_some] at h
  obtain ⟨front, -, h⟩ := Option.bind_eq_some_iff.1 h.2
  split at h
  · obtain ⟨_, -, heq⟩ := Option.map_eq_some_iff.1 h
    obtain ⟨rfl, -⟩ := Prod.mk.inj heq
    rfl
  · obtain ⟨_, -, heq⟩ := Option.map_eq_some_iff.1 h
    obtain ⟨rfl, -⟩ := Prod.mk.inj heq
    rfl

theorem place_snoopInService {now order : ℕ} {pkt : Packet} {r : SnoopReply}
    (h : m.snoopInService info now pkt order above = some (r, m', above')) :
    m'.place = m.place := by
  unfold snoopInService at h
  obtain ⟨_, -, heq⟩ := Option.map_eq_some_iff.1 h
  obtain ⟨-, heq⟩ := Prod.mk.inj heq
  obtain ⟨rfl, -⟩ := Prod.mk.inj heq
  rfl

theorem place_handleSnoop {now order : ℕ} {pkt : Packet} {r : SnoopReply}
    (h : m.handleSnoop info now pkt order above = some (r, m', above')) : m'.place = m.place := by
  unfold handleSnoop at h
  rw [Option.ite_none_left_eq_some] at h
  obtain ⟨-, h⟩ := h
  split at h
  · obtain ⟨-, heq⟩ := Prod.mk.inj (Option.some.inj h)
    obtain ⟨rfl, -⟩ := Prod.mk.inj heq
    split <;> rfl
  · have hfirst : (if takesBlock info pkt then
        { m with deferredTargets := m.deferredTargets.replaceUpgrades } else m).place =
          m.place := by
      split <;> rfl
    dsimp only at h
    generalize (if takesBlock info pkt then
      { m with deferredTargets := m.deferredTargets.replaceUpgrades } else m) = m₁ at h hfirst
    obtain ⟨front, -, h⟩ := Option.bind_eq_some_iff.1 h
    split at h
    · obtain ⟨-, heq⟩ := Prod.mk.inj (Option.some.inj h)
      obtain ⟨rfl, -⟩ := Prod.mk.inj heq
      exact hfirst
    · exact (place_snoopInService h).trans hfirst

/-- The parts of a response. -/
theorem receiveResp_eq_some {now : ℕ} {resp : Packet} {blk : BlockInfo} {ready : List Target}
    (h : m.receiveResp info now resp blk above = some (ready, m', above')) : ∃ m₁ m₂ m₃,
      m.promote info resp blk above = some (m₁, above') ∧ m₁.popLocked resp = some m₂ ∧
      m₂.service info resp blk = some (ready, m₃) ∧ m₃.finish info now = some m' := by
  obtain ⟨⟨m₁, above₁⟩, hm₁, h⟩ := Option.bind_eq_some_iff.1 h
  obtain ⟨⟨ready₃, m₃⟩, hm₃, h⟩ := Option.bind_eq_some_iff.1 h
  obtain ⟨m₂, hm₂, hm₃⟩ := Option.bind_eq_some_iff.1 hm₃
  obtain ⟨m₄, hfinish, heq⟩ := Option.map_eq_some_iff.1 h
  cases heq
  exact ⟨m₁, m₂, m₃, hm₁, hm₂, hm₃, hfinish⟩

theorem block_markInService {b : Bool} (h : m.markInService b above = some (m', above')) :
    m'.block = m.block := by
  unfold markInService at h
  rw [Option.ite_none_left_eq_some] at h
  obtain ⟨-, h⟩ := h
  dsimp only at h
  split at h
  · cases h
    rfl
  · obtain ⟨_, -, heq⟩ := Option.map_eq_some_iff.1 h
    obtain ⟨rfl, -⟩ := Prod.mk.inj heq
    rfl

end MSHR

namespace MissPath

open QueueItem EntryQueue

variable {info : CmdInfo} {p : CacheParams}

/-! ### The write buffer -/

section Writes

variable {q q' : EntryQueue WriteQueueEntry} {order : ℕ} {i : ℕ}

/-- What holds of the write buffer. -/
structure Writes (info : CmdInfo) (q : EntryQueue WriteQueueEntry) (order : ℕ) : Prop where
  consistent : q.Consistent
  single : ∀ i ∈ q.allocatedList, ∃ t, (q.entries i).targets = [t] ∧
    WriteQueueEntry.takes info t.pkt = true ∧ t.pkt.uncacheable = (q.item i).isUncacheable
  idle : ∀ i ∈ q.allocatedList, (q.item i).inService = false
  bounded : ∀ i ∈ q.allocatedList, (q.item i).order < order
  sorted : q.Sorted

theorem Writes.mono (h : Writes info q order) {order' : ℕ} (hle : order ≤ order') :
    Writes info q order' :=
  ⟨h.consistent, h.single, h.idle, fun i hi => lt_of_lt_of_le (h.bounded i hi) hle, h.sorted⟩

/-- Every write that was not sent is ready to be sent some time. -/
theorem Writes.mem_ready (h : Writes info q order) : i ∈ q.readyList ↔ i ∈ q.allocatedList := by
  rw [h.consistent.mem_ready]
  exact ⟨fun hi => hi.1, fun hi => ⟨hi, h.idle i hi⟩⟩

/-- What a write that comes changes. -/
structure Taken (info : CmdInfo) (p : CacheParams) (pkt : Packet) (time order : ℕ)
    (q q' : EntryQueue WriteQueueEntry) (i : ℕ) (e : WriteQueueEntry) : Prop where
  entry : e.order = order ∧ e.readyTime = time ∧ e.blkAddr = pkt.blockAddr p.blkSize ∧
    e.isSecure = pkt.secure
  entries : q'.entries = Function.update q.entries i e
  fresh : i ∉ q.allocatedList
  allocated : q'.allocatedList = q.allocatedList ++ [i]
  ready : ∃ front back, q.readyList = front ++ back ∧ q'.readyList = front ++ i :: back ∧
    (∀ j ∈ front.getLast?, (q.item j).readyTime ≤ e.readyTime) ∧
    ∀ j ∈ back.head?, e.readyTime < (q.item j).readyTime
  counts : q'.allocated = q.allocated + 1 ∧ q'.numEntries = q.numEntries ∧
    q'.numReserve = q.numReserve ∧ q'.freeList.length + 1 = q.freeList.length

/-- What waits after a write came. -/
theorem Taken.mem {pkt : Packet} {time : ℕ} {e : WriteQueueEntry}
    (h : Taken info p pkt time order q q' i e) {j : ℕ} (hj : j ∈ q'.readyList) :
    (j ∈ q.readyList ∧ q'.item j = q.item j) ∨
      j = i ∧ q'.item j = e.toQueueEntry := by
  obtain ⟨front, back, hlist, hlist', -, -⟩ := h.ready
  rw [hlist', List.mem_append, List.mem_cons] at hj
  by_cases hji : j = i
  · subst hji
    exact Or.inr ⟨rfl, Consistent.item_same h.entries⟩
  · refine Or.inl ⟨?_, Consistent.item_ne h.entries hji⟩
    rw [hlist, List.mem_append]
    exact hj.imp_right fun hj => hj.resolve_left hji

/-- The writes for a block stay in order if the one that comes is ready last. -/
theorem Taken.fifo {pkt : Packet} {time : ℕ} {e : WriteQueueEntry}
    (h : Taken info p pkt time order q q' i e) (hwrites : Writes info q order) (hfifo : q.Fifo)
    (htime : ∀ j ∈ q.readyList, matches' (q.item j) (pkt.blockAddr p.blkSize) pkt.secure = true →
      (q.item j).readyTime ≤ time) : q'.Fifo := by
  obtain ⟨front, back, hlist, hlist', hfront, hback⟩ := h.ready
  obtain ⟨horder, hready, haddr, hsecure⟩ := h.entry
  refine hfifo.add hwrites.sorted (fun hi => h.fresh (hwrites.mem_ready.1 hi)) hlist hlist'
    h.entries hfront hback ?_ ?_
  · intro j hj
    exact lt_of_lt_of_eq (hwrites.bounded j (hwrites.mem_ready.1 hj)) horder.symm
  · intro j hj hmatch
    refine le_of_le_of_eq (htime j hj ?_) hready.symm
    obtain ⟨haddr', hsecure'⟩ := matches_iff.1 hmatch
    exact matches_iff.2 ⟨haddr'.symm.trans haddr, hsecure'.symm.trans hsecure⟩

/-- A write finds a free entry. -/
theorem Writes.allocate (h : Writes info q order) (p : CacheParams) (now : ℕ) {pkt : Packet}
    (time : ℕ) (htakes : WriteQueueEntry.takes info pkt = true) (hfree : q.freeList ≠ []) :
    ∃ i e q', q.allocate (WriteQueueEntry.allocate info now (pkt.blockAddr p.blkSize) p.blkSize pkt
        time order) = some (i, q') ∧
      Taken info p pkt time order q q' i e ∧ Writes info q' (order + 1) := by
  obtain ⟨i, rest, hlist⟩ := List.exists_cons_of_ne_nil hfree
  have hmem : i ∈ q.freeList := hlist ▸ List.mem_cons_self
  have hnil : (q.entries i).targets = [] := List.length_eq_zero_iff.1
    (h.consistent.free i fun hi => h.consistent.not_mem_free hi hmem)
  let e : WriteQueueEntry := { (q.entries i) with
    blkAddr := pkt.blockAddr p.blkSize
    blkSize := p.blkSize
    isSecure := pkt.secure
    readyTime := time
    order := order
    isUncacheable := pkt.uncacheable
    inService := false
    targets := [⟨now, time, order, pkt⟩] }
  have hfill : WriteQueueEntry.allocate info now (pkt.blockAddr p.blkSize) p.blkSize pkt time order
      (q.entries i) = some e := by
    unfold WriteQueueEntry.allocate
    simp only [hnil, htakes, List.isEmpty_nil, Bool.not_true, Bool.and_false, Bool.or_false]
    simp [MSHR.sameBlock, e]
  obtain ⟨front, back, hallocate, hready, hfront, hback, hconsistent⟩ :=
    h.consistent.allocate hlist hfill rfl rfl
  let q' : EntryQueue WriteQueueEntry := { q.update i e with
    freeList := rest
    allocatedList := q.allocatedList ++ [i]
    readyList := front ++ i :: back
    allocated := q.allocated + 1 }
  have hnot : i ∉ q.allocatedList := fun hi => h.consistent.not_mem_free hi hmem
  have hsame : q'.item i = e.toQueueEntry := Consistent.item_same (q := q) rfl
  have hne : ∀ {j}, j ∈ q.allocatedList → q'.entries j = q.entries j := by
    intro j hj
    have hji : j ≠ i := fun heq => hnot (heq ▸ hj)
    exact Function.update_of_ne hji _ _
  have hitem : ∀ {j}, j ∈ q.allocatedList → q'.item j = q.item j := fun hj => congrArg _ (hne hj)
  have hnew : q'.entries i = e := Function.update_self _ _ _
  refine ⟨i, e, q', hallocate, ⟨⟨rfl, rfl, rfl, rfl⟩, rfl, hnot, rfl,
    ⟨front, back, hready, rfl, hfront, hback⟩, rfl, rfl, rfl, ?_⟩, hconsistent, ?_, ?_, ?_,
    h.sorted.add (fun hi => hnot (h.mem_ready.1 hi)) hready rfl rfl hfront hback⟩
  · rw [hlist]
    rfl
  · intro j hj
    rcases List.mem_append.1 hj with hj | hj
    · rw [hne hj, hitem hj]
      exact h.single j hj
    · rw [List.mem_singleton.1 hj, hnew, hsame]
      exact ⟨⟨now, time, order, pkt⟩, rfl, htakes, rfl⟩
  · intro j hj
    rcases List.mem_append.1 hj with hj | hj
    · rw [hitem hj]
      exact h.idle j hj
    · rw [List.mem_singleton.1 hj, hsame]
  · intro j hj
    rcases List.mem_append.1 hj with hj | hj
    · rw [hitem hj]
      exact Nat.lt_succ_of_lt (h.bounded j hj)
    · rw [List.mem_singleton.1 hj, hsame]
      exact Nat.lt_succ_self _

/-- What a write that goes changes. -/
structure Gone (q q' : EntryQueue WriteQueueEntry) (i : ℕ) : Prop where
  allocated : q'.allocatedList = q.allocatedList.erase i
  ready : q'.readyList = q.readyList.erase i
  entries : ∀ j, j ≠ i → q'.entries j = q.entries j
  counts : q'.allocated = q.allocated - 1 ∧ q'.numEntries = q.numEntries ∧
    q'.numReserve = q.numReserve

/-- What waits after a write went. -/
theorem Gone.mem (h : Gone q q' i) (hwrites : Writes info q order) {j : ℕ} (hj : j ∈ q'.readyList) :
    j ∈ q.readyList ∧ q'.item j = q.item j := by
  rw [h.ready, hwrites.consistent.nodup.mem_erase_iff] at hj
  exact ⟨hj.2, congrArg QueueItem.entry (h.entries j hj.1)⟩

/-- A relation on the writes that wait is kept when one goes. -/
theorem Gone.pairwise {R : QueueEntry → QueueEntry → Prop} (h : Gone q q' i)
    (hwrites : Writes info q order)
    (hpair : q.readyList.Pairwise fun j k => R (q.item j) (q.item k)) :
    q'.readyList.Pairwise fun j k => R (q'.item j) (q'.item k) := by
  have hsub : q'.readyList.Pairwise fun j k => R (q.item j) (q.item k) := by
    rw [h.ready]
    exact hpair.sublist List.erase_sublist
  refine hsub.imp_of_mem fun {j k} hj hk hr => ?_
  rwa [(h.mem hwrites hj).2, (h.mem hwrites hk).2]

theorem Gone.sorted (h : Gone q q' i) (hwrites : Writes info q order) : q'.Sorted :=
  h.pairwise (R := fun a b => a.readyTime ≤ b.readyTime) hwrites hwrites.sorted

theorem Gone.fifo (h : Gone q q' i) (hwrites : Writes info q order) (hfifo : q.Fifo) : q'.Fifo :=
  h.pairwise (R := fun a b => matches' a b.blkAddr b.isSecure = true → a.order < b.order)
    hwrites hfifo

/-- The writes stay where they are, but for some that leave. -/
def Stay (leaves : ℕ → Prop) (q q' : EntryQueue WriteQueueEntry) : Prop :=
  ∀ w ∈ q.allocatedList, leaves w ∨ w ∈ q'.allocatedList ∧ q'.entries w = q.entries w

theorem Stay.refl {leaves : ℕ → Prop} (q : EntryQueue WriteQueueEntry) : Stay leaves q q :=
  fun _ hw => Or.inr ⟨hw, rfl⟩

theorem Stay.trans {leaves : ℕ → Prop} {q₁ : EntryQueue WriteQueueEntry} (h : Stay leaves q q₁)
    (h' : Stay leaves q₁ q') : Stay leaves q q' := by
  intro w hw
  rcases h w hw with hleaves | ⟨hw, heq⟩
  · exact Or.inl hleaves
  · exact (h' w hw).imp id fun hstay => ⟨hstay.1, hstay.2.trans heq⟩

theorem Taken.stay {pkt : Packet} {time : ℕ} {e : WriteQueueEntry}
    (h : Taken info p pkt time order q q' i e) (leaves : ℕ → Prop) : Stay leaves q q' := by
  intro w hw
  have hwi : w ≠ i := fun heq => h.fresh (heq ▸ hw)
  refine Or.inr ⟨h.allocated ▸ List.mem_append_left _ hw, ?_⟩
  rw [h.entries]
  exact Function.update_of_ne hwi _ _

theorem Gone.stay {leaves : ℕ → Prop} (h : Gone q q' i) (hwrites : Writes info q order)
    (hi : leaves i) : Stay leaves q q' := by
  intro w hw
  by_cases hwi : w = i
  · exact Or.inl (hwi ▸ hi)
  · refine Or.inr ⟨?_, h.entries w hwi⟩
    rw [h.allocated]
    exact hwrites.consistent.nodup_allocated.mem_erase_iff.2 ⟨hwi, hw⟩

/-- A write that was sent, or that is not needed any more, goes. -/
theorem Writes.markInService (h : Writes info q order) (hi : i ∈ q.allocatedList) :
    ∃ q', WriteQueue.markInService i q = some q' ∧ Gone q q' i ∧ Writes info q' order := by
  obtain ⟨t, htargets, -, -⟩ := h.single i hi
  let e : WriteQueueEntry := (q.entries i).popTarget
  have hpop : e.targets = [] := by
    simp [e, WriteQueueEntry.popTarget, htargets]
  have hrelease : WriteQueueEntry.deallocate e = some { e with inService := false } := by
    unfold WriteQueueEntry.deallocate
    rw [hpop]
    rfl
  have hnone : QueueItem.numTargets { e with inService := false } = 0 := by
    change e.targets.length = 0
    rw [hpop]
    rfl
  let release : WriteQueueEntry → Option WriteQueueEntry := fun _ => e.deallocate
  have hrelease' : release (q.entries i) = some { e with inService := false } := hrelease
  obtain ⟨q₀, hq₀, hentries, hallocated, -, hreadyList, hentriesNum, hreserve, hcount,
      hconsistent⟩ :=
    h.consistent.deallocate hi hrelease' hnone
  have hsame : (QueueItem.entry e).inService = (q.item i).inService := rfl
  have heq : WriteQueue.markInService i q = some q₀ := by
    rw [WriteQueue.markInService, deallocate_update hsame]
    exact hq₀
  have hother : ∀ j, j ≠ i → q₀.entries j = q.entries j := by
    intro j hj
    rw [hentries]
    exact Function.update_of_ne hj _ _
  have hmem : ∀ {j}, j ∈ q₀.allocatedList → j ≠ i ∧ j ∈ q.allocatedList := by
    intro j hj
    rw [hallocated] at hj
    exact h.consistent.nodup_allocated.mem_erase_iff.1 hj
  have hgone : Gone q q₀ i := ⟨hallocated, hreadyList, hother, hcount, hentriesNum, hreserve⟩
  refine ⟨q₀, heq, hgone, hconsistent, ?_, ?_, ?_, hgone.sorted h⟩
  · intro j hj
    obtain ⟨hji, hj⟩ := hmem hj
    rw [EntryQueue.item, hother j hji]
    exact h.single j hj
  · intro j hj
    obtain ⟨hji, hj⟩ := hmem hj
    rw [EntryQueue.item, hother j hji]
    exact h.idle j hj
  · intro j hj
    obtain ⟨hji, hj⟩ := hmem hj
    rw [EntryQueue.item, hother j hji]
    exact h.bounded j hj

end Writes

/-! ### One register for a block -/

section Single

variable {q q' : EntryQueue MSHR} {i : ℕ} {m : MSHR}

/-- No two registers are for the same cacheable block. -/
def Single (q : EntryQueue MSHR) : Prop :=
  ∀ i ∈ q.allocatedList, ∀ j ∈ q.allocatedList, (q.entries i).block = (q.entries j).block →
    (q.entries i).isUncacheable = false → i = j

/-- There is no register yet that a packet could join. -/
def New (p : CacheParams) (pkt : Packet) (q : EntryQueue MSHR) : Prop :=
  pkt.uncacheable = true ∨ q.findMatch (pkt.blockAddr p.blkSize) pkt.secure true = some none

theorem Single.keep (h : Single q) (hlist : ∀ j ∈ q'.allocatedList, j ∈ q.allocatedList)
    (hblock : ∀ j ∈ q'.allocatedList, (q'.entries j).block = (q.entries j).block) : Single q' := by
  intro j hj k hk heq hcacheable
  rw [hblock j hj, hblock k hk] at heq
  have hsame : (q'.entries j).isUncacheable = (q.entries j).isUncacheable :=
    congrArg (fun b => b.2.2) (hblock j hj)
  exact h j (hlist j hj) k (hlist k hk) heq (hsame.symm.trans hcacheable)

/-- A register changes, and stays for its block. -/
theorem Single.update (h : Single q) (hentries : q'.entries = Function.update q.entries i m)
    (hlist : ∀ j ∈ q'.allocatedList, j ∈ q.allocatedList) (hblock : m.block = (q.entries i).block) :
    Single q' := by
  refine h.keep hlist fun j _ => ?_
  rw [hentries]
  by_cases hji : j = i
  · subst hji
    rw [Function.update_self]
    exact hblock
  · rw [Function.update_of_ne hji]

/-- A register goes. -/
theorem Single.free (h : Single q) (hentries : q'.entries = Function.update q.entries i m)
    (hnodup : q.allocatedList.Nodup) (hlist : q'.allocatedList = q.allocatedList.erase i) :
    Single q' := by
  refine h.keep (fun j hj => ?_) fun j hj => ?_
  · rw [hlist] at hj
    exact List.mem_of_mem_erase hj
  · rw [hlist, hnodup.mem_erase_iff] at hj
    rw [hentries, Function.update_of_ne hj.1]

/-- A register is given to a block that has none. -/
theorem Single.add (h : Single q) (hentries : q'.entries = Function.update q.entries i m)
    (hlist : q'.allocatedList = q.allocatedList ++ [i]) (hi : i ∉ q.allocatedList)
    (hnew : m.isUncacheable = false → ∀ j ∈ q.allocatedList, (q.entries j).block ≠ m.block) :
    Single q' := by
  have hold : ∀ j ∈ q.allocatedList, q'.entries j = q.entries j := by
    intro j hj
    have hji : j ≠ i := fun heq => hi (heq ▸ hj)
    rw [hentries]
    exact Function.update_of_ne hji _ _
  have hself : q'.entries i = m := by
    rw [hentries]
    exact Function.update_self _ _ _
  intro j hj k hk heq hcacheable
  rw [hlist, List.mem_append, List.mem_singleton] at hj hk
  rcases hj with hj | rfl <;> rcases hk with hk | rfl
  · rw [hold j hj, hold k hk] at heq
    rw [hold j hj] at hcacheable
    exact h j hj k hk heq hcacheable
  · rw [hold j hj, hself] at heq
    rw [hold j hj] at hcacheable
    have hm : m.isUncacheable = false := (congrArg (fun b => b.2.2) heq).symm.trans hcacheable
    exact absurd heq (hnew hm j hj)
  · rw [hself, hold k hk] at heq
    rw [hself] at hcacheable
    exact absurd heq.symm (hnew hcacheable k hk)
  · rfl

/-- What `findMatch` did not find. -/
theorem New.block_ne {p : CacheParams} {pkt : Packet} (h : New p pkt q) (hq : q.Consistent)
    (hblock : m.block = (pkt.blockAddr p.blkSize, pkt.secure, pkt.uncacheable)) :
    m.isUncacheable = false → ∀ j ∈ q.allocatedList, (q.entries j).block ≠ m.block := by
  intro hcacheable j hj heq
  obtain ⟨found, hfound, -, hnone⟩ :=
    hq.findMatch_spec (pkt.blockAddr p.blkSize) pkt.secure true
  have hcacheable' : pkt.uncacheable = false :=
    (congrArg (fun b => b.2.2) hblock).symm.trans hcacheable
  rcases h with hunc | hsearch
  · rw [hcacheable'] at hunc
    cases hunc
  · obtain rfl : found = none := Option.some.inj (hfound.symm.trans hsearch)
    rw [hblock] at heq
    obtain ⟨haddr, hrest⟩ := Prod.mk.inj heq
    obtain ⟨hsecure, hunc⟩ := Prod.mk.inj hrest
    have hskip := (hnone rfl j hj (matches_iff.2 ⟨haddr, hsecure⟩)).2
    have hskip' : (q.entries j).isUncacheable = true := hskip
    rw [hunc, hcacheable'] at hskip'
    cases hskip'

end Single

/-! ### The registers -/

/-- No register above waits to be told by two registers. -/
def Apart (entries : ℕ → MSHR) : Prop :=
  ∀ i j r, r ∈ (entries i).uppers → r ∈ (entries j).uppers → i = j

/-- Every register has gone through a run of its own. -/
def Tracked (info : CmdInfo) (entries : ℕ → MSHR) (order : ℕ) (above : Above)
    (g : ℕ → MissRegister.History) : Prop :=
  ∀ i, ∃ trace, MissRegister.Run info trace (⟨entries i, order, above⟩, g i)

section Tracked

variable {entries : ℕ → MSHR} {order : ℕ} {above above' : Above} {g : ℕ → MissRegister.History}
  {i : ℕ} {m : MSHR}

theorem Tracked.good (h : Tracked info entries order above g) (i : ℕ) :
    MissRegister.Good ⟨entries i, order, above⟩ (g i) := by
  obtain ⟨trace, hrun⟩ := h i
  exact (MissRegister.run_invariant hrun).1

/-- A register changes, and takes a register above only if it was not pending. -/
theorem Apart.relinked (h : Apart entries) (hlinked : ∀ j, (entries j).Linked above)
    (hrelinked : MSHR.Relinked above (entries i) above' m) :
    Apart (Function.update entries i m) := by
  have hother : ∀ j r, j ≠ i → r ∈ m.uppers → r ∉ (entries j).uppers := by
    intro j r hji hr hr'
    rcases hrelinked.uppers r hr with hold | hfree
    · exact hji (h j i r hr' hold)
    · rw [(hlinked j).pending r hr'] at hfree
      cases hfree
  intro j k r hj hk
  by_cases hji : j = i <;> by_cases hki : k = i
  · exact hji.trans hki.symm
  · subst hji
    rw [Function.update_self] at hj
    rw [Function.update_of_ne hki] at hk
    exact absurd hk (hother k r hki hj)
  · subst hki
    rw [Function.update_self] at hk
    rw [Function.update_of_ne hji] at hj
    exact absurd hj (hother j r hji hk)
  · rw [Function.update_of_ne hji] at hj
    rw [Function.update_of_ne hki] at hk
    exact h j k r hj hk

/-- The registers above that another register has to tell stay pending. -/
theorem Apart.pending (h : Apart entries) (hlinked : ∀ j, (entries j).Linked above)
    (hrelinked : MSHR.Relinked above (entries i) above' m) {j : ℕ} (hji : j ≠ i) :
    ∀ r ∈ (entries j).uppers, above' r = true := by
  intro r hr
  have hset := (hlinked j).pending r hr
  rcases hrelinked.above r with heq | hmem | hfree
  · exact heq.trans hset
  · exact absurd (h j i r hr hmem) hji
  · rw [hset] at hfree
    cases hfree

/-- Operations of a register that may come and do not fail. -/
inductive Replays (info : CmdInfo) : MissRegister × MissRegister.History → List MissRegister.Op →
    MissRegister × MissRegister.History → Prop
  | nil (x : MissRegister × MissRegister.History) : Replays info x [] x
  | cons {x x₁ x' : MissRegister × MissRegister.History} {o : MissRegister.Op}
      {os : List MissRegister.Op} {served : List Target} (hp : MissRegister.promise info x o)
      (hstep : Runs.withHistory (MissRegister.perform info) (MissRegister.note info) x o =
        .ok (x₁, served))
      (h : Replays info x₁ os x') : Replays info x (o :: os) x'

section Replays

variable {x x₁ x' : MissRegister × MissRegister.History} {os os' : List MissRegister.Op}

theorem replay_cons {o : MissRegister.Op} {served : List Target} (hstep : Runs.withHistory
    (MissRegister.perform info) (MissRegister.note info) x o = .ok (x₁, served)) :
    MissRegister.replay info x (o :: os) = MissRegister.replay info x₁ os := by
  rw [MissRegister.replay, hstep]

theorem Replays.eq (h : Replays info x os x') : MissRegister.replay info x os = x' := by
  induction h with
  | nil x => rfl
  | cons _ hstep _ ih => exact (replay_cons hstep).trans ih

theorem Replays.append (h : Replays info x os x₁) (h' : Replays info x₁ os' x') :
    Replays info x (os ++ os') x' := by
  induction h with
  | nil x => exact h'
  | cons hp hstep _ ih => exact .cons hp hstep (ih h')

theorem Replays.replay_append (h : Replays info x os x₁) :
    MissRegister.replay info x (os ++ os') = MissRegister.replay info x₁ os' := by
  induction h with
  | nil x => rfl
  | cons _ hstep _ ih =>
      rw [List.cons_append]
      exact (replay_cons hstep).trans ih

theorem Replays.run (h : Replays info x os x') {trace : List (List Target)}
    (hrun : MissRegister.Run info trace x) : ∃ trace', MissRegister.Run info trace' x' := by
  induction h generalizing trace with
  | nil x => exact ⟨trace, hrun⟩
  | cons hp hstep _ ih => exact ih (hrun.snoc hp hstep)

theorem Replays.one {s s' : MissRegister} {g : MissRegister.History} {o : MissRegister.Op}
    {served : List Target} (hp : MissRegister.promise info (s, g) o)
    (hstep : MissRegister.step info s o = some (s', served)) :
    Replays info (s, g) [o] (s', MissRegister.note info g s o s' served) :=
  .cons hp (Runs.withHistory_eq_ok.2 ⟨MissRegister.perform_eq_ok.2 hstep, rfl⟩) (.nil _)

theorem Replays.elsewhere (m : MSHR) (order : ℕ) (above : Above) (n : ℕ)
    (g : MissRegister.History) :
    Replays info (⟨m, order, above⟩, g) (List.replicate n .elsewhere)
    (⟨m, order + n, above⟩, g) := by
  induction n generalizing order with
  | zero => exact .nil _
  | succ n ih =>
      have hp : MissRegister.promise info (⟨m, order, above⟩, g) .elsewhere := trivial
      have h := ih (order + 1)
      rw [Nat.add_right_comm] at h
      exact (Replays.one hp rfl).append h

theorem Replays.changeAbove (order : ℕ) (above : Above) (g : MissRegister.History)
    (h : ∀ r ∈ m.uppers, above' r = true) :
    Replays info (⟨m, order, above⟩, g) [.changeAbove above'] (⟨m, order, above'⟩, g) := by
  have hp : MissRegister.promise info (⟨m, order, above⟩, g) (.changeAbove above') := h
  exact Replays.one hp rfl

end Replays

/-- The counter counts something that is for no register. -/
theorem Tracked.later (h : Tracked info entries order above g) {order' : ℕ} (hle : order ≤ order') :
    Tracked info entries order' above g := by
  obtain ⟨n, rfl⟩ := Nat.exists_eq_add_of_le hle
  intro i
  obtain ⟨trace, hrun⟩ := h i
  exact (Replays.elsewhere (entries i) order above n (g i)).run hrun

/-- Something else changes the flags of the registers above. -/
theorem Tracked.changeAbove (h : Tracked info entries order above g)
    (habove : ∀ i, ∀ r ∈ (entries i).uppers, above' r = true) :
    Tracked info entries order above' g := by
  intro i
  obtain ⟨trace, hrun⟩ := h i
  exact (Replays.changeAbove order above (g i) (habove i)).run hrun

/-- Some operations of one register, while the counter and the flags of the registers above
change for all. -/
theorem Tracked.replay (h : Tracked info entries order above g) (hapart : Apart entries)
    {os : List MissRegister.Op} {order' : ℕ} {g' : MissRegister.History} (hle : order ≤ order')
    (hrelinked : MSHR.Relinked above (entries i) above' m)
    (hreplays : Replays info (⟨entries i, order, above⟩, g i) os (⟨m, order', above'⟩, g')) :
    Tracked info (Function.update entries i m) order' above' (Function.update g i g') := by
  intro j
  by_cases hji : j = i
  · subst hji
    obtain ⟨trace, hrun⟩ := h j
    rw [Function.update_self, Function.update_self]
    exact hreplays.run hrun
  · obtain ⟨trace, hrun⟩ := h.later hle j
    rw [Function.update_of_ne hji, Function.update_of_ne hji]
    exact (Replays.changeAbove order' above (g j)
      (hapart.pending (fun k => (h.good k).linked) hrelinked hji)).run hrun

end Tracked

/-! ### What is kept -/

/-- A target that is not a prefetch of this cache. -/
def Demanded (m : MSHR) : Prop :=
  ∃ t ∈ m.targets.list ++ m.deferredTargets.list, t.pkt.cmd ≠ .hardPFReq

/-- The register for which the cache is blocked is in use, and not by a prefetch alone. -/
def Blocking (s : MissPath) : Prop :=
  ∀ i ∈ s.noTargetMSHR, i ∈ s.mshrQueue.allocatedList ∧ Demanded (s.mshrQueue.entries i)

/-- The queues have the sizes that the constructor gave them. -/
def Sized (p : CacheParams) (s : MissPath) : Prop :=
  (s.mshrQueue.numEntries = p.mshrs ∧ s.mshrQueue.numReserve = 0) ∧
    s.writeBuffer.numEntries = p.writeBuffers + p.mshrs ∧ s.writeBuffer.numReserve = p.mshrs

/-- What every run of the miss path keeps. -/
structure Safe (info : CmdInfo) (p : CacheParams) (s : MissPath) (g : ℕ → MissRegister.History) :
    Prop where
  mshrs : s.mshrQueue.Consistent
  single : Single s.mshrQueue
  apart : Apart s.mshrQueue.entries
  registers : Tracked info s.mshrQueue.entries s.order s.above g
  writes : Writes info s.writeBuffer s.order
  sized : Sized p s
  noMSHRs : s.noMSHRs = s.mshrQueue.isFull
  noWBBuffers : s.noWBBuffers = s.writeBuffer.isFull
  noTargets : s.noTargets = s.noTargetMSHR.isSome
  blocking : Blocking s

section Demanded

variable {m m' : MSHR}

/-- The same targets are there. -/
theorem Demanded.of_look (h : Demanded m)
    (hlook : (m'.targets.list ++ m'.deferredTargets.list).map MSHR.look =
      (m.targets.list ++ m.deferredTargets.list).map MSHR.look) : Demanded m' := by
  obtain ⟨t, ht, hcmd⟩ := h
  obtain ⟨u, hu, heq⟩ := MSHR.mem_of_look hlook.symm ht
  obtain ⟨-, -, hsame, -⟩ := MSHR.same_of_look heq
  exact ⟨u, hu, hsame ▸ hcmd⟩

/-- The targets are all still there, and maybe others. -/
theorem Demanded.of_subset (h : Demanded m)
    (htargets : ∀ t ∈ m.targets.list, t.pkt.cmd ≠ .hardPFReq →
      ∃ u ∈ m'.targets.list, u.pkt.cmd ≠ .hardPFReq)
    (hdeferred : ∀ t ∈ m.deferredTargets.list, t.pkt.cmd ≠ .hardPFReq →
      ∃ u ∈ m'.deferredTargets.list, u.pkt.cmd ≠ .hardPFReq) : Demanded m' := by
  obtain ⟨t, ht, hcmd⟩ := h
  rcases List.mem_append.1 ht with ht | ht
  · obtain ⟨u, hu, hcmd'⟩ := htargets t ht hcmd
    exact ⟨u, List.mem_append_left _ hu, hcmd'⟩
  · obtain ⟨u, hu, hcmd'⟩ := hdeferred t ht hcmd
    exact ⟨u, List.mem_append_right _ hu, hcmd'⟩

theorem replaceUpgrade_ne {pkt : Packet} (h : pkt.cmd ≠ .hardPFReq) :
    (TargetList.replaceUpgrade pkt).cmd ≠ .hardPFReq := by
  rcases TargetList.replaceUpgrade_cases pkt with ⟨heq, -⟩ | ⟨heq, -⟩ | ⟨heq, -⟩ | ⟨heq, -⟩
  · rw [heq]
    exact MemCmd.noConfusion
  · rw [heq]
    exact MemCmd.noConfusion
  · rw [heq]
    exact MemCmd.noConfusion
  · rwa [heq]

theorem mem_replaceUpgrades {l : TargetList} {t : Target} (ht : t ∈ l.list)
    (hcmd : t.pkt.cmd ≠ .hardPFReq) :
    ∃ u ∈ l.replaceUpgrades.list, u.pkt.cmd ≠ .hardPFReq := by
  rcases l.replaceUpgrades_cases with ⟨-, heq⟩ | heq
  · exact ⟨t, heq.symm ▸ ht, hcmd⟩
  · refine ⟨TargetList.replaced t, ?_, replaceUpgrade_ne hcmd⟩
    rw [heq]
    exact List.mem_map_of_mem ht

theorem mem_add {now readyTime order : ℕ} {pkt : Packet} {source : Source}
    {markPending allocOnFill : Bool} {above above' : Above} {l l' : TargetList}
    (h : l.add info now pkt readyTime order source markPending allocOnFill above =
      some (l', above')) :
    ∃ u ∈ l'.list, u.pkt = pkt := by
  unfold TargetList.add at h
  simp only [Option.ite_none_left_eq_some] at h
  obtain ⟨rfl, -⟩ := Prod.mk.inj (Option.some.inj h.2)
  rw [TargetList.push_list]
  exact ⟨_, List.mem_append_right _ (List.mem_singleton_self _), rfl⟩

/-- A request that joins a register is there. -/
theorem demanded_of_allocateTarget {now whenReady order : ℕ} {pkt : Packet} {allocOnFill : Bool}
    {above above' : Above}
    (h : m.allocateTarget info now pkt whenReady order allocOnFill above = some (m', above'))
    (hcmd : pkt.cmd ≠ .hardPFReq) : Demanded m' := by
  unfold MSHR.allocateTarget at h
  rw [if_neg hcmd] at h
  obtain ⟨front, -, h⟩ := Option.bind_eq_some_iff.1 h
  split at h
  · obtain ⟨⟨l, above₁⟩, hadd, heq⟩ := Option.map_eq_some_iff.1 h
    obtain ⟨rfl, -⟩ := Prod.mk.inj heq
    obtain ⟨u, hu, hpkt⟩ := mem_add hadd
    refine ⟨u, List.mem_append_right _ hu, ?_⟩
    rw [hpkt]
    split
    · exact replaceUpgrade_ne hcmd
    · exact hcmd
  · obtain ⟨⟨l, above₁⟩, hadd, heq⟩ := Option.map_eq_some_iff.1 h
    obtain ⟨rfl, -⟩ := Prod.mk.inj heq
    obtain ⟨u, hu, hpkt⟩ := mem_add hadd
    exact ⟨u, List.mem_append_left _ hu, hpkt ▸ hcmd⟩

/-- A snoop takes no target away. -/
theorem Demanded.snoop {pkt : Packet} {order : ℕ} (h : Demanded m)
    (hsnooped : MSHR.Snooped info pkt order m m') : Demanded m' := by
  refine h.of_subset (fun t ht hcmd => ?_) fun t ht hcmd => ?_
  · rcases hsnooped.targets with heq | heq | ⟨-, u, -, -, -, hlist, -⟩
    · exact ⟨t, heq.symm ▸ ht, hcmd⟩
    · rw [heq]
      exact mem_replaceUpgrades ht hcmd
    · exact ⟨t, hlist.symm ▸ List.mem_append_left _ ht, hcmd⟩
  · rcases hsnooped.deferred with heq | heq
    · exact ⟨t, heq.symm ▸ ht, hcmd⟩
    · rw [heq]
      exact mem_replaceUpgrades ht hcmd

/-- What is deferred is still there after it was promoted. -/
theorem lists_promoteDeferredTargets (info : CmdInfo) (now : ℕ) (m : MSHR) :
    (m.promoteDeferredTargets info now).2.targets.list ++
        (m.promoteDeferredTargets info now).2.deferredTargets.list =
      m.targets.list ++ m.deferredTargets.list := by
  by_cases hnil : m.targets.list = [] ∧ m.deferredTargets.list = []
  · unfold MSHR.promoteDeferredTargets
    rw [hnil.1, hnil.2]
    exact congrArg₂ (· ++ ·) hnil.1 hnil.2
  · obtain ⟨-, moved, htargets, hdeferred, -⟩ := MSHR.promoteDeferredTargets_spec info now hnil
    rw [htargets, hdeferred, List.append_assoc]

end Demanded

section Blocking

variable {s s' : MissPath} {i : ℕ} {m : MSHR}

/-- A register changes. -/
theorem Blocking.use (h : Blocking s)
    (hentries : s'.mshrQueue.entries = Function.update s.mshrQueue.entries i m)
    (hlist : ∀ j ∈ s.mshrQueue.allocatedList, j ≠ i → j ∈ s'.mshrQueue.allocatedList)
    (hsame : s'.noTargetMSHR = s.noTargetMSHR)
    (hi : i ∈ s.noTargetMSHR → i ∈ s.mshrQueue.allocatedList → Demanded (s.mshrQueue.entries i) →
      i ∈ s'.mshrQueue.allocatedList ∧ Demanded m) : Blocking s' := by
  intro j hj
  rw [hsame] at hj
  obtain ⟨hallocated, hdemanded⟩ := h j hj
  rw [hentries]
  by_cases hji : j = i
  · subst hji
    rw [Function.update_self]
    exact hi hj hallocated hdemanded
  · rw [Function.update_of_ne hji]
    exact ⟨hlist j hallocated hji, hdemanded⟩

end Blocking

/-- Nothing but the write buffer changes. -/
structure OnlyWrites (s s' : MissPath) : Prop where
  mshrQueue : s'.mshrQueue = s.mshrQueue
  noMSHRs : s'.noMSHRs = s.noMSHRs
  noTargets : s'.noTargets = s.noTargets ∧ s'.noTargetMSHR = s.noTargetMSHR
  above : s'.above = s.above

/-- A register did something, and everything is kept. -/
structure Used (info : CmdInfo) (p : CacheParams) (s : MissPath) (g : ℕ → MissRegister.History)
    (s' : MissPath) (i : ℕ) (os : List MissRegister.Op) (g' : MissRegister.History)
    (served : List Target) : Prop where
  replays : Replays info (s.register i, g i) os (s'.register i, g')
  safe : Safe info p s' (Function.update g i g')
  served : g'.served = (g i).served ++ served
  buffer : s'.writeBuffer = s.writeBuffer

/-- What a step keeps. -/
structure Kept (info : CmdInfo) (p : CacheParams) (s : MissPath) (g : ℕ → MissRegister.History)
    (s' : MissPath) (event : Event) (timely : Prop) (leaves : ℕ → Prop) : Prop where
  safe : Safe info p s' (track info g s event)
  served : ∀ i, (track info g s event i).served = (g i).served ++ event.servedBy i
  fifo : timely → s.writeBuffer.Fifo → s'.writeBuffer.Fifo
  stay : Stay leaves s.writeBuffer s'.writeBuffer

section Kept

variable {s s' : MissPath} {g : ℕ → MissRegister.History} {i : ℕ}

theorem Used.refl (h : Safe info p s g) (i : ℕ) : Used info p s g s i [] (g i) [] :=
  ⟨.nil _, by rwa [Function.update_eq_self], (List.append_nil _).symm, rfl⟩

theorem Used.trans {s₁ : MissPath} {os os' : List MissRegister.Op} {g₁ g' : MissRegister.History}
    {served served' : List Target} (h : Used info p s g s₁ i os g₁ served)
    (h' : Used info p s₁ (Function.update g i g₁) s' i os' g' served') :
    Used info p s g s' i (os ++ os') g' (served ++ served') := by
  have hreplays := h'.replays
  have hsafe := h'.safe
  have hserved := h'.served
  rw [Function.update_self] at hreplays hserved
  rw [Function.update_idem] at hsafe
  refine ⟨h.replays.append hreplays, hsafe, ?_, h'.buffer.trans h.buffer⟩
  rw [hserved, h.served, List.append_assoc]

@[simp] theorem servedBy_self (os : List MissRegister.Op) (served : List Target) :
    (⟨some (i, os), served⟩ : Event).servedBy i = served := if_pos rfl

theorem servedBy_ne {j : ℕ} (h : j ≠ i) (os : List MissRegister.Op) (served : List Target) :
    (⟨some (i, os), served⟩ : Event).servedBy j = [] :=
  if_neg fun heq => h (Option.some.inj heq).symm

theorem Used.kept {os : List MissRegister.Op} {g' : MissRegister.History} {served : List Target}
    (h : Used info p s g s' i os g' served) (timely : Prop) (leaves : ℕ → Prop) :
    Kept info p s g s' ⟨some (i, os), served⟩ timely leaves := by
  have htrack : track info g s ⟨some (i, os), served⟩ = Function.update g i g' := by
    unfold track
    dsimp only
    rw [h.replays.eq]
  refine ⟨htrack ▸ h.safe, fun j => ?_, fun _ hfifo => h.buffer.symm ▸ hfifo,
    h.buffer.symm ▸ .refl _⟩
  rw [htrack]
  by_cases hji : j = i
  · subst hji
    rw [Function.update_self, servedBy_self]
    exact h.served
  · rw [Function.update_of_ne hji, servedBy_ne hji, List.append_nil]

/-- What an operation of a register serves is noted. -/
theorem note_served {r r' : MissRegister} {g : MissRegister.History} {o : MissRegister.Op}
    {served : List Target} (h : MissRegister.step info r o = some (r', served)) :
    (MissRegister.note info g r o r' served).served = g.served ++ served := by
  have hquiet : ∀ {α : Type} {x : Option α} {f : α → MissRegister},
      x.map (fun a => (f a, ([] : List Target))) = some (r', served) → served = [] := by
    intro α x f heq
    obtain ⟨_, -, heq⟩ := Option.map_eq_some_iff.1 heq
    exact (Prod.mk.inj heq).2.symm
  cases o with
  | respond now resp blk => rfl
  | buffered =>
      obtain ⟨-, rfl⟩ := Prod.mk.inj (Option.some.inj h)
      exact (List.append_nil _).symm
  | elsewhere =>
      obtain ⟨-, rfl⟩ := Prod.mk.inj (Option.some.inj h)
      exact (List.append_nil _).symm
  | changeAbove above =>
      obtain ⟨-, rfl⟩ := Prod.mk.inj (Option.some.inj h)
      exact (List.append_nil _).symm
  | send accepted pendingModifiedResp isForward =>
      have hnil : served = [] := by
        rw [MissRegister.step] at h
        dsimp only at h
        split at h
        · exact hquiet h
        · exact (Prod.mk.inj (Option.some.inj h)).2.symm
      rw [hnil]
      exact (List.append_nil _).symm
  | _ =>
      rw [hquiet h]
      exact (List.append_nil _).symm

/-- An operation of a register keeps everything, if the queue, the flags and the register for which
the cache is blocked agree. -/
theorem Safe.use (h : Safe info p s g) (s' : MissPath) {m : MSHR} {o : MissRegister.Op}
    {served : List Target}
    (hp : MissRegister.promise info (s.register i, g i) o) (hown : ∀ above, o ≠ .changeAbove above)
    (hstep : MissRegister.step info (s.register i) o = some (⟨m, s'.order, s'.above⟩, served))
    (hle : s.order ≤ s'.order)
    (hentries : s'.mshrQueue.entries = Function.update s.mshrQueue.entries i m)
    (hconsistent : s'.mshrQueue.Consistent)
    (hsize : s'.mshrQueue.numEntries = s.mshrQueue.numEntries ∧
      s'.mshrQueue.numReserve = s.mshrQueue.numReserve)
    (hfull : s'.noMSHRs = s'.mshrQueue.isFull)
    (hwrites : s'.writeBuffer = s.writeBuffer ∧ s'.noWBBuffers = s.noWBBuffers)
    (htargets : s'.noTargets = s'.noTargetMSHR.isSome) (hsingle : Single s'.mshrQueue)
    (hblocking : Blocking s') : ∃ g', Used info p s g s' i [o] g' served := by
  have hreplays := Replays.one hp hstep
  have hrelinked : MSHR.Relinked s.above (s.mshrQueue.entries i) s'.above m := by
    rcases MissRegister.step_spec (h.registers.good i) hp with
      ⟨-, hnone⟩ | ⟨-, r, served', hsome, hnext⟩
    · exact absurd (hstep.symm.trans hnone) (Option.some_ne_none _)
    · cases Option.some.inj (hstep.symm.trans hsome)
      exact hnext.relinked.resolve_right fun ⟨above, heq⟩ => hown above heq
  have hself : s'.register i = ⟨m, s'.order, s'.above⟩ := by
    unfold register
    rw [hentries, Function.update_self]
  have htracked := h.registers.replay h.apart hle hrelinked hreplays
  have hapart := h.apart.relinked (fun j => (h.registers.good j).linked) hrelinked
  rw [← hentries] at htracked hapart
  refine ⟨_, hself.symm ▸ hreplays, ⟨hconsistent, hsingle, hapart, htracked, ?_, ?_,
    hfull, ?_, htargets, hblocking⟩, note_served hstep, hwrites.1⟩
  · rw [hwrites.1]
    exact h.writes.mono hle
  · obtain ⟨hmshrs, hbuffer⟩ := h.sized
    rw [← hsize.1, ← hsize.2] at hmshrs
    rw [← hwrites.1] at hbuffer
    exact ⟨hmshrs, hbuffer⟩
  · rw [hwrites.1, hwrites.2]
    exact h.noWBBuffers

/-- An operation of a register that the queue does not see. -/
theorem Safe.use_update (h : Safe info p s g) (hi : i ∈ s.mshrQueue.allocatedList) {m : MSHR}
    {o : MissRegister.Op} {served : List Target} {order' : ℕ} {above' : Above}
    (hp : MissRegister.promise info (s.register i, g i) o) (hown : ∀ above, o ≠ .changeAbove above)
    (hstep : MissRegister.step info (s.register i) o = some (⟨m, order', above'⟩, served))
    (hle : s.order ≤ order') (hplace : m.place = (s.mshrQueue.entries i).place)
    (htargets : m.hasTargets = true)
    (hdemanded : i ∈ s.noTargetMSHR → Demanded (s.mshrQueue.entries i) → Demanded m) :
    ∃ g', Used info p s g { s with
      mshrQueue := s.mshrQueue.update i m
      order := order'
      above := above' } i [o] g' served :=
  h.use _ hp hown hstep hle rfl (h.mshrs.update hi (congrArg Prod.snd hplace) htargets)
    ⟨rfl, rfl⟩ h.noMSHRs
    ⟨rfl, rfl⟩ h.noTargets (h.single.update rfl (fun _ hj => hj) (congrArg Prod.fst hplace))
    (h.blocking.use rfl (fun _ hj _ => hj) rfl fun hmem _ hold => ⟨hi, hdemanded hmem hold⟩)

end Kept

end MissPath

end OpenCache
