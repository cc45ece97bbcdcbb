/-
**What the miss path does with a request and a snoop.**

A write that the cache passes on finds an entry of the write buffer unless they are used up; a miss
finds a register, or joins the one that its block has; a snoop is noted in the register or in the
write of its block.

Main definitions:

* `OpenCache.MissPath.Incoming` — some writes came;
* `OpenCache.MissPath.Found` — something was found in the write buffer;
* `OpenCache.MissPath.Outcome` — how a miss ends.

Main results:

* `OpenCache.MissPath.Safe.doWritebacks` — the writes of evicted blocks fail only if the write
  buffer does not take them, or if there is no entry left;
* `OpenCache.MissPath.Safe.handleTimingReqMiss` — a miss fails only if it does not come, if it needs
  an entry of the write buffer and there is none, or if it has to mark a register above that is
  pending already;
* `OpenCache.MissPath.Safe.recvTimingSnoopReq` — a snoop never fails.
-/

import OpenCache.Gem5.MissPathState

set_option relaxedAutoImplicit false
set_option autoImplicit false

namespace OpenCache

namespace MissPath

open QueueItem EntryQueue

variable {info : CmdInfo} {p : CacheParams}

/-! ### Writes that come -/

section Incoming

variable {s s' : MissPath} {g : ℕ → MissRegister.History}

/-- The registers do not see the write buffer. -/
theorem Safe.onlyWrites (h : Safe info p s g) (hsame : OnlyWrites s s') (hle : s.order ≤ s'.order)
    (hwrites : Writes info s'.writeBuffer s'.order)
    (hsize : s'.writeBuffer.numEntries = s.writeBuffer.numEntries ∧
      s'.writeBuffer.numReserve = s.writeBuffer.numReserve)
    (hfull : s'.noWBBuffers = s'.writeBuffer.isFull) : Safe info p s' g := by
  obtain ⟨hqueue, hmshrs, ⟨htargets, hregister⟩, habove⟩ := hsame
  refine ⟨hqueue ▸ h.mshrs, hqueue ▸ h.single, hqueue ▸ h.apart, ?_, hwrites, ?_, ?_, hfull, ?_, ?_⟩
  · rw [hqueue, habove]
    exact h.registers.later hle
  · unfold Sized
    rw [hqueue, hsize.1, hsize.2]
    exact h.sized
  · rw [hmshrs, hqueue]
    exact h.noMSHRs
  · rw [htargets, hregister]
    exact h.noTargets
  · unfold Blocking
    rw [hqueue, hregister]
    exact h.blocking

/-- A queue with one more entry is full if it was. -/
theorem isFull_of_succ {ε : Type*} {q q' : EntryQueue ε} (hcount : q'.allocated = q.allocated + 1)
    (hsize : q'.numEntries = q.numEntries) (hreserve : q'.numReserve = q.numReserve) :
    (q.isFull || q'.isFull) = q'.isFull := by
  cases hfull : q.isFull with
  | false => rfl
  | true =>
      simp only [isFull, ge_iff_le, decide_eq_true_eq] at hfull
      rw [Bool.true_or, eq_comm, isFull, decide_eq_true_eq, hcount, hsize, hreserve]
      omega

/-- A queue with one entry less is not full if it was not. -/
theorem isFull_of_pred {ε : Type*} {q q' : EntryQueue ε} (hcount : q'.allocated = q.allocated - 1)
    (hsize : q'.numEntries = q.numEntries) (hreserve : q'.numReserve = q.numReserve) :
    (q.isFull && !(q.isFull && !q'.isFull)) = q'.isFull := by
  cases hfull : q.isFull with
  | true =>
      cases q'.isFull <;> rfl
  | false =>
      simp only [isFull, ge_iff_le, decide_eq_false_iff_not, not_le] at hfull
      rw [Bool.false_and, eq_comm, isFull, decide_eq_false_iff_not, hcount, hsize, hreserve]
      omega

theorem Safe.allocateWriteBuffer (h : Safe info p s g) (now : ℕ) {pkt : Packet} (time : ℕ)
    (hbuffered : Buffered info pkt) :
    (s.writeBuffer.freeList = [] ∧ s.allocateWriteBuffer info p now pkt time = none) ∨
      s.writeBuffer.freeList ≠ [] ∧ ∃ i e s', s.allocateWriteBuffer info p now pkt time = some s' ∧
        Taken info p pkt time s.order s.writeBuffer s'.writeBuffer i e ∧ OnlyWrites s s' ∧
        s'.order = s.order + 1 ∧ Safe info p s' g := by
  obtain ⟨hwrite, htakes⟩ := hbuffered
  obtain ⟨found, hfound, -⟩ :=
    h.writes.consistent.findMatch_spec (pkt.blockAddr p.blkSize) pkt.secure true
  have hassert : ¬(!(info.isWrite pkt.cmd || pkt.cmd == .cleanEvict)) = true := by
    rw [Bool.not_eq_true', Bool.not_eq_false, Bool.or_eq_true, beq_iff_eq]
    exact hwrite
  unfold MissPath.allocateWriteBuffer
  simp only
  rw [if_neg hassert, hfound, Option.bind_some]
  by_cases hfree : s.writeBuffer.freeList = []
  · refine Or.inl ⟨hfree, ?_⟩
    unfold EntryQueue.allocate
    rw [hfree]
    rfl
  · obtain ⟨i, e, q', hallocate, htaken, hwrites⟩ := h.writes.allocate p now time htakes hfree
    rw [hallocate, Option.map_some]
    obtain ⟨hcount, hsize, hreserve, -⟩ := htaken.counts
    let s' : MissPath := { s with
      writeBuffer := q'
      order := s.order + 1
      noWBBuffers := s.noWBBuffers || q'.isFull }
    have hsame : OnlyWrites s s' := ⟨rfl, rfl, ⟨rfl, rfl⟩, rfl⟩
    refine Or.inr ⟨hfree, i, e, s', rfl, htaken, hsame, rfl,
      h.onlyWrites hsame (Nat.le_succ _) hwrites ⟨hsize, hreserve⟩ ?_⟩
    change (s.noWBBuffers || q'.isFull) = q'.isFull
    rw [h.noWBBuffers]
    exact isFull_of_succ hcount hsize hreserve

/-- A write that the write buffer does not take. -/
theorem Safe.allocateWriteBuffer_eq_none (h : Safe info p s g) (now : ℕ) {pkt : Packet} (time : ℕ)
    (hbuffered : ¬Buffered info pkt) : s.allocateWriteBuffer info p now pkt time = none := by
  unfold MissPath.allocateWriteBuffer
  dsimp only
  by_cases hwrite : info.isWrite pkt.cmd = true ∨ pkt.cmd = .cleanEvict
  · have htakes : WriteQueueEntry.takes info pkt = false :=
      Bool.eq_false_of_not_eq_true fun htakes => hbuffered ⟨hwrite, htakes⟩
    obtain ⟨found, hfound, -⟩ :=
      h.writes.consistent.findMatch_spec (pkt.blockAddr p.blkSize) pkt.secure true
    have hfill : ∀ e, WriteQueueEntry.allocate info now (pkt.blockAddr p.blkSize) p.blkSize pkt time
        s.order e = none := by
      intro e
      unfold WriteQueueEntry.allocate
      simp [htakes]
    rw [hfound, Option.bind_some]
    unfold EntryQueue.allocate
    simp only [hfill, Option.bind_none]
    split
    · rfl
    · cases s.writeBuffer.freeList with
      | nil => rfl
      | cons i rest => simp
  · have hassert : (!(info.isWrite pkt.cmd || pkt.cmd == .cleanEvict)) = true := by
      rw [not_or] at hwrite
      simp [hwrite.1, hwrite.2]
    exact if_pos hassert

/-- Some writes come. -/
structure Incoming (info : CmdInfo) (p : CacheParams) (pkts : List Packet) (time : ℕ)
    (s s' : MissPath) (g : ℕ → MissRegister.History) : Prop where
  only : OnlyWrites s s'
  order : s'.order = s.order + pkts.length
  free : s'.writeBuffer.freeList.length + pkts.length = s.writeBuffer.freeList.length
  safe : Safe info p s' g
  mem : ∀ j ∈ s'.writeBuffer.readyList,
    (j ∈ s.writeBuffer.readyList ∧ s'.writeBuffer.item j = s.writeBuffer.item j) ∨
      ∃ pkt ∈ pkts, (s'.writeBuffer.item j).blkAddr = pkt.blockAddr p.blkSize ∧
        (s'.writeBuffer.item j).isSecure = pkt.secure ∧ (s'.writeBuffer.item j).readyTime = time
  fifo : s.writeBuffer.Fifo → (∀ pkt ∈ pkts, ReadyBy p pkt time s) → s'.writeBuffer.Fifo
  stay : ∀ leaves, Stay leaves s.writeBuffer s'.writeBuffer

theorem Safe.doWritebacks (h : Safe info p s g) (now time : ℕ) (pkts : List Packet) :
    (((∃ pkt ∈ pkts, ¬Buffered info pkt) ∨ s.writeBuffer.freeList.length < pkts.length) ∧
        doWritebacks info p now time pkts s = none) ∨
      (∀ pkt ∈ pkts, Buffered info pkt) ∧ pkts.length ≤ s.writeBuffer.freeList.length ∧
        ∃ s', doWritebacks info p now time pkts s = some s' ∧ Incoming info p pkts time s s' g := by
  induction pkts generalizing s with
  | nil =>
      exact Or.inr ⟨fun _ hpkt => (by cases hpkt), Nat.zero_le _, s, rfl,
        ⟨rfl, rfl, ⟨rfl, rfl⟩, rfl⟩, rfl, rfl, h, fun j hj => Or.inl ⟨hj, rfl⟩,
        fun hfifo _ => hfifo, fun _ => .refl _⟩
  | cons pkt pkts ih =>
      unfold MissPath.doWritebacks
      by_cases hbuffered : Buffered info pkt
      case neg =>
        refine Or.inl ⟨Or.inl ⟨pkt, List.mem_cons_self, hbuffered⟩, ?_⟩
        rw [h.allocateWriteBuffer_eq_none now time hbuffered, Option.bind_none]
      rcases h.allocateWriteBuffer now time hbuffered with
        ⟨hfree, hnone⟩ | ⟨-, i, e, s₁, hs₁, htaken, honly, horder, hsafe⟩
      · refine Or.inl ⟨Or.inr ?_, ?_⟩
        · rw [hfree]
          exact Nat.zero_lt_succ _
        · rw [hnone, Option.bind_none]
      · have hlength : s₁.writeBuffer.freeList.length + 1 = s.writeBuffer.freeList.length :=
          htaken.counts.2.2.2
        rw [hs₁, Option.bind_some, List.length_cons]
        rcases ih hsafe with ⟨hfails, hnone⟩ | ⟨hall, hroom, s', hs', hin⟩
        · refine Or.inl ⟨?_, hnone⟩
          rcases hfails with ⟨wb, hwb, hnot⟩ | hfew
          · exact Or.inl ⟨wb, List.mem_cons_of_mem _ hwb, hnot⟩
          · exact Or.inr (by omega)
        · have hfree := hin.free
          refine Or.inr ⟨List.forall_mem_cons.2 ⟨hbuffered, hall⟩, by omega, s', hs',
            ⟨?_, ?_, ?_, ?_⟩, ?_, ?_, hin.safe, ?_, ?_,
            fun leaves => (htaken.stay leaves).trans (hin.stay leaves)⟩
          · exact hin.only.mshrQueue.trans honly.mshrQueue
          · exact hin.only.noMSHRs.trans honly.noMSHRs
          · exact ⟨hin.only.noTargets.1.trans honly.noTargets.1,
              hin.only.noTargets.2.trans honly.noTargets.2⟩
          · exact hin.only.above.trans honly.above
          · rw [hin.order, horder, List.length_cons]
            omega
          · rw [List.length_cons]
            omega
          · intro j hj
            rcases hin.mem j hj with ⟨hj, hitem⟩ | ⟨wb, hwb, hblock⟩
            · rcases htaken.mem hj with ⟨hj, hitem'⟩ | ⟨-, hitem'⟩
              · exact Or.inl ⟨hj, hitem.trans hitem'⟩
              · obtain ⟨-, hready, haddr, hsecure⟩ := htaken.entry
                refine Or.inr ⟨pkt, List.mem_cons_self, ?_⟩
                rw [hitem, hitem']
                exact ⟨haddr, hsecure, hready⟩
            · exact Or.inr ⟨wb, List.mem_cons_of_mem _ hwb, hblock⟩
          · intro hfifo htime
            refine hin.fifo (htaken.fifo h.writes hfifo (htime pkt List.mem_cons_self)) ?_
            intro wb hwb j hj hmatch
            rcases htaken.mem hj with ⟨hj, hitem⟩ | ⟨-, hitem⟩
            · rw [hitem] at hmatch ⊢
              exact htime wb (List.mem_cons_of_mem _ hwb) j hj hmatch
            · rw [hitem]
              exact le_of_eq htaken.entry.2.1

end Incoming

/-! ### Misses, snoops and evictions from above -/

section Requests

variable {s s' : MissPath} {g : ℕ → MissRegister.History} {i : ℕ}

/-- A write leaves the write buffer. -/
theorem Safe.markInService (h : Safe info p s g) (hi : i ∈ s.writeBuffer.allocatedList) :
    ∃ s', s.markInService i = some s' ∧ OnlyWrites s s' ∧ s'.order = s.order ∧
      Gone s.writeBuffer s'.writeBuffer i ∧ Safe info p s' g := by
  obtain ⟨q', hq', hgone, hwrites⟩ := h.writes.markInService hi
  obtain ⟨hcount, hsize, hreserve⟩ := hgone.counts
  let s' : MissPath := { s with
    writeBuffer := q'
    noWBBuffers := s.noWBBuffers && !(s.writeBuffer.isFull && !q'.isFull) }
  have hsame : OnlyWrites s s' := ⟨rfl, rfl, ⟨rfl, rfl⟩, rfl⟩
  refine ⟨s', ?_, hsame, rfl, hgone, h.onlyWrites hsame (le_refl _) hwrites ⟨hsize, hreserve⟩ ?_⟩
  · unfold MissPath.markInService
    rw [hq', Option.map_some]
  · change (s.noWBBuffers && !(s.writeBuffer.isFull && !q'.isFull)) = q'.isFull
    rw [h.noWBBuffers]
    exact isFull_of_pred hcount hsize hreserve

/-- What happens to the write buffer when something is found there. -/
structure Found (info : CmdInfo) (p : CacheParams) (s s' : MissPath) (g : ℕ → MissRegister.History)
    (leaves : ℕ → Prop) : Prop where
  only : OnlyWrites s s'
  order : s'.order = s.order
  buffer : s'.writeBuffer = s.writeBuffer ∨ ∃ i, leaves i ∧ Gone s.writeBuffer s'.writeBuffer i
  safe : Safe info p s' g

theorem Found.refl {leaves : ℕ → Prop} (h : Safe info p s g) : Found info p s s g leaves :=
  ⟨⟨rfl, rfl, ⟨rfl, rfl⟩, rfl⟩, rfl, Or.inl rfl, h⟩

theorem Found.fifo {leaves : ℕ → Prop} (h : Found info p s s' g leaves) (hsafe : Safe info p s g)
    (hfifo : s.writeBuffer.Fifo) : s'.writeBuffer.Fifo := by
  rcases h.buffer with heq | ⟨i, -, hgone⟩
  · rwa [heq]
  · exact hgone.fifo hsafe.writes hfifo

theorem Found.stay {leaves : ℕ → Prop} (h : Found info p s s' g leaves) (hsafe : Safe info p s g) :
    Stay leaves s.writeBuffer s'.writeBuffer := by
  rcases h.buffer with heq | ⟨i, hleaves, hgone⟩
  · rw [heq]
    exact .refl _
  · exact hgone.stay hsafe.writes hleaves

theorem Safe.found {leaves : ℕ → Prop} (h : Safe info p s g) (hi : i ∈ s.writeBuffer.allocatedList)
    (hleaves : leaves i) : ∃ s', s.markInService i = some s' ∧ Found info p s s' g leaves := by
  obtain ⟨s', hs', honly, horder, hgone, hsafe⟩ := h.markInService hi
  exact ⟨s', hs', honly, horder, Or.inr ⟨i, hleaves, hgone⟩, hsafe⟩

/-- An eviction from above finds nothing, or a write-back. -/
theorem Safe.accessEviction (h : Safe info p s g) (pkt : Packet) :
    (Fails info p s (.evict pkt) ∧ s.accessEviction info pkt = none) ∨
      ¬Fails info p s (.evict pkt) ∧ ∃ s', s.accessEviction info pkt = some s' ∧
        Found info p s s' g fun w => Leaves info p s w (.evict pkt) := by
  obtain ⟨found, hfound, hsome, -⟩ :=
    h.writes.consistent.findMatch_spec pkt.addr pkt.secure true
  unfold MissPath.accessEviction
  rw [hfound, Option.bind_some]
  cases found with
  | none =>
      refine Or.inr ⟨?_, s, rfl, .refl h⟩
      rintro ⟨i, hi, -⟩
      rw [hfound] at hi
      cases hi
  | some i =>
      obtain ⟨hi, hmatch, -⟩ := hsome i rfl
      obtain ⟨t, htargets, -, -⟩ := h.writes.single i hi
      have hfails : Fails info p s (.evict pkt) ↔ info.isWriteback t.pkt.cmd = false ∨
          info.isCleanEviction pkt.cmd = false ∧ pkt.cmd ≠ .writebackDirty := by
        unfold Fails
        dsimp only
        constructor
        · rintro ⟨j, hj, hfails⟩
          rw [hfound] at hj
          cases hj
          rw [htargets] at hfails
          simpa using hfails
        · intro hfails
          refine ⟨i, hfound, ?_⟩
          rw [htargets]
          simpa using hfails
      rw [hfails]
      simp only [htargets]
      cases hback : info.isWriteback t.pkt.cmd with
      | false => exact Or.inl ⟨Or.inl rfl, rfl⟩
      | true =>
          rw [if_neg (by decide)]
          cases hclean : info.isCleanEviction pkt.cmd with
          | true => exact Or.inr ⟨by simp, s, rfl, .refl h⟩
          | false =>
              rw [if_neg Bool.false_ne_true]
              by_cases hdirty : pkt.cmd = .writebackDirty
              · rw [if_pos hdirty]
                exact Or.inr ⟨by simp [hdirty], h.found hi ⟨hdirty, hmatch⟩⟩
              · exact Or.inl ⟨Or.inr ⟨rfl, hdirty⟩, if_neg hdirty⟩

theorem Safe.snoopWriteBuffer (h : Safe info p s g) (now : ℕ) {pkt : Packet} (mustCheckAbove : Bool)
    (hread : info.isRead pkt.cmd = true → info.isInvalidate pkt.cmd = false →
      info.needsWritable pkt.cmd = false) :
    ∃ s', s.snoopWriteBuffer info p pkt = some s' ∧
      Found info p s s' g fun w => Leaves info p s w (.snoop now pkt mustCheckAbove) := by
  obtain ⟨found, hfound, hsome, -⟩ :=
    h.writes.consistent.findMatch_spec (pkt.blockAddr p.blkSize) pkt.secure true
  unfold MissPath.snoopWriteBuffer
  rw [hfound, Option.bind_some]
  cases found with
  | none => exact ⟨s, rfl, .refl h⟩
  | some i =>
      obtain ⟨hi, hmatch, hcacheable⟩ := hsome i rfl
      obtain ⟨t, htargets, htakes, huncacheable⟩ := h.writes.single i hi
      have hunc : (s.writeBuffer.entries i).isUncacheable = false := hcacheable rfl
      have hpkt : t.pkt.uncacheable = false := huncacheable.trans hunc
      have hkind : (info.isEviction t.pkt.cmd || t.pkt.cmd == .writeClean) = true := by
        unfold WriteQueueEntry.takes at htakes
        simpa [hpkt] using htakes
      simp only [htargets]
      rw [if_neg (by rw [hunc, hkind]; decide)]
      split
      · exact ⟨s, rfl, .refl h⟩
      · split
        · next hassert =>
            simp only [Bool.and_eq_true, Bool.not_eq_true'] at hassert
            obtain ⟨⟨⟨-, hisRead⟩, hinvalidate⟩, hneeds⟩ := hassert
            rw [hread hisRead hinvalidate] at hneeds
            cases hneeds
        · split
          · next hinvalidate =>
              rw [Bool.and_eq_true, bne_iff_ne] at hinvalidate
              refine h.found hi ⟨hinvalidate.1, hmatch, fun u hu => ?_⟩
              rw [htargets, List.mem_singleton] at hu
              exact hu ▸ hinvalidate.2
          · exact ⟨s, rfl, .refl h⟩

/-- Nothing happened to a register. -/
theorem Found.kept {leaves : ℕ → Prop} (h : Found info p s s' g leaves) (hsafe : Safe info p s g)
    (timely : Prop) : Kept info p s g s' nothing timely leaves :=
  ⟨h.safe, fun _ => (List.append_nil _).symm, fun _ hfifo => h.fifo hsafe hfifo, h.stay hsafe⟩

/-- Something is found in the write buffer after a register did something. -/
theorem Found.after {s₁ : MissPath} {event : Event} {leaves : ℕ → Prop}
    (h : Found info p s₁ s' (track info g s event) leaves)
    (hkept : Kept info p s g s₁ event True leaves) :
    Kept info p s g s' event True leaves :=
  ⟨h.safe, hkept.served, fun _ hfifo => h.fifo hkept.safe (hkept.fifo trivial hfifo),
    hkept.stay.trans (h.stay hkept.safe)⟩

/-- What a register that is given to a miss changes. -/
structure Missed (info : CmdInfo) (p : CacheParams) (pkt : Packet) (s s' : MissPath) (i : ℕ)
    (m : MSHR) : Prop where
  allocated : MSHR.Allocated info pkt s.order m
  block : m.block = (pkt.blockAddr p.blkSize, pkt.secure, pkt.uncacheable)
  entries : s'.mshrQueue.entries = Function.update s.mshrQueue.entries i m
  free : (s.mshrQueue.entries i).hasTargets = false
  ready : i ∈ s'.mshrQueue.readyList
  list : s'.mshrQueue.allocatedList = s.mshrQueue.allocatedList ++ [i]
  fresh : i ∉ s.mshrQueue.allocatedList
  sizes : s'.mshrQueue.numEntries = s.mshrQueue.numEntries ∧
    s'.mshrQueue.numReserve = s.mshrQueue.numReserve
  consistent : s'.mshrQueue.Consistent
  noMSHRs : s'.noMSHRs = s'.mshrQueue.isFull
  order : s'.order = s.order + 1
  writes : s'.writeBuffer = s.writeBuffer ∧ s'.noWBBuffers = s.noWBBuffers
  noTargets : s'.noTargets = s.noTargets ∧ s'.noTargetMSHR = s.noTargetMSHR
  linked : m.Linked s'.above

/-- A miss finds a free register if the queue is not full, and takes it unless the register above
that it has to mark is pending already. -/
theorem Safe.allocateMissBuffer (h : Safe info p s g) (now : ℕ) (pkt : Packet) (time : ℕ)
    (hfull : s.mshrQueue.isFull = false) :
    ((pkt.upper true).any s.above = true ∧ s.allocateMissBuffer info p now pkt time = none) ∨
      (pkt.upper true).any s.above = false ∧ ∃ i m s',
        s.allocateMissBuffer info p now pkt time = some (i, s') ∧
        (s.mshrQueue.entries i).allocate info now (pkt.blockAddr p.blkSize)
        p.blkSize pkt time s.order
          (p.allocOnFill pkt.cmd) s.above = some (m, s'.above) ∧ Missed info p pkt s s' i m := by
  obtain ⟨i, rest, hlist⟩ := h.mshrs.exists_free hfull
  have hfresh : i ∉ s.mshrQueue.allocatedList := fun hi =>
    h.mshrs.not_mem_free hi (hlist ▸ List.mem_cons_self)
  have hnone : (s.mshrQueue.entries i).getNumTargets = 0 := h.mshrs.free i hfresh
  have htargets : (s.mshrQueue.entries i).targets.list = [] :=
    List.length_eq_zero_iff.1 (Nat.eq_zero_of_add_eq_zero_right hnone)
  have hdeferred : (s.mshrQueue.entries i).deferredTargets.list = [] :=
    List.length_eq_zero_iff.1 (Nat.eq_zero_of_add_eq_zero_left hnone)
  unfold MissPath.allocateMissBuffer EntryQueue.allocateWith
  rw [hlist, List.head?_cons, Option.bind_some]
  cases hasks : (pkt.upper true).any s.above with
  | true =>
      refine Or.inl ⟨rfl, ?_⟩
      rw [MSHR.allocate_eq_none info now _ _ time s.order _ hasks, Option.bind_none,
        Option.map_none]
  | false =>
      obtain ⟨m, hm, hallocated, hrelinked⟩ := MSHR.allocate_spec info now (pkt.blockAddr p.blkSize)
        p.blkSize pkt time s.order (p.allocOnFill pkt.cmd) htargets hdeferred
          (h.registers.good i).linked hasks
      obtain ⟨t, ht, -⟩ := hallocated.targets
      have hhas : m.hasTargets = true := by
        rw [MSHR.hasTargets, ht]
        rfl
      let fill : MSHR → Option MSHR := fun _ => some m
      have hfill : fill (s.mshrQueue.entries i) = some m := rfl
      obtain ⟨front, back, hallocate, -, -, -, hconsistent⟩ :=
        h.mshrs.allocate hlist hfill hallocated.idle.1 hhas
      rw [hm, Option.bind_some, hallocate, Option.map_some, Option.map_some]
      refine Or.inr ⟨rfl, i, m, _, rfl, hm, hallocated, MSHR.block_allocate hm, rfl, ?_,
        List.mem_append_right _ List.mem_cons_self, rfl, hfresh, ⟨rfl, rfl⟩, hconsistent, ?_, rfl,
        ⟨rfl, rfl⟩, ⟨rfl, rfl⟩, hrelinked.linked⟩
      · rw [MSHR.hasTargets, htargets]
        rfl
      · dsimp only
        rw [h.noMSHRs]
        exact isFull_of_succ rfl rfl rfl

/-- There is one register for a block after a miss. -/
theorem Missed.single {pkt : Packet} {m : MSHR} (h : Missed info p pkt s s' i m)
    (hsafe : Safe info p s g) (hnew : New p pkt s.mshrQueue) : Single s'.mshrQueue :=
  hsafe.single.add h.entries h.list h.fresh (hnew.block_ne hsafe.mshrs h.block)

theorem Missed.blocking {pkt : Packet} {m : MSHR} (h : Missed info p pkt s s' i m)
    (hsafe : Safe info p s g) : Blocking s' :=
  hsafe.blocking.use h.entries (fun _ hj _ => h.list ▸ List.mem_append_left _ hj) h.noTargets.2
    fun _ hi _ => absurd hi h.fresh

/-- A register is given to a miss. -/
theorem Safe.allocateRegister (h : Safe info p s g) (now : ℕ) {pkt : Packet} (time : ℕ)
    (hfull : s.mshrQueue.isFull = false) (hnew : New p pkt s.mshrQueue) :
    ((pkt.upper true).any s.above = true ∧ s.allocateMissBuffer info p now pkt time = none) ∨
      (pkt.upper true).any s.above = false ∧ ∃ i s' g',
        s.allocateMissBuffer info p now pkt time = some (i, s') ∧ i ∈ s'.mshrQueue.readyList ∧
        (s'.mshrQueue.entries i).block = (pkt.blockAddr p.blkSize, pkt.secure, pkt.uncacheable) ∧
        i ∉ s.mshrQueue.allocatedList ∧ Used info p s g s' i [missOp p now pkt time] g' [] := by
  rcases h.allocateMissBuffer now pkt time hfull with hfails | ⟨hasks, i, m, s', hs', hm, hmissed⟩
  · exact Or.inl hfails
  have hstep : MissRegister.step info ⟨s.mshrQueue.entries i, s.order, s.above⟩
      (missOp p now pkt time) =
      some (⟨m, s'.order, s'.above⟩, []) := by
    rw [missOp, MissRegister.step, hm, Option.map_some, hmissed.order]
  have hself : s'.mshrQueue.entries i = m := by
    rw [hmissed.entries]
    exact Function.update_self _ _ _
  have hnt : s'.noTargets = s'.noTargetMSHR.isSome := by
    rw [hmissed.noTargets.1, hmissed.noTargets.2]
    exact h.noTargets
  obtain ⟨g', hused⟩ := h.use _ (o := missOp p now pkt time) hmissed.free
    (fun _ => MissRegister.Op.noConfusion) hstep (le_of_le_of_eq (Nat.le_succ _) hmissed.order.symm)
    hmissed.entries hmissed.consistent hmissed.sizes hmissed.noMSHRs hmissed.writes hnt
    (hmissed.single h hnew) (hmissed.blocking h)
  exact Or.inr ⟨hasks, i, s', g', hs', hmissed.ready, hself.symm ▸ hmissed.block,
    hmissed.fresh, hused⟩

theorem track_after {s₁ : MissPath} (hqueue : s₁.mshrQueue = s.mshrQueue) {n : ℕ}
    (horder : s₁.order = s.order + n) (habove : s₁.above = s.above) (event : Event) :
    track info g s (event.after n) = track info g s₁ event := by
  unfold track Event.after
  cases event.register with
  | none => rfl
  | some r =>
      obtain ⟨i, os⟩ := r
      have hregister : s₁.register i = ⟨s.mshrQueue.entries i, s.order + n, s.above⟩ := by
        rw [register, hqueue, horder, habove]
      have hlater : Replays info (⟨s.mshrQueue.entries i, s.order, s.above⟩, g i)
          (List.replicate n .elsewhere) (⟨s.mshrQueue.entries i, s.order + n, s.above⟩, g i) :=
        .elsewhere _ _ _ n _
      simp only [Option.map_some]
      rw [hregister, ← hlater.replay_append]
      rfl

theorem servedBy_after (n : ℕ) (event : Event) (i : ℕ) :
    (event.after n).servedBy i = event.servedBy i := by
  unfold Event.servedBy Event.after
  cases event.register <;> rfl

/-- A request joins a register, unless the register above that it has to mark is pending already. -/
theorem Safe.coalesce (h : Safe info p s g) (now : ℕ) {pkt : Packet} (time : ℕ)
    (hi : i ∈ s.mshrQueue.allocatedList) (hcmd : pkt.cmd ≠ .hardPFReq) :
    (((s.mshrQueue.entries i).asks info pkt).any s.above = true ∧
      s.coalesce info p now pkt time i = none) ∨
      ((s.mshrQueue.entries i).asks info pkt).any s.above = false ∧ ∃ s' g',
        s.coalesce info p now pkt time i = some s' ∧
        Used info p s g s' i [.coalesce now pkt time (p.allocOnFill pkt.cmd)] g' [] := by
  have hhas : (s.mshrQueue.entries i).hasTargets = true := h.mshrs.targets i hi
  have hne : (s.mshrQueue.entries i).targets.list ≠ [] :=
    MissRegister.targets_ne_nil (s := s.register i) hhas
  have hlinked : (s.mshrQueue.entries i).Linked s.above := (h.registers.good i).linked
  unfold MissPath.coalesce
  rcases MSHR.allocateTarget_spec info now time s.order (p.allocOnFill pkt.cmd)
    hne hcmd hlinked with
    ⟨hasks, hnone⟩ | ⟨hasks, m, t, hm, hjoined, -⟩
  · exact Or.inl ⟨hasks, by rw [hnone, Option.map_none]⟩
  refine Or.inr ⟨hasks, ?_⟩
  have htargets : m.hasTargets = true := by
    unfold MSHR.hasTargets at hhas ⊢
    rcases hjoined.lists with ⟨hlist, -⟩ | ⟨hlist, -⟩
    · rw [hlist]
      simp
    · rw [hlist]
      exact hhas
  have hdemanded : Demanded m := demanded_of_allocateTarget hm hcmd
  let o : MissRegister.Op := .coalesce now pkt time (p.allocOnFill pkt.cmd)
  let above' := s.above.set ((s.mshrQueue.entries i).asks info pkt)
  have hp : MissRegister.promise info (s.register i, g i) o := ⟨hhas, hcmd⟩
  have hstep : MissRegister.step info ⟨s.mshrQueue.entries i, s.order, s.above⟩ o =
      some (⟨m, s.order + 1, above'⟩, []) := by
    rw [MissRegister.step, hm, Option.map_some]
  have hplace := MSHR.place_allocateTarget hm
  have hsingle : Single (s.mshrQueue.update i m) :=
    h.single.update rfl (fun _ hj => hj) (congrArg Prod.fst hplace)
  have hconsistent := h.mshrs.update hi (congrArg Prod.snd hplace) htargets
  rw [hm, Option.map_some]
  dsimp only
  split
  · -- the register takes no more requests
    let s' : MissPath := { s with
      mshrQueue := s.mshrQueue.update i m
      order := s.order + 1
      above := above'
      noTargetMSHR := some i
      noTargets := true }
    have hblocking : Blocking s' := by
      intro j hj
      obtain rfl := Option.some.inj hj
      refine ⟨hi, ?_⟩
      change Demanded (Function.update s.mshrQueue.entries i m i)
      rwa [Function.update_self]
    obtain ⟨g', hused⟩ := h.use s' hp (fun _ => MissRegister.Op.noConfusion)
      hstep (Nat.le_succ _) rfl
      hconsistent ⟨rfl, rfl⟩ h.noMSHRs ⟨rfl, rfl⟩ rfl hsingle hblocking
    exact ⟨s', g', rfl, hused⟩
  · obtain ⟨g', hused⟩ := h.use_update hi hp (fun _ => MissRegister.Op.noConfusion)
      hstep (Nat.le_succ _)
      hplace htargets fun _ _ => hdemanded
    exact ⟨_, g', rfl, hused⟩

/-- How a miss ends that needs an entry of the write buffer, or not: it fails under a condition, or
everything is kept. -/
def Outcome (info : CmdInfo) (p : CacheParams) (s : MissPath) (g : ℕ → MissRegister.History)
    (pkt : Packet) (time : ℕ) (needs : Bool) (fails : Prop) (r : Option (MissPath × Event)) :
    Prop :=
  (fails ∧ r = none) ∨ ¬fails ∧ ∃ s' event, r = some (s', event) ∧
    ∀ leaves, Kept info p s g s' event (needs = true → ReadyBy p pkt time s) leaves

theorem Outcome.congr {pkt pkt' : Packet} {time : ℕ} {needs needs' : Bool} {fails fails' : Prop}
    {r : Option (MissPath × Event)} (h : Outcome info p s g pkt time needs fails r)
    (hneeds : needs = needs') (hfails : fails ↔ fails')
    (hpkt : ReadyBy p pkt time s ↔ ReadyBy p pkt' time s := by rfl) :
    Outcome info p s g pkt' time needs' fails' r := by
  unfold Outcome at h ⊢
  rwa [← hneeds, ← hfails, ← hpkt]

theorem Safe.outcome_forward (h : Safe info p s g) (now : ℕ) {pkt : Packet} (time : ℕ) :
    Outcome info p s g pkt time true (¬Buffered info pkt ∨ s.writeBuffer.freeList.length < 1)
      (s.forward info p now pkt time) := by
  unfold MissPath.forward
  by_cases hbuffered : Buffered info pkt
  case neg =>
    refine Or.inl ⟨Or.inl hbuffered, ?_⟩
    rw [h.allocateWriteBuffer_eq_none now time hbuffered, Option.map_none]
  rcases h.allocateWriteBuffer now time hbuffered with
    ⟨hfree, hnone⟩ | ⟨hfree, i, e, s', hs', htaken, -, -, hsafe⟩
  · exact Or.inl ⟨Or.inr (by simp [hfree]), by rw [hnone, Option.map_none]⟩
  · have hpos := List.length_pos_of_ne_nil hfree
    refine Or.inr ⟨?_, s', nothing, by rw [hs', Option.map_some], fun leaves => ⟨hsafe,
      fun _ => (List.append_nil _).symm, fun htime hfifo => htaken.fifo h.writes hfifo (htime rfl),
      htaken.stay leaves⟩⟩
    rintro (hnot | hfew)
    · exact hnot hbuffered
    · omega

theorem Safe.outcome_miss (h : Safe info p s g) (now : ℕ) {pkt : Packet} (time : ℕ)
    (hfull : s.mshrQueue.isFull = false) (hnew : New p pkt s.mshrQueue) :
    Outcome info p s g pkt time false ((pkt.upper true).any s.above = true)
      (s.miss info p now pkt time) := by
  unfold MissPath.miss
  rcases h.allocateRegister now time hfull hnew with
    ⟨hasks, hnone⟩ | ⟨hasks, i, s', g', hs', -, -, -, hused⟩
  · exact Or.inl ⟨hasks, by rw [hnone, Option.map_none]⟩
  · exact Or.inr ⟨by simp [hasks], s', _, by rw [hs', Option.map_some], hused.kept _⟩

/-- A miss of a block that has no register. -/
theorem Safe.outcome_alone (h : Safe info p s g) (now : ℕ) {pkt : Packet} (time : ℕ)
    (hfull : s.mshrQueue.isFull = false) (hnew : New p pkt s.mshrQueue) :
    Outcome info p s g pkt time (info.isEviction pkt.cmd || pkt.cmd == .writeClean)
      (if info.isEviction pkt.cmd || pkt.cmd == .writeClean then
        ¬Buffered info pkt ∨ s.writeBuffer.freeList.length < 1
      else (pkt.upper true).any s.above = true)
      (s.baseHandleTimingReqMiss info p now pkt time none) := by
  unfold baseHandleTimingReqMiss
  dsimp only
  cases (info.isEviction pkt.cmd || pkt.cmd == .writeClean) with
  | true => exact h.outcome_forward now time
  | false => exact h.outcome_miss now time hfull hnew

/-- A miss of a block that has a register. -/
theorem Safe.outcome_joins (h : Safe info p s g) (now : ℕ) {pkt : Packet} (time : ℕ)
    (hi : i ∈ s.mshrQueue.allocatedList) :
    Outcome info p s g pkt time (pkt.cmd == .writeClean) (info.isWriteback pkt.cmd = true ∨
      if pkt.cmd = .cleanEvict then False
      else if pkt.cmd = .writeClean then ¬Buffered info pkt ∨ s.writeBuffer.freeList.length < 1
      else pkt.cmd = .hardPFReq ∨ ((s.mshrQueue.entries i).asks info pkt).any s.above = true)
      (s.baseHandleTimingReqMiss info p now pkt time (some i)) := by
  unfold baseHandleTimingReqMiss
  dsimp only
  cases info.isWriteback pkt.cmd with
  | true => exact Or.inl ⟨Or.inl rfl, rfl⟩
  | false =>
      simp only [Bool.false_eq_true, if_false, false_or]
      split
      · next hevict =>
          -- nothing is done
          exact Or.inr ⟨id, s, nothing, rfl, fun _ => (Found.refl h).kept h _⟩
      · split
        · next hclean =>
            rw [hclean]
            exact h.outcome_forward now time
        · next hclean =>
            rw [beq_eq_false_iff_ne.2 hclean]
            by_cases hcmd : pkt.cmd = .hardPFReq
            · refine Or.inl ⟨Or.inl hcmd, ?_⟩
              unfold MissPath.coalesce MSHR.allocateTarget
              rw [if_pos hcmd, Option.map_none, Option.map_none]
            · rcases h.coalesce now time hi hcmd with ⟨htwice, hnone⟩ | ⟨honce, s', g', hs', hused⟩
              · exact Or.inl ⟨Or.inr htwice, by rw [hnone, Option.map_none]⟩
              · refine Or.inr ⟨by simp [hcmd, honce], s', _, ?_, hused.kept _⟩
                rw [hs', Option.map_some]

/-- A miss fails only if it does not come, if it needs an entry of the write buffer and there is
none, or if it has to mark a register above that is pending already. -/
theorem Safe.handleTimingReqMiss (h : Safe info p s g) (now : ℕ) (pkt : Packet) (time : ℕ)
    (hfull : s.mshrQueue.isFull = false) :
    Outcome info p s g pkt time (s.toWriteBuffer info p pkt) (s.Refused info p pkt ∨
      s.writeBuffer.freeList.length < (s.toWriteBuffer info p pkt).toNat ∨
      (s.asks info p pkt).any s.above = true) (s.handleTimingReqMiss info p now pkt time) := by
  obtain ⟨found, hfound, hsome, -⟩ :=
    h.mshrs.findMatch_spec (pkt.blockAddr p.blkSize) pkt.secure true
  unfold MissPath.handleTimingReqMiss
  by_cases hlocked : pkt.cmd = .lockedRMWWriteReq
  · exact Or.inl ⟨Or.inl (Or.inl hlocked), if_pos hlocked⟩
  rw [if_neg hlocked]
  cases hunc : pkt.uncacheable with
  | true =>
      -- uncacheable requests join nothing
      have hto : s.toWriteBuffer info p pkt = info.isWrite pkt.cmd := by
        rw [toWriteBuffer, hunc, if_pos rfl]
      rw [if_pos rfl]
      cases hw : info.isWrite pkt.cmd with
      | true =>
          refine (h.outcome_forward now time).congr (hto.trans hw).symm ?_
          simp [Refused, asks, hto, hw, hunc, hlocked]
      | false =>
          cases hr : (info.isRead pkt.cmd || info.isCleanInvalidateRequest pkt.cmd) with
          | true =>
              have hkind : info.isRead pkt.cmd = false →
                  info.isCleanInvalidateRequest pkt.cmd = true := by
                intro hread
                rwa [hread, Bool.false_or] at hr
              refine (h.outcome_miss now time hfull (Or.inl hunc)).congr (hto.trans hw).symm ?_
              simp +contextual [Refused, asks, hto, hw, hunc, hlocked, hkind]
          | false =>
              rw [Bool.or_eq_false_iff] at hr
              exact Or.inl ⟨Or.inl (Or.inr (Or.inl ⟨hunc, hw, hr⟩)), rfl⟩
  | false =>
      rw [if_neg Bool.false_ne_true, hfound, Option.bind_some]
      cases hsw : info.isSWPrefetch pkt.cmd with
      | false =>
          rw [if_pos (by decide)]
          cases found with
          | none =>
              have hto : s.toWriteBuffer info p pkt =
                  (info.isEviction pkt.cmd || pkt.cmd == .writeClean) := by
                rw [toWriteBuffer, hunc, hfound]
                rfl
              refine (h.outcome_alone now time hfull (Or.inr hfound)).congr hto.symm ?_
              rw [← hto]
              cases hb : s.toWriteBuffer info p pkt <;>
                simp [Refused, asks, hb, hunc, hfound, hsw, hlocked]
          | some i =>
              have hto : s.toWriteBuffer info p pkt = (pkt.cmd == .writeClean) := by
                rw [toWriteBuffer, hunc, hfound]
                simp [hsw]
              obtain ⟨hi, -, -⟩ := hsome i rfl
              refine (h.outcome_joins now time hi).congr hto.symm ?_
              by_cases hclean : pkt.cmd = .writeClean
              · rw [hclean] at hsw
                simp [Refused, asks, hto, hclean, hunc, hfound, hsw, or_assoc]
              · rw [beq_eq_false_iff_ne.2 hclean] at hto
                by_cases hevict : pkt.cmd = .cleanEvict
                · rw [hevict] at hsw
                  simp [Refused, asks, hto, hevict, hunc, hfound, hsw]
                · simp [Refused, asks, hto, hclean, hevict, hunc, hfound, hsw, hlocked, or_assoc]
      | true =>
          rw [if_neg (by decide)]
          cases hneeds : info.needsResponse pkt.cmd with
          | false => exact Or.inl ⟨Or.inl (Or.inr (Or.inr (Or.inl ⟨hunc, hsw, hneeds⟩))), rfl⟩
          | true =>
              rw [if_neg (by decide)]
              cases found with
              | some i =>
                  refine Or.inr ⟨?_, s, nothing, rfl, fun _ => (Found.refl h).kept h _⟩
                  simp [Refused, asks, toWriteBuffer, hunc, hfound, hsw, hneeds, hlocked]
              | none =>
                  -- the copy is not from a register above
                  have hto : s.toWriteBuffer info p pkt =
                      (info.isEviction pkt.cmd || pkt.cmd == .writeClean) := by
                    rw [toWriteBuffer, hunc, hfound]
                    rfl
                  have hnew : New p pkt.copy s.mshrQueue := Or.inr hfound
                  refine (h.outcome_alone now time hfull hnew).congr hto.symm ?_
                  rw [Packet.cmd_copy, ← hto,
                    show Buffered info pkt.copy ↔ Buffered info pkt from Iff.rfl]
                  cases hb : s.toWriteBuffer info p pkt <;>
                    simp [Refused, asks, hb, hunc, hfound, hsw, hneeds, hlocked]

/-- The same targets are there. -/
theorem hasTargets_of_look {m m' : MSHR}
    (h : m'.targets.list.map MSHR.look = m.targets.list.map MSHR.look) :
    m'.hasTargets = m.hasTargets := by
  have hempty := congrArg List.isEmpty h
  rw [List.isEmpty_map, List.isEmpty_map] at hempty
  unfold MSHR.hasTargets
  rw [hempty]

/-- A locked read that hits takes a register, which is in service at once. -/
theorem Safe.lockedHit (h : Safe info p s g) (now : ℕ) {pkt : Packet}
    (hfull : s.mshrQueue.isFull = false) (hcmd : pkt.cmd = .lockedRMWReadReq) :
    (Fails info p s (.lockedHit now pkt) ∧ s.lockedHit info p now pkt = none) ∨
      ¬Fails info p s (.lockedHit now pkt) ∧
      ∃ s' event, s.lockedHit info p now pkt = some (s', event) ∧
        ∀ leaves, Kept info p s g s' event True leaves := by
  obtain ⟨found, hfound, -⟩ :=
    h.mshrs.findMatch_spec (pkt.blockAddr p.blkSize) pkt.secure true
  have hfails : Fails info p s (.lockedHit now pkt) ↔ pkt.uncacheable = true ∨
      found.isSome = true := by
    unfold Fails
    dsimp only
    rw [hfound, Option.isSome_iff_exists]
    simp only [Option.some.injEq]
  rw [hfails]
  unfold MissPath.lockedHit
  cases hunc : pkt.uncacheable with
  | true => exact Or.inl ⟨Or.inl rfl, rfl⟩
  | false =>
  rw [if_neg Bool.false_ne_true, hfound, Option.bind_some]
  cases found with
  | some i => exact Or.inl ⟨Or.inr rfl, rfl⟩
  | none =>
  dsimp only
  refine Or.inr ⟨by simp, ?_⟩
  -- the packet of its own is not from a register above
  rcases h.allocateMissBuffer now pkt.copy now hfull with
    ⟨hasks, -⟩ | ⟨-, i, m, s₁, hs₁, hm, hmissed⟩
  · rw [Packet.upper_copy] at hasks
    cases hasks
  have hentry : s₁.mshrQueue.entries i = m := by
    rw [hmissed.entries]
    exact Function.update_self _ _ _
  obtain ⟨m', above', hm', hservice, hlook, -, -, -, -⟩ :=
    MSHR.markInService_spec info (m := m) false hmissed.linked hmissed.allocated.idle.1
  obtain ⟨t, ht, -⟩ := hmissed.allocated.targets
  have htargets : m'.hasTargets = true := by
    rw [hasTargets_of_look hlook, MSHR.hasTargets, ht]
    rfl
  let mark : MSHR → Option MSHR := fun _ => some m'
  have hmark : mark (s₁.mshrQueue.entries i) = some m' := rfl
  obtain ⟨q, hq, hentries, hlist, -, -, hsize, hreserve, hcount, hconsistent⟩ :=
    hmissed.consistent.send hmissed.ready hmark hservice htargets
  let o : MissRegister.Op :=
    .lock now (pkt.blockAddr p.blkSize) p.blkSize pkt.copy (p.allocOnFill pkt.cmd)
  let s' : MissPath := { s₁ with
    mshrQueue := q
    above := above' }
  have hp : MissRegister.promise info (s.register i, g i) o := ⟨hmissed.free, hcmd⟩
  have hstep : MissRegister.step info ⟨s.mshrQueue.entries i, s.order, s.above⟩ o =
      some (⟨m', s'.order, s'.above⟩, []) := by
    have hm : (s.mshrQueue.entries i).allocate info now (pkt.blockAddr p.blkSize)
        p.blkSize pkt.copy now
        s.order (p.allocOnFill pkt.cmd) s.above = some (m, s₁.above) := hm
    rw [MissRegister.step, hm, Option.bind_some, hm', Option.map_some, ← hmissed.order]
  have hentries' : q.entries = Function.update s.mshrQueue.entries i m' := by
    rw [hentries, hmissed.entries, Function.update_idem]
  have hfull' : s'.noMSHRs = q.isFull := by
    change s₁.noMSHRs = q.isFull
    rw [hmissed.noMSHRs]
    unfold EntryQueue.isFull
    rw [hcount, hsize, hreserve]
  have hnt : s'.noTargets = s'.noTargetMSHR.isSome := by
    change s₁.noTargets = s₁.noTargetMSHR.isSome
    rw [hmissed.noTargets.1, hmissed.noTargets.2]
    exact h.noTargets
  have hsingle : Single q := by
    refine (hmissed.single h (Or.inr hfound)).update hentries (fun j hj => hlist ▸ hj) ?_
    rw [hentry]
    exact MSHR.block_markInService hm'
  have hblocking : Blocking s' := by
    refine h.blocking.use hentries' (fun j hj _ => ?_) hmissed.noTargets.2
      fun _ hi _ => absurd hi hmissed.fresh
    change j ∈ q.allocatedList
    rw [hlist, hmissed.list]
    exact List.mem_append_left _ hj
  have hle : s.order ≤ s'.order := le_of_le_of_eq (Nat.le_succ _) hmissed.order.symm
  obtain ⟨g', hused⟩ := h.use s' hp (fun _ => MissRegister.Op.noConfusion)
    hstep hle hentries' hconsistent
    ⟨hsize.trans hmissed.sizes.1, hreserve.trans hmissed.sizes.2⟩ hfull' hmissed.writes hnt
      hsingle hblocking
  refine ⟨s', ⟨some (i, [o]), []⟩, ?_, hused.kept True⟩
  rw [hs₁, Option.bind_some]
  unfold EntryQueue.markInServiceWith
  dsimp only
  rw [hentry, hm', Option.bind_some, hq]
  rfl

/-- A snoop takes no target away. -/
theorem hasTargets_of_snoop {m m' : MSHR} {pkt : Packet} {order : ℕ}
    (h : MSHR.Snooped info pkt order m m') (hhas : m.hasTargets = true) : m'.hasTargets = true := by
  have hlength : m.targets.list.length ≤ m'.targets.list.length := by
    rcases h.targets with heq | heq | ⟨-, t, -, -, -, hlist, -⟩
    · rw [heq]
    · have hview := congrArg List.length (MSHR.view_replaceUpgrades m.targets)
      rw [List.length_map, List.length_map] at hview
      rw [heq, hview]
    · rw [hlist, List.length_append]
      exact Nat.le_add_right _ _
  unfold MSHR.hasTargets at hhas ⊢
  simp only [Bool.not_eq_true', List.isEmpty_eq_false_iff] at hhas ⊢
  intro hnil
  rw [hnil] at hlength
  exact hhas (List.length_eq_zero_iff.1 (Nat.eq_zero_of_le_zero hlength))

/-- A snoop finds a register or a write, and is noted there. -/
theorem Safe.recvTimingSnoopReq (h : Safe info p s g) (now : ℕ) {pkt : Packet}
    (mustCheckAbove : Bool) (hcmd : pkt.cmd ≠ .lockedRMWReadReq)
    (hpanic : info.needsWritable pkt.cmd = info.isInvalidate pkt.cmd ∨ pkt.cacheMaintenance = true)
    (hread : info.isRead pkt.cmd = true → info.isInvalidate pkt.cmd = false →
      info.needsWritable pkt.cmd = false) :
    ∃ s' event, s.recvTimingSnoopReq info p now pkt mustCheckAbove = some (s', event) ∧
      Kept info p s g s' event True fun w => Leaves info p s w (.snoop now pkt mustCheckAbove) := by
  obtain ⟨found, hfound, hsome, -⟩ :=
    h.mshrs.findMatch_spec (pkt.blockAddr p.blkSize) pkt.secure true
  unfold MissPath.recvTimingSnoopReq
  rw [hfound, Option.bind_some]
  cases found with
  | none =>
      obtain ⟨s', hs', hfound'⟩ := h.snoopWriteBuffer now mustCheckAbove hread
      exact ⟨s', nothing, by rw [hs', Option.map_some], hfound'.kept h True⟩
  | some i =>
      obtain ⟨hi, -, -⟩ := hsome i rfl
      dsimp only
      split
      · exact ⟨s, nothing, rfl, (Found.refl h).kept h True⟩
      · have hhas : (s.mshrQueue.entries i).hasTargets = true := h.mshrs.targets i hi
        have hne : (s.mshrQueue.entries i).targets.list ≠ [] :=
          MissRegister.targets_ne_nil (s := s.register i) hhas
        obtain ⟨r, m, hm, hsnooped⟩ := MSHR.handleSnoop_spec info now s.order s.above hne hpanic
        have hstep : MissRegister.step info ⟨s.mshrQueue.entries i, s.order, s.above⟩
            (.snoop now pkt) =
            some (⟨m, s.order + 1, s.above⟩, []) := by
          rw [MissRegister.step, hm, Option.map_some]
        obtain ⟨g', hused⟩ := h.use_update (o := .snoop now pkt) hi ⟨hhas, hcmd, hpanic⟩
          (fun _ => MissRegister.Op.noConfusion) hstep (Nat.le_succ _) (MSHR.place_handleSnoop hm)
          (hasTargets_of_snoop hsnooped hhas) fun _ hold => hold.snoop hsnooped
        have hkept := hused.kept True fun w => Leaves info p s w (.snoop now pkt mustCheckAbove)
        rw [hm, Option.bind_some]
        dsimp only
        split
        · exact ⟨_, _, rfl, hkept⟩
        · obtain ⟨s', hs', hfound'⟩ := hkept.safe.snoopWriteBuffer now mustCheckAbove hread
          exact ⟨s', _, by rw [hs', Option.map_some], hfound'.after hkept⟩

/-- What a cache below does with the request of a register. -/
theorem Safe.downstream (h : Safe info p s g) (hi : i ∈ s.mshrQueue.allocatedList) {m : MSHR}
    {above' : Above} {o : MissRegister.Op} (hp : MissRegister.promise info (s.register i, g i) o)
    (hown : ∀ above, o ≠ .changeAbove above)
    (hstep : MissRegister.step info (s.register i) o = some (⟨m, s.order, above'⟩, []))
    (hplace : m.place = (s.mshrQueue.entries i).place)
    (hlook : m.targets.list.map MSHR.look = (s.mshrQueue.entries i).targets.list.map MSHR.look)
    (hdeferred : m.deferredTargets = (s.mshrQueue.entries i).deferredTargets) (leaves : ℕ → Prop) :
    Kept info p s g { s with
      mshrQueue := s.mshrQueue.update i m
      above := above' } ⟨some (i, [o]), []⟩ True leaves := by
  have hboth : (m.targets.list ++ m.deferredTargets.list).map MSHR.look =
      ((s.mshrQueue.entries i).targets.list ++ (s.mshrQueue.entries i).deferredTargets.list).map
        MSHR.look := by
    rw [List.map_append, List.map_append, hlook, hdeferred]
  obtain ⟨g', hused⟩ := h.use_update hi hp hown hstep (le_refl _) hplace
    ((hasTargets_of_look hlook).trans (h.mshrs.targets i hi)) fun _ hold => hold.of_look hboth
  exact hused.kept True leaves

end Requests

end MissPath

end OpenCache
