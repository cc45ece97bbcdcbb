/-
**Runs of the miss path.**

What `Gem5/MissPathSends.lean` says of a step holds along every run of a cache, whatever the order
in which requests, evictions, snoops, sends and responses come: the queues are consistent, a block
has one register, the registers serve what joined them once and in order, and no request overtakes
an earlier write to its block on the way to the memory.

Main definitions:

* `OpenCache.MissPath.Run` — the runs of the miss path;
* `OpenCache.MissPath.InTurn` — that an entry is sent in turn.

Main results:

* `OpenCache.MissPath.run_assertions_iff` — **which operations fail an assertion**;
* `OpenCache.MissPath.run_one_register` — **no two registers are for the same cacheable block**;
* `OpenCache.MissPath.run_blocked_iff` — **the cache is blocked exactly while something is used
  up**;
* `OpenCache.MissPath.run_serves_once` — **each register serves what joined it once, and in order**;
* `OpenCache.MissPath.run_writes_stay` — **a write leaves the write buffer only when it may**;
* `OpenCache.MissPath.run_in_turn` — **nothing overtakes an earlier write to its block**.
-/

import OpenCache.Gem5.MissPathSends

set_option relaxedAutoImplicit false
set_option autoImplicit false

namespace OpenCache

namespace MissPath

open QueueItem EntryQueue

variable {info : CmdInfo} {p : CacheParams}

/-! ### What is sent in turn -/

/-- A write is sent before the later ones for its block, and a miss before the writes for its block:
it is older than all of them, or it is a prefetch, which comes after uncacheable writes only. -/
def InTurn (s s' : MissPath) : Next → Prop
  | .write w => ∀ v ∈ s.writeBuffer.readyList, v ≠ w →
      matches' (s.writeBuffer.item w) (s.writeBuffer.item v).blkAddr
        (s.writeBuffer.item v).isSecure = true →
      (s.writeBuffer.item w).order < (s.writeBuffer.item v).order
  | .miss i => ∀ v ∈ s.writeBuffer.readyList,
      matches' (s'.mshrQueue.item i) (s.writeBuffer.item v).blkAddr
        (s.writeBuffer.item v).isSecure = true →
      (s'.mshrQueue.item i).order < (s.writeBuffer.item v).order ∨
        i ∉ s.mshrQueue.allocatedList ∧ (s.writeBuffer.item v).isUncacheable = true

section InTurn

variable {s s' : MissPath} {g : ℕ → MissRegister.History} {i : ℕ}

theorem matches_trans {a b d : QueueEntry} (h : matches' a b.blkAddr b.isSecure = true)
    (h' : matches' a d.blkAddr d.isSecure = true) : matches' b d.blkAddr d.isSecure = true := by
  obtain ⟨haddr, hsecure⟩ := matches_iff.1 h
  obtain ⟨haddr', hsecure'⟩ := matches_iff.1 h'
  exact matches_iff.2 ⟨haddr.symm.trans haddr', hsecure.symm.trans hsecure'⟩

/-- The first write for a block is the oldest one. -/
theorem inTurn_write (hfifo : s.writeBuffer.Fifo) {w : ℕ} {front back : List ℕ}
    (hlist : s.writeBuffer.readyList = front ++ w :: back)
    (hfront : ∀ v ∈ front, ¬matches' (s.writeBuffer.item w) (s.writeBuffer.item v).blkAddr
      (s.writeBuffer.item v).isSecure = true) : InTurn s s' (.write w) := by
  intro v hv hne hmatch
  unfold Fifo at hfifo
  rw [hlist] at hv hfifo
  rcases List.mem_append.1 hv with hv | hv
  · exact absurd hmatch (hfront v hv)
  · have hback := (List.pairwise_cons.1 (List.pairwise_append.1 hfifo).2.1).1
    exact hback v ((List.mem_cons.1 hv).resolve_left hne) hmatch

/-- The front of the write buffer, or a miss that is older. -/
theorem Safe.nextWrite_inTurn (h : Safe info p s g) (hfifo : s.writeBuffer.Fifo) {w : ℕ}
    {rest : List ℕ} (hlist : s.writeBuffer.readyList = w :: rest) {next : Next}
    (hnext : s.nextWrite w = some next) : InTurn s s next := by
  have hw : w ∈ s.writeBuffer.readyList := hlist ▸ List.mem_cons_self
  have hlist' : s.writeBuffer.readyList = [] ++ w :: rest := hlist
  have hturn : InTurn s s (.write w) := inTurn_write hfifo hlist' fun _ hv => by cases hv
  obtain ⟨found, hfound, hsome⟩ := h.mshrs.findPending_spec (h.writes_ready w hw)
  unfold MissPath.nextWrite at hnext
  rw [hfound, Option.map_some] at hnext
  cases found with
  | none =>
      cases hnext
      exact hturn
  | some c =>
      obtain ⟨-, hmatch⟩ := hsome c rfl
      rw [Option.elim_some] at hnext
      split at hnext
      · next horder =>
          cases hnext
          intro v hv hmatch'
          refine Or.inl ?_
          have hsame : matches' (s.mshrQueue.item c) (s.writeBuffer.item w).blkAddr
              (s.writeBuffer.item w).isSecure = true := by
            obtain ⟨haddr, hsecure⟩ := matches_iff.1 hmatch
            exact matches_iff.2 ⟨haddr.symm, hsecure.symm⟩
          by_cases hvw : v = w
          · exact hvw ▸ horder
          · exact lt_trans horder (hturn v hv hvw (matches_trans hsame hmatch'))
      · cases hnext
        exact hturn

/-- A miss that no write for its block waits for, or the first of these writes. -/
theorem Safe.nextMiss_inTurn (h : Safe info p s g) (hfifo : s.writeBuffer.Fifo)
    (hi : i ∈ s.mshrQueue.readyList) {next : Next} (hnext : s.nextMiss i = some next) :
    InTurn s s next := by
  have hsearch : s.writeBuffer.findPending (s.mshrQueue.entries i) =
      some (s.writeBuffer.readyList.find?
      fun v => matches' (s.mshrQueue.item i) (s.writeBuffer.item v).blkAddr
        (s.writeBuffer.item v).isSecure) :=
    h.writes.consistent.findPending_eq (h.targets_ready i hi)
  unfold MissPath.nextMiss at hnext
  rw [hsearch, Option.map_some] at hnext
  cases hfind : s.writeBuffer.readyList.find? fun v => matches' (s.mshrQueue.item i)
      (s.writeBuffer.item v).blkAddr (s.writeBuffer.item v).isSecure with
  | none =>
      rw [hfind] at hnext
      cases hnext
      intro v hv hmatch
      exact absurd hmatch (List.find?_eq_none.1 hfind v hv)
  | some w =>
      rw [hfind] at hnext
      cases hnext
      obtain ⟨hmatch, front, back, hlist, hfront⟩ := List.find?_eq_some_iff_append.1 hfind
      refine inTurn_write hfifo hlist fun v hv hmatch' => ?_
      have hnot := hfront v hv
      obtain ⟨haddr, hsecure⟩ := matches_iff.1 hmatch
      obtain ⟨haddr', hsecure'⟩ := matches_iff.1 hmatch'
      rw [Bool.not_eq_true', Bool.eq_false_iff] at hnot
      exact hnot (matches_iff.2 ⟨haddr.trans haddr', hsecure.trans hsecure'⟩)

/-- A prefetch has no cacheable write for its block to wait for. -/
theorem Safe.nextPrefetch_inTurn (h : Safe info p s g) {now : ℕ} {pkt : Packet}
    (hfull : s.mshrQueue.isFull = false) {next : Next} {os : List MissRegister.Op}
    (hnext : s.nextPrefetch info p now pkt = some (some next, s', os)) : InTurn s s' next := by
  obtain ⟨found, hfound, -, -⟩ :=
    h.mshrs.findMatch_spec (pkt.blockAddr p.blkSize) pkt.secure true
  obtain ⟨found', hfound', -, hnone⟩ :=
    h.writes.consistent.findMatch_spec (pkt.blockAddr p.blkSize) pkt.secure true
  unfold MissPath.nextPrefetch at hnext
  rw [hfound, Option.bind_some] at hnext
  cases found with
  | some j => cases hnext
  | none =>
      dsimp only at hnext
      rw [hfound', Option.bind_some] at hnext
      cases found' with
      | some w => cases hnext
      | none =>
          dsimp only at hnext
          rcases h.allocateRegister now now hfull (Or.inr hfound) with
            ⟨-, hfails⟩ | ⟨-, i, s₁, g', hs₁, -, hblock, hfresh, -⟩
          · rw [hfails, Option.map_none] at hnext
            cases hnext
          · rw [hs₁, Option.map_some] at hnext
            cases hnext
            intro v hv hmatch
            obtain ⟨haddr, hsecure⟩ := matches_iff.1 hmatch
            have haddr' : (s₁.mshrQueue.item i).blkAddr = pkt.blockAddr p.blkSize :=
              congrArg Prod.fst hblock
            have hsecure' : (s₁.mshrQueue.item i).isSecure = pkt.secure :=
              congrArg (fun b => b.2.1) hblock
            exact Or.inr ⟨hfresh, (hnone rfl v (h.writes.mem_ready.1 hv) (matches_iff.2
              ⟨haddr.symm.trans haddr', hsecure.symm.trans hsecure'⟩)).2⟩

/-- **What is sent next is sent in turn.** -/
theorem Safe.getNextQueueEntry_inTurn (h : Safe info p s g) (hfifo : s.writeBuffer.Fifo) {now : ℕ}
    {prefetch : Option Packet} {next : Next} {os : List MissRegister.Op}
    (hnext : s.getNextQueueEntry info p now prefetch = some (some next, s', os)) :
    InTurn s s' next := by
  unfold MissPath.getNextQueueEntry at hnext
  dsimp only at hnext
  split at hnext
  · next w _ hw =>
      rw [Option.filter_eq_some_iff] at hw
      obtain ⟨rest, hlist⟩ := (getNext_eq_some hw.1).1
      obtain ⟨next', hnext', heq⟩ := Option.map_eq_some_iff.1 hnext
      cases heq
      exact h.nextWrite_inTurn hfifo hlist hnext'
  · next j _ hj =>
      obtain ⟨next', hnext', heq⟩ := Option.map_eq_some_iff.1 hnext
      cases heq
      exact h.nextMiss_inTurn hfifo (mem_of_getNext hj) hnext'
  · split at hnext
    · next pkt hpkt =>
        rw [Option.filter_eq_some_iff, Bool.and_eq_true] at hpkt
        exact h.nextPrefetch_inTurn (isFull_of_canPrefetch hpkt.2.1) hnext
    · cases hnext

end InTurn

/-! ### Runs -/

/-- The machine of the miss path, with the histories of its registers. -/
abbrev machine (info : CmdInfo) (p : CacheParams)
    (x : MissPath × (ℕ → MissRegister.History)) (o : Op) :
    Except Unit ((MissPath × (ℕ → MissRegister.History)) × Event) :=
  Runs.withHistory (perform info p) (note info) x o

/-- The runs of the miss path, with what their operations did. -/
abbrev Run (info : CmdInfo) (p : CacheParams) :
    List Event → MissPath × (ℕ → MissRegister.History) → Prop :=
  Runs.Run (machine info p) (promise info p) (init p, fun _ => .init)

/-- The runs in which no write is ready before the earlier writes for its block. -/
abbrev TimelyRun (info : CmdInfo) (p : CacheParams) :
    List Event → MissPath × (ℕ → MissRegister.History) → Prop :=
  Runs.Run (machine info p) (fun x o => promise info p x o ∧ Timely info p x.1 o)
    (init p, fun _ => .init)

instance (pkt : Packet) : Decidable (Buffered info pkt) := inferInstanceAs (Decidable (_ ∧ _))

instance (pkt : Packet) (time : ℕ) (s : MissPath) : Decidable (ReadyBy p pkt time s) :=
  inferInstanceAs (Decidable (∀ j ∈ s.writeBuffer.readyList, _))

instance (x : MissPath × (ℕ → MissRegister.History)) (o : Op) : Decidable (promise info p x o) := by
  cases o <;> (dsimp only [promise]; infer_instance)

instance (s : MissPath) (o : Op) : Decidable (Timely info p s o) := by
  cases o <;> (dsimp only [Timely]; infer_instance)

section Run

variable {s s' : MissPath} {g g' : ℕ → MissRegister.History} {o : Op} {event : Event}
  {trace : List Event}

theorem perform_eq_ok : perform info p s o = .ok (s', event) ↔
    s.step info p o = some (s', event) := by
  unfold perform
  cases s.step info p o with
  | none => simp
  | some r => simp

theorem perform_eq_error : perform info p s o = .error () ↔ s.step info p o = none := by
  unfold perform
  cases s.step info p o with
  | none => simp
  | some r => simp

/-- The constructor makes a cache that is not blocked. -/
theorem safe_init (hmshrs : 0 < p.mshrs) (hbuffers : 0 < p.writeBuffers) :
    Safe info p (init p) fun _ => .init := by
  have hnone : ∀ {q : EntryQueue MSHR} {i}, q = .init p.mshrs 0 .empty → i ∉ q.allocatedList := by
    rintro _ i rfl hi
    cases hi
  have hwrites : Writes info (init p).writeBuffer 0 := by
    refine ⟨.init _ _ rfl, ?_, ?_, ?_, List.Pairwise.nil⟩
    · intro i hi
      cases hi
    · intro i hi
      cases hi
    · intro i hi
      cases hi
  refine ⟨.init _ _ rfl, fun i hi => absurd hi (hnone rfl),
    fun _ _ _ hr => absurd hr List.not_mem_nil, fun _ => ⟨[], .nil⟩, hwrites,
    ⟨⟨rfl, rfl⟩, rfl, rfl⟩, ?_, ?_, rfl, fun i hi => by cases hi⟩
  · have hfull : (init p).mshrQueue.isFull = false := by
      rw [isFull, decide_eq_false_iff_not]
      change ¬(((p.mshrs + 0 : ℕ) : ℤ) - (0 : ℕ) ≤ 0)
      omega
    exact hfull.symm
  · have hfull : (init p).writeBuffer.isFull = false := by
      rw [isFull, decide_eq_false_iff_not]
      change ¬(((p.writeBuffers + p.mshrs : ℕ) : ℤ) - (p.mshrs : ℕ) ≤ 0)
      omega
    exact hfull.symm

/-- A step of the machine. -/
theorem step_kept (h : Safe info p s g) (hp : promise info p (s, g) o)
    (hstep : machine info p (s, g) o = .ok ((s', g'), event)) : g' = track info g s event ∧
      Kept info p s g s' event (Timely info p s o) fun w => Leaves info p s w o := by
  obtain ⟨hok, rfl⟩ := Runs.withHistory_eq_ok.1 hstep
  rw [perform_eq_ok] at hok
  rcases step_spec h hp with ⟨-, hnone⟩ | ⟨-, s₁, event₁, hsome, hkept⟩
  · rw [hnone] at hok
    cases hok
  · rw [hsome] at hok
    cases hok
    exact ⟨rfl, hkept⟩

/-- What holds after every run. -/
theorem run_invariant (hmshrs : 0 < p.mshrs) (hbuffers : 0 < p.writeBuffers)
    (h : Run info p trace (s, g)) :
    Safe info p s g ∧ ∀ i, (g i).served = servedAlong i trace := by
  let P : List Event → MissPath × (ℕ → MissRegister.History) → Prop := fun trace x =>
    Safe info p x.1 x.2 ∧ ∀ i, (x.2 i).served = servedAlong i trace
  refine h.invariant P ⟨safe_init hmshrs hbuffers, fun _ => rfl⟩ ?_
  rintro trace ⟨s₁, g₁⟩ o ⟨s₂, g₂⟩ event ⟨hsafe, hserved⟩ hp hstep
  obtain ⟨rfl, hkept⟩ := step_kept hsafe hp hstep
  refine ⟨hkept.safe, fun i => ?_⟩
  rw [hkept.served, hserved, servedAlong, servedAlong, List.flatMap_append, List.flatMap_singleton]

/-- **No two registers are for the same cacheable block.** -/
theorem run_one_register (hmshrs : 0 < p.mshrs) (hbuffers : 0 < p.writeBuffers)
    (h : Run info p trace (s, g)) :
    ∀ i ∈ s.mshrQueue.allocatedList, ∀ j ∈ s.mshrQueue.allocatedList,
      (s.mshrQueue.item i).blkAddr = (s.mshrQueue.item j).blkAddr →
      (s.mshrQueue.item i).isSecure = (s.mshrQueue.item j).isSecure →
      (s.mshrQueue.item i).isUncacheable = false →
      (s.mshrQueue.item j).isUncacheable = false → i = j := by
  intro i hi j hj haddr hsecure hcacheable hcacheable'
  refine (run_invariant hmshrs hbuffers h).1.single i hi j hj ?_ hcacheable
  exact Prod.ext haddr (Prod.ext hsecure (hcacheable.trans hcacheable'.symm))

/-- Two reads of a block, and one of another block: two registers. -/
theorem run_one_register_two : ∃ trace s g, Run .usual .tiny trace (s, g) ∧
    s.mshrQueue.allocatedList = [0, 1] ∧ (s.mshrQueue.entries 0).getNumTargets = 1 ∧
    ∀ i ∈ s.mshrQueue.allocatedList, ∀ j ∈ s.mshrQueue.allocatedList,
      (s.mshrQueue.item i).blkAddr = (s.mshrQueue.item j).blkAddr →
      (s.mshrQueue.item i).isSecure = (s.mshrQueue.item j).isSecure →
      (s.mshrQueue.item i).isUncacheable = false →
      (s.mshrQueue.item j).isUncacheable = false → i = j := by
  have hrun : ∃ trace x, Run .usual .tiny trace x ∧ x.1.mshrQueue.allocatedList = [0, 1] ∧
      (x.1.mshrQueue.entries 0).getNumTargets = 1 :=
    Runs.exists_run_of_exec [.request 0 [] 0 (.plain .readReq) 1,
      .request 0 [] 0 { Packet.plain .readReq with addr := 64 } 1] (by decide)
  obtain ⟨trace, ⟨s, g⟩, hrun, hlist, htargets⟩ := hrun
  exact ⟨trace, s, g, hrun, hlist, htargets, run_one_register (by decide) (by decide) hrun⟩

/-- **The cache is blocked exactly while something is used up**: every register is in use, the write
buffer has as many writes as it may take, or a register has as many targets as it may take. -/
theorem run_blocked_iff (hmshrs : 0 < p.mshrs) (hbuffers : 0 < p.writeBuffers)
    (h : Run info p trace (s, g)) :
    (s.noMSHRs = true ↔ s.mshrQueue.allocatedList.length = p.mshrs) ∧
      (s.noWBBuffers = true ↔ p.writeBuffers ≤ s.writeBuffer.allocatedList.length) ∧
      (s.noTargets = true ↔ ∃ i ∈ s.noTargetMSHR, i ∈ s.mshrQueue.allocatedList) := by
  obtain ⟨hsafe, -⟩ := run_invariant hmshrs hbuffers h
  obtain ⟨⟨hsize, hreserve⟩, hsize', hreserve'⟩ := hsafe.sized
  have hlengths := hsafe.mshrs.lengths
  have hcount := hsafe.mshrs.allocated
  have hcount' := hsafe.writes.consistent.allocated
  refine ⟨?_, ?_, ?_⟩
  · rw [hsafe.noMSHRs, isFull, decide_eq_true_eq, hcount, hsize, hreserve]
    omega
  · rw [hsafe.noWBBuffers, isFull, decide_eq_true_eq, hcount', hsize', hreserve']
    omega
  · rw [hsafe.noTargets, Option.isSome_iff_exists]
    exact exists_congr fun i => ⟨fun hi => ⟨hi, (hsafe.blocking i hi).1⟩, fun hi => hi.1⟩

/-- Two reads of a block use up the targets of its register. -/
theorem run_blocked_iff_targets : ∃ trace s g,
    Run .usual .tiny trace (s, g) ∧ s.noTargetMSHR = some 0 ∧
    (s.noMSHRs = true ↔ s.mshrQueue.allocatedList.length = CacheParams.tiny.mshrs) ∧
      (s.noWBBuffers = true ↔ CacheParams.tiny.writeBuffers ≤ s.writeBuffer.allocatedList.length) ∧
      (s.noTargets = true ↔ ∃ i ∈ s.noTargetMSHR, i ∈ s.mshrQueue.allocatedList) := by
  have hrun : ∃ trace x, Run .usual .tiny trace x ∧ x.1.noTargetMSHR = some 0 :=
    Runs.exists_run_of_exec [.request 0 [] 0 (.plain .readReq) 1,
      .request 0 [] 0 (.plain .readReq) 1] (by decide)
  obtain ⟨trace, ⟨s, g⟩, hrun, hregister⟩ := hrun
  exact ⟨trace, s, g, hrun, hregister, run_blocked_iff (by decide) (by decide) hrun⟩

/-- **Each register serves what joined it once, and in order.** -/
theorem run_serves_once (hmshrs : 0 < p.mshrs) (hbuffers : 0 < p.writeBuffers)
    (h : Run info p trace (s, g)) (i : ℕ) :
    ((servedAlong i trace).map MSHR.key ++
      (s.mshrQueue.entries i).waiting (g i).held).Pairwise MSHR.Before ∧
    (((servedAlong i trace).map MSHR.key ++
      (s.mshrQueue.entries i).waiting (g i).held).map Prod.fst ++ (g i).dropped).Perm
      (g i).arrived ∧
    (g i).arrived.Nodup := by
  obtain ⟨hsafe, hserved⟩ := run_invariant hmshrs hbuffers h
  have hinOrder := (hsafe.registers.good i).inOrder
  rw [← hserved i]
  exact ⟨hinOrder.pairwise, hinOrder.accounted, hinOrder.nodup⟩

/-- Two registers, whose responses come in the other order. -/
theorem run_serves_once_crossing : ∃ trace s g, Run .usual .tiny trace (s, g) ∧
    (trace.flatMap fun event => event.served.map Target.order) = [1, 0] ∧
    ((servedAlong 0 trace).map MSHR.key ++
      (s.mshrQueue.entries 0).waiting (g 0).held).Pairwise MSHR.Before ∧
    (((servedAlong 0 trace).map MSHR.key ++
      (s.mshrQueue.entries 0).waiting (g 0).held).map Prod.fst ++ (g 0).dropped).Perm
      (g 0).arrived ∧
    (g 0).arrived.Nodup := by
  have hrun : ∃ trace x, Run .usual .tiny trace x ∧
      (trace.flatMap fun event => event.served.map Target.order) = [1, 0] :=
    Runs.exists_run_of_exec [.request 0 [] 0 (.plain .readReq) 1,
      .request 0 [] 0 { Packet.plain .readReq with addr := 64 } 1,
      .send 1 none (.accepted false false), .send 1 none (.accepted false false),
      .respond 5 1 (.plain .readResp) ⟨true, true, true⟩,
      .respond 6 0 (.plain .readResp) ⟨true, true, true⟩] (by decide)
  obtain ⟨trace, ⟨s, g⟩, hrun, hserved⟩ := hrun
  exact ⟨trace, s, g, hrun, hserved, run_serves_once (by decide) (by decide) hrun 0⟩

/-- **A write leaves the write buffer only when it is sent, or when a dirty block from above or an
invalidation trumps it.** -/
theorem run_writes_stay (hmshrs : 0 < p.mshrs) (hbuffers : 0 < p.writeBuffers)
    (h : Run info p trace (s, g)) (hp : promise info p (s, g) o)
    (hstep : perform info p s o = .ok (s', event)) : ∀ w ∈ s.writeBuffer.allocatedList,
      Leaves info p s w o ∨ w ∈ s'.writeBuffer.allocatedList ∧
        s'.writeBuffer.entries w = s.writeBuffer.entries w := by
  have hsafe := (run_invariant hmshrs hbuffers h).1
  exact (step_kept hsafe hp (Runs.withHistory_eq_ok.2 ⟨hstep, rfl⟩)).2.stay

/-- A snoop that invalidates the block of a write. -/
theorem run_writes_stay_snoop : ∃ trace s g s' event, Run .usual .tiny trace (s, g) ∧
    perform .usual .tiny s (.snoop 1 (.plain .readExReq) false) = .ok (s', event) ∧
    s.writeBuffer.allocatedList = [0] ∧ s'.writeBuffer.allocatedList = [] ∧
    ∀ w ∈ s.writeBuffer.allocatedList,
      Leaves .usual .tiny s w (.snoop 1 (.plain .readExReq) false) ∨
      w ∈ s'.writeBuffer.allocatedList ∧ s'.writeBuffer.entries w = s.writeBuffer.entries w := by
  let o : Op := .snoop 1 (.plain .readExReq) false
  have hrun : ∃ trace x, Run .usual .tiny trace x ∧ promise .usual .tiny x o ∧
      x.1.writeBuffer.allocatedList = [0] ∧
      ((perform .usual .tiny x.1 o).toOption.map fun r => r.1.writeBuffer.allocatedList) =
        some [] :=
    Runs.exists_run_of_exec [.writeback 0 [.plain .writebackDirty] 0] (by decide)
  obtain ⟨trace, ⟨s, g⟩, hrun, hpromise, hlist, hgone⟩ := hrun
  cases hok : perform CmdInfo.usual CacheParams.tiny s o with
  | error e =>
      rw [hok] at hgone
      cases hgone
  | ok r =>
      obtain ⟨s', event⟩ := r
      rw [hok] at hgone
      exact ⟨trace, s, g, s', event, hrun, hok, hlist, Option.some.inj hgone,
        run_writes_stay (by decide) (by decide) hrun hpromise hok⟩

/-- What holds after every run in which the writes are timely. -/
theorem timelyRun_invariant (hmshrs : 0 < p.mshrs) (hbuffers : 0 < p.writeBuffers)
    (h : TimelyRun info p trace (s, g)) : Safe info p s g ∧ s.writeBuffer.Fifo := by
  let P : MissPath × (ℕ → MissRegister.History) → Prop := fun x =>
    Safe info p x.1 x.2 ∧ x.1.writeBuffer.Fifo
  have hinit : P (init p, fun _ => .init) := ⟨safe_init hmshrs hbuffers, List.Pairwise.nil⟩
  refine h.state_invariant P hinit ?_
  rintro ⟨s₁, g₁⟩ o ⟨s₂, g₂⟩ event ⟨hsafe, hfifo⟩ ⟨hp, htimely⟩ hstep
  obtain ⟨rfl, hkept⟩ := step_kept hsafe hp hstep
  exact ⟨hkept.safe, hkept.fifo htimely hfifo⟩

/-- **Nothing overtakes an earlier write to its block**: a write that is sent is the oldest one for
its block, and a miss that is sent is older than all the writes for its block. -/
theorem run_in_turn (hmshrs : 0 < p.mshrs) (hbuffers : 0 < p.writeBuffers)
    (h : TimelyRun info p trace (s, g)) {now : ℕ} {prefetch : Option Packet} {next : Next}
    {os : List MissRegister.Op}
    (hnext : s.getNextQueueEntry info p now prefetch = some (some next, s', os)) :
    InTurn s s' next := by
  obtain ⟨hsafe, hfifo⟩ := timelyRun_invariant hmshrs hbuffers h
  exact hsafe.getNextQueueEntry_inTurn hfifo hnext

/-- A write-back of a block, and a read of the block after it: the write is sent first. -/
theorem run_in_turn_write : ∃ trace s g s' os, TimelyRun .usual .tiny trace (s, g) ∧
    s.mshrQueue.readyList = [0] ∧ s.noWBBuffers = true ∧
    s.getNextQueueEntry .usual .tiny 5 none = some (some (.write 0), s', os) ∧
    InTurn s s' (.write 0) := by
  have hrun : ∃ trace x, TimelyRun .usual .tiny trace x ∧ x.1.mshrQueue.readyList = [0] ∧
      x.1.noWBBuffers = true ∧
      ((x.1.getNextQueueEntry .usual .tiny 5 none).map fun r => r.1) = some (some (.write 0)) :=
    Runs.exists_run_of_exec [.request 0 [.plain .writebackDirty] 1 (.plain .readReq) 2] (by decide)
  obtain ⟨trace, ⟨s, g⟩, hrun, hready, hfull, hnext⟩ := hrun
  obtain ⟨⟨next, s', os⟩, hnext, heq⟩ := Option.map_eq_some_iff.1 hnext
  dsimp only at heq
  subst heq
  exact ⟨trace, s, g, s', os, hrun, hready, hfull, hnext,
    run_in_turn (by decide) (by decide) hrun hnext⟩

end Run

end MissPath

end OpenCache
