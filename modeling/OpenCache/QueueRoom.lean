/-
The room in the miss queue.

Every handler checks once how much room the miss queue has, and then puts up to three requests into
it: the write itself, the fetch of a new MSHR entry, and the write-back of a victim.  Nothing is
checked again on the way.

* `OpenCache.owesWrite`, `OpenCache.Cache.owesFetch`, `OpenCache.Cache.owedWriteback` — what an
  access owes the lower level, from the state before it;
* `OpenCache.AccessCase.queuesOwed` — **an accepted access queues what it owes, and there is room**;
* `OpenCache.System.perform_only_beforeChecks` — no call reaches an `assert(0)` behind the checks;
* `OpenCache.miss_queue_room_suffices` — the three of them, in every state that a cache can reach.
-/

import OpenCache.System

set_option relaxedAutoImplicit false
set_option autoImplicit false

namespace OpenCache

variable {cfg : CacheConfig}

/-! ### What an access owes -/

/-- A write is sent down by the handler that accepts it. -/
def owesWrite (cfg : CacheConfig) (m : MemFetch) (status : CacheRequestStatus) : Bool :=
  m.isWrite &&
    if status = .hit then cfg.writePolicy = .writeThrough ∨ evictsOnWriteHit cfg m
    else
      match cfg.writeAllocPolicy with
      | .noWriteAllocate => true
      | .writeAllocate => true
      | .fetchOnWrite => false
      | .lazyFetchOnRead => cfg.writePolicy = .writeThrough

namespace Cache

/-- A miss fetches its block: a read does, and a write that allocates, unless it has all the bytes
or waits for the read. -/
def fetches (cfg : CacheConfig) (m : MemFetch) : Bool :=
  if m.isWrite then
    match cfg.writeAllocPolicy with
    | .noWriteAllocate => false
    | .writeAllocate => true
    | .fetchOnWrite => m.accessByteMask.card ≠ cfg.atomSz
    | .lazyFetchOnRead => false
  else true

/-- A fetch is sent for a miss whose block has no MSHR entry. -/
def owesFetch (c : Cache cfg) (m : MemFetch) (status : CacheRequestStatus) : Bool :=
  status ≠ .hit && fetches cfg m && (c.mshrs.data.lookup (cfg.mshrAddr m.addr)).isNone

/-- The write-back of the victim, when the victim is `MODIFIED` and the lower level does not have
its bytes.  A write that is only forwarded takes no victim. -/
def owedWriteback (c : Cache cfg) (cls : CacheClass) (m : MemFetch) (p : ProbeResult) :
    Option MemFetch :=
  if m.isWrite = true ∧ cfg.writeAllocPolicy = .noWriteAllocate then none
  else writebackOf cfg cls m p.status (c.tagArray.lines p.idx)

/-- An access has put into the miss queue what it owes, in the order of the handlers, and the queue
has kept its limit. -/
structure QueuesOwed (c : Cache cfg) (cls : CacheClass) (mf : Token) (p : ProbeResult)
    (fetch writeback : Option Token) (s' : Core cfg) : Prop where
  queue : s'.missQueue = c.missQueue ++ (if owesWrite cfg (c.mfs mf) p.status then [mf] else []) ++
    fetch.toList ++ writeback.toList
  fetch_isSome : fetch.isSome = c.owesFetch (c.mfs mf) p.status
  fetch_request : ∀ t ∈ fetch, (s'.mfs t).isWrite = false ∧
    (s'.mfs t).addr = cfg.mshrAddr (c.mfs mf).addr
  writeback_request : writeback.map s'.mfs = c.owedWriteback cls (c.mfs mf) p
  room : c.missQueue.length ≤ cfg.missQueueSize → s'.missQueue.length ≤ cfg.missQueueSize

end Cache

/-! ### The updates of the queue -/

namespace Core

variable (s : Core cfg)

/-- The write-back that is queued, if any. -/
theorem sendOwn_queue (m : Option MemFetch) :
    ∃ own : Option Token, (s.sendOwn m).missQueue = s.missQueue ++ own.toList ∧
      own.map (s.sendOwn m).mfs = m ∧ ∀ t ≠ .created s.created, (s.sendOwn m).mfs t = s.mfs t := by
  cases m with
  | none => exact ⟨none, (List.append_nil _).symm, rfl, fun _ _ => rfl⟩
  | some m =>
      refine ⟨some (.created s.created), rfl, ?_, fun t ht => ?_⟩
      · simp [sendOwn, alloc, enqueue]
      · exact Function.update_of_ne ht _ _

/-- The fetch that is queued, if any. -/
theorem miss_queue (a : NewAddrType) (mf : Token) (idx : ℕ) :
    (s.miss a mf idx).missQueue =
        s.missQueue ++ (if (s.entries.lookup a).isNone then some mf else none).toList ∧
      ((s.entries.lookup a).isNone = true → ((s.miss a mf idx).mfs mf).addr = a) ∧
      ((s.miss a mf idx).mfs mf).isWrite = (s.mfs mf).isWrite ∧
      ∀ t ≠ mf, (s.miss a mf idx).mfs t = s.mfs t := by
  have hpin := (s.join a mf).pinMiss_frame mf idx
  cases hl : s.entries.lookup a with
  | some l =>
      rw [miss_of_some hl]
      simp [join]
  | none =>
      rw [miss_of_none hl]
      refine ⟨?_, fun _ => ?_, ?_, fun t ht => ?_⟩
      · simp [launch, join]
      · simp [launch]
      · simp [launch, join]
      · rw [launch]
        dsimp only
        rw [Function.update_of_ne ht, hpin.2.2.2.2.2.2.1]
        rfl

end Core

section Access

variable {c : Cache cfg} {cls : CacheClass} {addr : NewAddrType} {mf : Token} {time : Time}
  {status : CacheRequestStatus} {s' : Core cfg}

/-- There is room for one more request. -/
theorem length_lt_of_room (h : c.missQueueFull 0 = false) :
    c.missQueue.length < cfg.missQueueSize := by
  rw [Cache.missQueueFull, decide_eq_false_iff_not, not_le] at h
  exact h

/-- Only a miss has a victim that is written back. -/
theorem writebackOf_eq_none (cls : CacheClass) (m : MemFetch) {b : CacheBlock cfg.cacheType}
    (hs : status ≠ .miss) : writebackOf cfg cls m status b = none := by
  cases cls with
  | readOnlyCache => rfl
  | dataCache types => simp [writebackOf, TagArray.evictedBy, hs]

/-- What a fetch queues before it is sent: the write, if the handler sends it down. -/
theorem Fetcher.queue {reader : Token} {s : Core cfg}
    {written : CacheBlock cfg.cacheType → CacheBlock cfg.cacheType}
    (h : Fetcher cfg cls mf c.core reader s written) {status : CacheRequestStatus}
    (hs : status ≠ .hit) :
    s.missQueue = c.missQueue ++ (if owesWrite cfg (c.mfs mf) status then [mf] else []) ∧
      Cache.fetches cfg (c.mfs mf) = true ∧
      ¬((c.mfs mf).isWrite = true ∧ cfg.writeAllocPolicy = .noWriteAllocate) := by
  cases h with
  | read hread =>
      have hr : (c.mfs mf).isWrite = false := hread
      simp [owesWrite, Cache.fetches, hr, Cache.core]
  | naive hwrite _ _ hpolicy =>
      have hw : (c.mfs mf).isWrite = true := hwrite
      simp [owesWrite, Cache.fetches, hw, hpolicy, hs, Core.alloc, Core.enqueue, Cache.core]
  | fetchOnWrite hwrite _ _ hpolicy hbytes =>
      have hw : (c.mfs mf).isWrite = true := hwrite
      have hb : (c.mfs mf).accessByteMask.card ≠ cfg.atomSz := hbytes
      simp [owesWrite, Cache.fetches, hw, hpolicy, hs, hb, Core.alloc, Cache.core]

/-- **An accepted access puts into the miss queue what it owes**, and there is room for it. -/
theorem AccessCase.queuesOwed (hmf : ∀ k, mf ≠ .created k) (haccept : status ≠ .reservationFail)
    (hcase : AccessCase c cls addr mf time status s') :
    ∃ p fetch writeback, c.Probes addr (c.mfs mf) p ∧
      c.QueuesOwed cls mf p fetch writeback s' := by
  cases hcase with
  | refused => exact absurd rfl haccept
  | hit p hp hs _ line forward heffect hroom =>
      have hsend : owesWrite cfg (c.mfs mf) p.status = forward := by
        cases heffect with
        | read hread => simp [owesWrite, hread]
        | write hwrite _ _ hpolicy => simp [owesWrite, hwrite, hs, hpolicy]
        | evict hwrite _ _ hpolicy => simp [owesWrite, hwrite, hs, hpolicy]
      have hqueue : (((c.core.setLine p.idx line).enqueueIf forward mf).respond mf
          p.idx).missQueue =
          c.missQueue ++ (if forward then [mf] else []) := by
        rw [(Core.respond_frame _ _ _).2.2.1]
        cases forward <;> simp [Core.enqueueIf, Core.enqueue, Core.setLine, Cache.core]
      refine ⟨p, none, none, hp, ⟨?_, ?_, by simp, ?_, ?_⟩⟩
      · rw [hqueue, hsend]
        simp
      · simp [Cache.owesFetch, hs]
      · have hvictim : writebackOf cfg cls (c.mfs mf) p.status (c.tagArray.lines p.idx) = none :=
          writebackOf_eq_none cls _ (by simp [hs])
        simp [Cache.owedWriteback, hvictim]
      · intro hold
        rw [hqueue, List.length_append]
        cases forward with
        | false => exact hold
        | true => exact length_lt_of_room (hroom rfl)
  | forward p hp hs hwrite types hcls hpolicy hroom =>
      refine ⟨p, none, none, hp, ⟨?_, ?_, by simp, ?_, ?_⟩⟩
      · simp [owesWrite, hwrite, hs, hpolicy, Core.enqueue, Cache.core]
      · simp [Cache.owesFetch, Cache.fetches, hwrite, hpolicy]
      · simp [Cache.owedWriteback, hwrite, hpolicy]
      · intro _
        rw [Core.enqueue, List.length_append]
        exact length_lt_of_room hroom
  | write p hp hstatus hwrite types hcls hi line forward heffect hroom =>
      have hs : p.status ≠ .hit := by rcases hstatus with hs | hs | hs <;> simp [hs]
      have hsend : owesWrite cfg (c.mfs mf) p.status = forward ∧
          Cache.fetches cfg (c.mfs mf) = false ∧ cfg.writeAllocPolicy ≠ .noWriteAllocate ∧
          (forward = true → cfg.writePolicy = .writeThrough) := by
        cases heffect with
        | full hpolicy hfull => simp [owesWrite, Cache.fetches, hwrite, hs, hpolicy, hfull]
        | onRead hpolicy => simp [owesWrite, Cache.fetches, hwrite, hs, hpolicy]
      obtain ⟨hforward, hfetches, hpolicy, hthrough⟩ := hsend
      generalize hs₀ : (c.core.enqueueIf forward mf).setLine p.idx line = s₀
      obtain ⟨own, hqueue, hrequest, -⟩ :=
        s₀.sendOwn_queue (writebackOf cfg cls (c.mfs mf) p.status (c.tagArray.lines p.idx))
      have hqueue₀ : s₀.missQueue = c.missQueue ++ (if forward then [mf] else []) := by
        rw [← hs₀]
        cases forward <;> simp [Core.enqueueIf, Core.enqueue, Core.setLine, Cache.core]
      rw [hqueue₀] at hqueue
      refine ⟨p, none, own, hp, ⟨?_, ?_, by simp, ?_, ?_⟩⟩
      · rw [hforward, hqueue]
        simp
      · simp [Cache.owesFetch, hfetches]
      · rw [hrequest, Cache.owedWriteback, if_neg (not_and_of_not_right _ hpolicy)]
      · intro _
        have hlt := length_lt_of_room hroom
        rw [hqueue, List.length_append, List.length_append]
        -- a write that is sent down has no write-back
        cases forward with
        | false => exact (Nat.add_le_add_left (@Option.length_toList_le _ own) _).trans hlt
        | true =>
            have hnone : own = none := by
              rw [hcls, writebackOf, if_pos (hthrough rfl)] at hrequest
              exact Option.map_eq_none_iff.1 hrequest
            rw [hnone]
            exact hlt
  | fetch p hp hstatus hi reader s written hfetcher hjoin hnew hroom =>
      have hs : p.status ≠ .hit := by rcases hstatus with hs | hs | hs <;> simp [hs]
      obtain ⟨hqueue, hfetches, hpolicy⟩ := hfetcher.queue hs
      generalize hs₁ : s.setLine p.idx (c.touched addr (c.mfs mf) time p) = s₁
      have hsame₁ : s₁.missQueue = s.missQueue ∧ s₁.mfs = s.mfs ∧ s₁.created = s.created ∧
          s₁.entries = c.mshrs.data := by
        rw [← hs₁]
        exact ⟨rfl, rfl, rfl, hfetcher.frame.2.1⟩
      obtain ⟨hqueue₁, hmfs₁, hcreated₁, hentries₁⟩ := hsame₁
      obtain ⟨hqueue₂, haddr₂, hread₂, -⟩ :=
        s₁.miss_queue (cfg.mshrAddr (c.mfs mf).addr) reader p.idx
      have hcreated₂ := (s₁.miss_frame reader p.idx (cfg.mshrAddr (c.mfs mf).addr)).2.2.2.1
      generalize hs₂ : s₁.miss (cfg.mshrAddr (c.mfs mf).addr) reader p.idx = s₂
        at hqueue₂ haddr₂ hread₂ hcreated₂
      dsimp only
      generalize hs₃ : s₂.setLine p.idx (written (s₂.lines p.idx)) = s₃
      have hsame₃ : s₃.missQueue = s₂.missQueue ∧ s₃.mfs = s₂.mfs ∧ s₃.created = s₂.created := by
        rw [← hs₃]
        exact ⟨rfl, rfl, rfl⟩
      obtain ⟨hqueue₃, hmfs₃, hcreated₃⟩ := hsame₃
      obtain ⟨own, hqueue₄, hrequest, hothers⟩ :=
        s₃.sendOwn_queue (writebackOf cfg cls (c.mfs mf) p.status (c.tagArray.lines p.idx))
      rw [hqueue₃, hqueue₂, hqueue₁, hqueue, hentries₁] at hqueue₄
      refine ⟨p, _, own, hp, ⟨hqueue₄, ?_, ?_, ?_, ?_⟩⟩
      · rw [Cache.owesFetch, hfetches, decide_eq_true hs, Bool.true_and, Bool.true_and]
        cases c.mshrs.data.lookup (cfg.mshrAddr (c.mfs mf).addr) <;> rfl
      · intro t ht
        obtain ⟨hnone, rfl⟩ : (c.mshrs.data.lookup (cfg.mshrAddr (c.mfs mf).addr)).isNone = true ∧
            t = reader := by
          split at ht
          · next hnone => exact ⟨hnone, (Option.some_inj.1 ht).symm⟩
          · cases ht
        -- the write-back is another request
        have hne : t ≠ .created s₃.created := by
          rw [hcreated₃, hcreated₂, hcreated₁]
          rcases hfetcher.reader_eq with ⟨rfl, -, -⟩ | ⟨rfl, hcreated, -, -⟩
          · exact hmf _
          · rw [hcreated]
            simp
        rw [hothers t hne, hmfs₃, hread₂, hmfs₁]
        exact ⟨hfetcher.request.1, haddr₂ (by rw [hentries₁]; exact hnone)⟩
      · rw [hrequest, Cache.owedWriteback, if_neg hpolicy]
      · intro hold
        rw [hqueue₄, ← hqueue, List.length_append, List.length_append]
        cases cls with
        | readOnlyCache =>
            have hown : own = none := Option.map_eq_none_iff.1 hrequest
            rw [hown]
            cases hl : c.mshrs.data.lookup (cfg.mshrAddr (c.mfs mf).addr) with
            | none => exact (hnew hl).2.2
            | some l =>
                cases hfetcher with
                | read => exact hold
                | naive _ _ hcls => cases hcls
                | fetchOnWrite _ _ hcls => cases hcls
        | dataCache types =>
            have hspace := hroom types rfl
            have hfetch := @Option.length_toList_le _
              (if (c.mshrs.data.lookup (cfg.mshrAddr (c.mfs mf).addr)).isNone then some reader
                else none)
            have hown := @Option.length_toList_le _ own
            omega

end Access

/-! ### The assertions behind the checks -/

/-- No call reaches an `assert(0)` that follows the checks of the miss queue and the table. -/
theorem System.perform_only_beforeChecks (sys : System cfg) (cls : CacheClass) (o : Op) :
    Raises.Only (fun e => e.afterChecks = false) (sys.perform cls o) := by
  have hP : ∀ e : Abort, e.plain = true → e.afterChecks = false := by
    intro e he
    have hinput := Abort.ofInput_of_plain he
    simpa using (Bool.and_eq_true_iff.1 (Bool.and_eq_true_iff.1 hinput).1).2
  have htable : ∀ e : Abort, e.concern = some .table → e.afterChecks = false := by
    intro e he
    cases e <;> first | rfl | cases he
  have hfill : ∀ (c : Cache cfg) mf time,
      Raises.Only (fun e => e.afterChecks = false) (c.fill mf time) := by
    intro c mf time
    refine Cache.fill_only hP (fun _ => rfl) (fun _ => rfl) (fun _ _ _ => rfl) ?_ time
    exact fun t _ e _ => ⟨fun _ => rfl, MshrTable.markReady_only htable _ _,
      fun _ => ⟨TagArray.probe_only hP rfl _ _ _ _ _, fun _ _ _ => Or.inr rfl⟩⟩
  refine perform_only hP (fun n m time events _ => ?_) (fun mf time _ => hfill _ mf time)
    (fun n m time _ => ⟨hfill _ _ time, fun _ => rfl⟩) fun _ => ?_
  · exact Cache.access_only hP (fun a mf _ => MshrTable.add_only htable _ a mf)
      (TagArray.probe_only hP rfl _ _ _ _ _) (fun _ _ _ => Or.inr rfl) cls time events
  · exact Cache.nextAccess_only hP (fun _ _ => MshrTable.nextAccess_only htable _)
      fun _ _ _ _ => rfl

namespace System

variable {cls : CacheClass} {sys sys' : System cfg} {o : Op} {b : Obs}

/-- No step takes the miss queue over its limit. -/
theorem missQueue_le_step (h : sys.core.missQueue.length ≤ cfg.missQueueSize) (hsuits : Suits cfg o)
    (hstep : sys.perform cls o = .ok (sys', b)) :
    sys'.core.missQueue.length ≤ cfg.missQueueSize := by
  cases step_cases hsuits hstep with
  | access n m time events status hcase =>
      by_cases hfail : status = .reservationFail
      · subst hfail
        generalize sys'.core = s' at hcase
        cases hcase
        exact h
      · obtain ⟨p, fetch, writeback, -, hqueues⟩ := hcase.queuesOwed (by simp) hfail
        exact hqueues.room h
  | tick _ _ _ _ hcore =>
      rw [hcore]
      exact h
  | push _ _ _ _ mf rest hqueue hcore =>
      rw [hqueue, List.length_cons] at h
      rw [hcore]
      exact (Nat.le_succ _).trans h
  | wait _ _ _ _ _ _ _ _ hcore =>
      rw [hcore]
      exact h
  | complete _ c mf _ horigin _ _ _ _ _ hcore =>
      rw [hcore]
      rcases horigin with ⟨-, rfl⟩ | ⟨_, _, -, -, rfl⟩ <;> exact h
  | ready _ _ _ _ hcore =>
      rw [hcore, (Core.unpin_frame _ _).2.2.1]
      exact h
  | deliver _ a rest _ _ _ _ _ hcore =>
      have hdeliver : (sys.core.deliver a rest).missQueue = sys.core.missQueue := by
        unfold Core.deliver
        split <;> rfl
      rw [hcore, (Core.unpin_frame _ _).2.2.1, hdeliver]
      exact h
  | flush hcore =>
      rw [hcore]
      exact h
  | invalidate hcore =>
      rw [hcore]
      exact h
  | retire _ hcore =>
      rw [hcore]
      exact h

end System

/-- **The checks of the miss queue are sufficient**, in every state that a cache can reach: the
queue keeps its limit, an accepted access has queued in its call all that it owes, and no call
reaches an `assert(0)` behind the checks. -/
theorem miss_queue_room_suffices {cls : CacheClass} {mfs : Token → MemFetch} {trace : List Obs}
    {sys : System cfg}
    (h : System.Run cls (fun _ => System.Suits cfg) (System.init cfg mfs) trace sys) :
    sys.core.missQueue.length ≤ cfg.missQueueSize ∧
      (∀ n m time events sys' status joined,
        sys.perform cls (.access n m time events) =
          .ok (sys', .access (.caller n) m status joined) → status ≠ .reservationFail →
        ∃ p fetch writeback, (sys.build n m).Probes m.addr m p ∧
          (sys.build n m).QueuesOwed cls (.caller n) p fetch writeback sys'.core) ∧
      ∀ o e, e.afterChecks = true → sys.perform cls o ≠ .error e := by
  refine ⟨?_, ?_, ?_⟩
  · refine Runs.Run.state_invariant
      (fun s : System cfg => s.core.missQueue.length ≤ cfg.missQueueSize) (Nat.zero_le _) ?_ h
    intro s o s' b hs hsuits hstep
    exact System.missQueue_le_step hs hsuits hstep
  · intro n m time events sys' status joined hstep haccept
    have hm := sys.build_mfs_caller n m
    cases System.step_cases (by trivial) hstep with
    | access _ _ _ _ _ hcase =>
        obtain ⟨p, fetch, writeback, hp, hqueues⟩ := hcase.queuesOwed (by simp) haccept
        rw [hm] at hp
        exact ⟨p, fetch, writeback, hp, hqueues⟩
  · intro o e he herr
    exact Bool.false_ne_true ((sys.perform_only_beforeChecks cls o e herr).symm.trans he)

/-- A read miss that takes a `MODIFIED` victim queues its fetch and the write-back. -/
theorem miss_queue_room_suffices_fetch_and_writeback :
    ∃ trace sys, System.Run (.dataCache .l1)
      (fun _ => System.Suits (CacheConfig.small 'S' 'B' 'm' 'L' 1 true))
      (System.init (CacheConfig.small 'S' 'B' 'm' 'L' 1 true) fun _ => MemFetch.load 0) trace sys ∧
      sys.core.missQueue = [.caller 1, .created 0] ∧
      sys.core.missQueue.length ≤ (CacheConfig.small 'S' 'B' 'm' 'L' 1 true).missQueueSize := by
  obtain ⟨trace, sys, hrun, hqueue⟩ :
      ∃ trace sys, System.Run (.dataCache .l1)
        (fun _ => System.Suits (CacheConfig.small 'S' 'B' 'm' 'L' 1 true))
        (System.init (CacheConfig.small 'S' 'B' 'm' 'L' 1 true) fun _ => MemFetch.load 0)
          trace sys ∧
        sys.core.missQueue = [.caller 1, .created 0] :=
    Runs.exists_run_of_exec [.access 0 (MemFetch.store 0 (sectorBytes 0)) 0 [],
      .access 1 (MemFetch.load 128) 1 []] (by decide +kernel)
  exact ⟨trace, sys, hrun, hqueue, (miss_queue_room_suffices hrun).1⟩

end OpenCache
