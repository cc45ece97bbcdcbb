/-
The calls that return.

Most assertions of the cache are about the configuration and the requests.  In a run that keeps the
promise of the environment, `cycle` and `next_access` fail on none, and `fill` on none that is not
about the sector mask of the response.

* `OpenCache.Core.Delayed` — the delays of the hits that wait have not ended;
* `OpenCache.System.cycle_returns`, `OpenCache.System.nextAccess_returns`,
  `OpenCache.System.fill_returns` — **the calls return**, in every state of every run;
* `OpenCache.System.mem_waiting_of_perform` — which requests wait after a call.
-/

import OpenCache.FinalCheck

set_option relaxedAutoImplicit false
set_option autoImplicit false

namespace OpenCache

variable {cfg : CacheConfig} {cls : CacheClass} {mfs : Token → MemFetch} {trace : List Obs}
  {sys sys' : System cfg} {o : Op} {b : Obs}

/-! ### The delays of hits -/

/-- The delays of the hits that wait have not ended. -/
def Core.Delayed (s : Core cfg) : Prop := ∀ e ∈ s.hitQueue, 0 < e.remainingCycles

namespace Core.Delayed

variable {s s' : Core cfg}

theorem of_hitQueue (h : s.Delayed) (hqueue : s'.hitQueue = s.hitQueue) : s'.Delayed := by
  rw [Delayed, hqueue]
  exact h

/-- A hit waits for a cycle at least. -/
theorem hitResponseLatency_pos (m : MemFetch) : 0 < Cache.hitResponseLatency cfg m := by
  have hpos : ∀ n : ℕ, 0 < if n = 0 then 1 else n := by
    intro n
    split <;> omega
  exact hpos _

theorem respond (h : s.Delayed) (t : Token) (idx : ℕ) : (s.respond t idx).Delayed := by
  unfold Core.respond
  split
  · intro e he
    rcases List.mem_append.1 he with he | he
    · exact h e he
    · rw [List.mem_singleton.1 he]
      exact hitResponseLatency_pos _
  · exact h

theorem access {c : Cache cfg} (h : c.core.Delayed) {addr : NewAddrType} {mf : Token} {time : Time}
    {status : CacheRequestStatus} (hcase : AccessCase c cls addr mf time status s') :
    s'.Delayed := by
  cases hcase with
  | refused => exact h
  | hit p _ _ _ line forward => exact respond (h.of_hitQueue (by simp [Core.setLine])) _ _
  | forward => exact h
  | write => exact h.of_hitQueue (by simp [Core.setLine])
  | fetch p _ _ _ reader s written hfetcher =>
      obtain ⟨-, -, -, -, hhit, -, -⟩ := hfetcher.frame
      exact h.of_hitQueue (by simp [Core.setLine, hhit])

/-- The loop of `cycle` does not fail, and leaves delays that have not ended. -/
theorem tick {q : List DelayedResponseEntry} (h : ∀ e ∈ q, 0 < e.remainingCycles) :
    ∃ waiting done, Cache.tickHitResponses q = .ok (waiting, done) ∧
      ∀ e ∈ waiting, 0 < e.remainingCycles := by
  induction q with
  | nil => exact ⟨[], [], rfl, by simp⟩
  | cons e q ih =>
      obtain ⟨waiting, done, hrest, hpos⟩ := ih fun e he => h e (List.mem_cons_of_mem _ he)
      have hone : assertThat (0 < e.remainingCycles) .remainingCyclesZero = .ok () :=
        assertThat_of _ (h e List.mem_cons_self)
      by_cases hlast : e.remainingCycles - 1 = 0
      · refine ⟨waiting, e.mf :: done, ?_, hpos⟩
        exact bind_eq_ok.2 ⟨(), hone, bind_eq_ok.2 ⟨_, hrest, if_pos hlast⟩⟩
      · refine ⟨_, done, bind_eq_ok.2 ⟨(), hone, bind_eq_ok.2 ⟨_, hrest, if_neg hlast⟩⟩, ?_⟩
        intro e' he'
        rcases List.mem_cons.1 he' with rfl | he'
        · exact Nat.pos_of_ne_zero hlast
        · exact hpos e' he'

/-- **One step keeps the delays.** -/
theorem step (h : sys.core.Delayed) (hsuits : System.Suits cfg o)
    (hperform : sys.perform cls o = .ok (sys', b)) : sys'.core.Delayed := by
  -- the items that a tick leaves in the queue have a cycle left
  have htick : ∀ {waiting done},
      Cache.tickHitResponses sys.core.hitQueue = .ok (waiting, done) →
      ∀ e ∈ waiting, 0 < e.remainingCycles := by
    intro waiting done hticked
    obtain ⟨waiting', done', hticked', hpos⟩ := tick h
    cases hticked.symm.trans hticked'
    exact hpos
  cases System.step_cases hsuits hperform with
  | access n m time events status hcase =>
      have hbuild : (sys.build n m).core.Delayed := h
      exact hbuild.access hcase
  | tick _ waiting done hticked hcore =>
      rw [hcore]
      exact htick hticked
  | push _ waiting done hticked _ _ _ hcore =>
      rw [hcore]
      exact htick hticked
  | wait _ _ _ _ _ _ _ _ hcore =>
      rw [hcore]
      exact h
  | complete _ _ _ _ horigin _ _ _ _ _ hcore =>
      rw [hcore]
      rcases horigin with ⟨-, rfl⟩ | ⟨_, _, -, -, rfl⟩ <;> exact h
  | ready mf rest _ _ hcore =>
      rw [hcore]
      exact h.of_hitQueue (Core.unpin_frame _ _).2.2.2.2.1
  | deliver mf a rest _ _ _ _ _ hcore =>
      rw [hcore]
      refine h.of_hitQueue ((Core.unpin_frame _ _).2.2.2.2.1.trans ?_)
      unfold Core.deliver
      split <;> rfl
  | flush hcore =>
      rw [hcore]
      exact h
  | invalidate hcore =>
      rw [hcore]
      exact h
  | retire _ hcore =>
      rw [hcore]
      exact h

theorem of_run (hrun : System.Run cls System.Promise (System.init cfg mfs) trace sys) :
    sys.core.Delayed := by
  refine hrun.state_invariant (fun s => s.core.Delayed) (fun _ he => absurd he List.not_mem_nil) ?_
  exact fun _ _ _ _ hs hpromise => hs.step hpromise.suits

end Core.Delayed

/-! ### The requests that wait -/

/-- The requests of the caller that wait after an access: the request, or one that waited. -/
theorem AccessCase.mem_waiting {c : Cache cfg} {addr : NewAddrType} {mf : Token} {time : Time}
    {status : CacheRequestStatus} {s' : Core cfg} (hcase : AccessCase c cls addr mf time status s')
    {n : ℕ} (hn : .caller n ∈ s'.waiting) : .caller n ∈ c.core.waiting ∨ mf = .caller n := by
  cases hcase with
  | refused => exact Or.inl hn
  | hit p _ _ _ line forward =>
      cases hdefer : cfg.deferHitResponse with
      | true =>
          rcases List.mem_cons.1 ((Core.respond_waiting hdefer _ _ _).subset hn) with hn | hn
          · exact Or.inr hn.symm
          · exact Or.inl (by simpa [Core.waiting, Core.hitTokens, Core.setLine] using hn)
      | false =>
          rw [Core.respond, hdefer] at hn
          exact Or.inl (by simpa [Core.waiting, Core.hitTokens, Core.setLine] using hn)
  | forward => exact Or.inl hn
  | write =>
      exact Or.inl (by simpa [Core.waiting, Core.hitTokens, Core.setLine] using hn)
  | fetch p _ _ _ reader s written hfetcher =>
      have hreader : reader = mf ∨ ∃ k, reader = .created k := by
        cases hfetcher with
        | read => exact Or.inl rfl
        | _ => exact Or.inr ⟨_, rfl⟩
      obtain ⟨-, hentries, -, -, hhit, hready, -⟩ := hfetcher.frame
      have hmiss : .caller n ∈ ((s.setLine p.idx (c.touched addr (c.mfs mf) time p)).miss
          (cfg.mshrAddr (c.mfs mf).addr) reader p.idx).waiting := by
        simpa [Core.waiting, Core.hitTokens, Core.setLine] using hn
      rcases List.mem_cons.1 ((Core.miss_waiting _ _ _ _).subset hmiss) with hself | hearlier
      · rcases hreader with rfl | ⟨k, rfl⟩
        · exact Or.inr hself.symm
        · cases hself
      · refine Or.inl ?_
        simpa [Core.waiting, Core.hitTokens, Core.setLine, hentries, hhit, hready] using hearlier

/-- The requests of the caller that wait after a call waited before, or come in with it. -/
theorem System.mem_waiting_of_perform (hsuits : System.Suits cfg o)
    (hperform : sys.perform cls o = .ok (sys', b)) {n : ℕ}
    (hn : .caller n ∈ sys'.core.waiting) :
    .caller n ∈ sys.core.waiting ∨ ∃ m time events, o = .access n m time events := by
  cases System.step_cases hsuits hperform with
  | access k m time events status hcase =>
      rcases hcase.mem_waiting hn with hn | hn
      · exact Or.inl hn
      · cases hn
        exact Or.inr ⟨m, time, events, rfl⟩
  | tick _ waiting done hticked hcore =>
      rw [hcore] at hn
      exact Or.inl ((Core.tick_waiting hticked).subset hn)
  | push _ waiting done hticked _ _ _ hcore =>
      rw [hcore] at hn
      exact Or.inl ((Core.tick_waiting hticked).subset hn)
  | wait _ _ _ _ _ _ _ _ hcore =>
      rw [hcore] at hn
      exact Or.inl hn
  | complete _ _ _ _ horigin _ _ _ _ _ hcore =>
      rw [hcore] at hn
      rcases horigin with ⟨-, rfl⟩ | ⟨_, _, -, -, rfl⟩ <;> exact Or.inl hn
  | ready mf rest hqueue _ hcore =>
      rw [hcore] at hn
      refine Or.inl ((Core.ready_waiting hqueue).symm.subset (List.mem_cons_of_mem _ ?_))
      simpa [Core.waiting, Core.hitTokens] using hn
  | deliver mf a rest _ _ _ hentry _ hcore =>
      rw [hcore] at hn
      refine Or.inl ((Core.deliver_waiting hentry).symm.subset (List.mem_cons_of_mem _ ?_))
      simpa [Core.waiting, Core.hitTokens] using hn
  | flush hcore =>
      rw [hcore] at hn
      exact Or.inl hn
  | invalidate hcore =>
      rw [hcore] at hn
      exact Or.inl hn
  | retire _ hcore =>
      rw [hcore] at hn
      exact Or.inl hn

/-! ### The calls -/

namespace System

/-- **`cycle` returns.** -/
theorem cycle_returns (hrun : System.Run cls System.Promise (System.init cfg mfs) trace sys)
    (memportFull : Bool) : ∃ r, sys.cache.cycle memportFull = .ok r := by
  obtain ⟨waiting, done, htick, -⟩ := Core.Delayed.tick (Core.Delayed.of_run hrun)
  exact ⟨_, bind_eq_ok.2 ⟨(waiting, done), htick, rfl⟩⟩

/-- The line that a request is pinned on has a pin. -/
theorem pinned_of_pending (hrun : System.Run cls System.Promise (System.init cfg mfs) trace sys)
    {t : Token} {idx : ℕ} (hidx : sys.core.pending.lookup t = some idx) :
    (sys.core.lines idx).pendingResponseCount ≠ 0 := by
  cases hdefer : cfg.deferHitResponse with
  | false =>
      rw [(Unpinned.of_run hdefer hrun).pending] at hidx
      cases hidx
  | true =>
      exact (Accounted.of_run hdefer (hrun.mono fun _ _ h => h.distinct)).count_ne_zero hidx

/-- **`next_access` returns** when a response is ready. -/
theorem nextAccess_returns
    (hrun : System.Run cls System.Promise (System.init cfg mfs) trace sys)
    (hready : sys.cache.accessReady = true) : ∃ r, sys.cache.nextAccess = .ok r := by
  have htracked : Tracked sys.core sys.sent := Tracked.of_run (hrun.mono fun _ _ h => h.answers)
  refine Raises.Only.returns (.bind (assertThat_only fun h => h hready) fun _ _ => ?_)
  have hpin : ∀ t idx, sys.core.pending.lookup t = some idx →
      (sys.core.lines idx).pendingResponseCount = 0 → False :=
    fun t idx hidx hzero => pinned_of_pending hrun hidx hzero
  split
  · exact .bind (Cache.unpinResponse_only (hpin _)) fun _ _ => .ok _
  · next hqueue =>
      refine .bind (htracked.nextAccess_only rfl rfl fun hnil => ?_) fun r _ =>
        .bind (Cache.unpinResponse_only (hpin _)) fun _ _ => .ok _
      have hcur : sys.cache.mshrs.currentResponse = [] := hnil
      simp [Cache.accessReady, MshrTable.accessReady, hqueue, hcur] at hready

/-- **`fill` returns** for a request that waits, in a cache whose responses are whole. -/
theorem fill_returns (hrun : System.Run cls System.Promise (System.init cfg mfs) trace sys)
    (hon : cfg.allocPolicy = .onMiss) (hassoc : cfg.mshrType ≠ .sectorAssoc) {mf : Token}
    (hwaits : mf ∈ sys.core.extra) {i : Fin 4}
    (hmask : cfg.getSectorIndex (sys.core.mfs mf).accessSectorMask = .ok i) (time : Time) :
    ∃ c, sys.cache.fill mf time = .ok c := by
  have htracked : Tracked sys.core sys.sent := Tracked.of_run (hrun.mono fun _ _ h => h.answers)
  obtain ⟨e, he⟩ := Option.isSome_iff_exists.1 (AList.lookup_isSome.2 hwaits)
  have hlookup : sys.cache.extraMfFields.lookup mf = some e := he
  rw [Cache.fill, if_neg hassoc, Cache.fillComplete, hlookup]
  refine Raises.Only.returns (.bind (assertThat_only fun h => ?_) fun _ _ => ?_)
  · exact h (htracked.fetching mf e he).1.valid
  · rw [hon]
    refine .bind (.bind (assertThat_only fun h => h hon) fun _ _ => .bind ?_ fun _ _ => .ok _)
      fun _ _ => .bind (htracked.markReady_only rfl rfl he _) fun _ _ => .ok _
    have hsame : cfg.getSectorIndex (Function.update sys.cache.mfs mf
        { sys.cache.mfs mf with dataSize := e.dataSize, addr := e.addr } mf).accessSectorMask =
        .ok i := by
      rw [Function.update_self]
      exact hmask
    rw [hsame]
    exact .ok _

end System

end OpenCache
