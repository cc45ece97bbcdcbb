/-
The guard against a write between a write and its reads.

Under fetch-on-write, a partial write that is followed by a read in an MSHR entry must not be
followed by another partial write: the fill would show the second write to the read.  The guard is
`mshr_table::is_read_after_write_pending`, which looks for a write in the list of the entry.  The
write path puts a read there, the one that fetches the block, so that the guard finds none.

* `OpenCache.ReadsOnly` — the invariant: the table holds reads only;
* `OpenCache.ReadsOnly.step` — one step keeps it;
* `OpenCache.write_read_write_guard_never_fires` — **no request is ever refused by the guard**;
* `OpenCache.write_read_write_accepted` — a second write behind a read that is still to be returned.
-/

import OpenCache.Refusals
import Mathlib.Data.List.TakeWhile

set_option relaxedAutoImplicit false
set_option autoImplicit false

namespace OpenCache

variable {cfg : CacheConfig}

/-- The requests in the MSHR table are reads, and none of them is yet to be created. -/
def ReadsOnly (s : Core cfg) : Prop :=
  ∀ t ∈ s.entries.values, (s.mfs t).isWrite = false ∧ ∀ k, t = .created k → k < s.created

namespace ReadsOnly

variable {s s' : Core cfg}

/-- An update that keeps the objects of the requests in the table. -/
theorem of_same (h : ReadsOnly s) (hentries : ∀ t ∈ s'.entries.values, t ∈ s.entries.values)
    (hmfs : ∀ t ∈ s.entries.values, (s'.mfs t).isWrite = (s.mfs t).isWrite)
    (hcreated : s.created ≤ s'.created) : ReadsOnly s' := by
  intro t ht
  obtain ⟨hread, hlt⟩ := h t (hentries t ht)
  refine ⟨(hmfs t (hentries t ht)).trans hread, fun k hk => ?_⟩
  exact (hlt k hk).trans_le hcreated

theorem setLine (h : ReadsOnly s) (idx : ℕ) (b : CacheBlock cfg.cacheType) :
    ReadsOnly (s.setLine idx b) := h

theorem enqueueIf (h : ReadsOnly s) (b : Bool) (mf : Token) : ReadsOnly (s.enqueueIf b mf) := by
  cases b <;> exact h

theorem sendOwn (h : ReadsOnly s) (m : Option MemFetch) : ReadsOnly (s.sendOwn m) := by
  cases m with
  | none => exact h
  | some m =>
      refine h.of_same (fun t ht => ht) (fun t ht => ?_) (Nat.le_succ _)
      have hne : t ≠ .created s.created := by
        rintro rfl
        exact absurd ((h _ ht).2 _ rfl) (lt_irrefl _)
      exact congrArg MemFetch.isWrite (Function.update_of_ne hne _ _)

/-- A read joins an entry. -/
theorem miss (h : ReadsOnly s) {reader : Token} (hread : (s.mfs reader).isWrite = false)
    (hcreated : ∀ k, reader = .created k → k < s.created) (a : NewAddrType) (idx : ℕ) :
    ReadsOnly (s.miss a reader idx) := by
  have hmfs : ∀ t, ((s.miss a reader idx).mfs t).isWrite = (s.mfs t).isWrite := by
    intro t
    cases hl : s.entries.lookup a with
    | some l =>
        rw [Core.miss_of_some hl]
        simp [Core.join]
    | none =>
        rw [Core.miss_of_none hl]
        by_cases ht : t = reader
        · subst ht
          simp [Core.launch, Core.join]
        · simp [Core.launch, Core.join, Function.update_of_ne ht]
  have hframe := Core.miss_frame s reader idx a
  intro t ht
  rw [hframe.2.2.2.2.1] at ht
  rw [hmfs, hframe.2.2.2.1]
  rcases List.mem_cons.1 ((AList.values_insert_append _ _ _).mem_iff.1 ht) with rfl | ht
  · exact ⟨hread, hcreated⟩
  · exact h t ht

/-- **An access puts reads into the table only.** -/
theorem access {c : Cache cfg} {cls : CacheClass} {addr : NewAddrType} {mf : Token} {time : Time}
    {status : CacheRequestStatus} (h : ReadsOnly c.core) (hmf : ∀ k, mf ≠ .created k)
    (hcase : AccessCase c cls addr mf time status s') : ReadsOnly s' := by
  cases hcase with
  | refused => exact h
  | hit p _ _ _ line forward =>
      have hsent : ReadsOnly ((c.core.setLine p.idx line).enqueueIf forward mf) :=
        (h.setLine p.idx line).enqueueIf forward mf
      obtain ⟨hentries, -, -, -, -, hmfs, hcreated⟩ := Core.respond_frame
        ((c.core.setLine p.idx line).enqueueIf forward mf) mf p.idx
      refine hsent.of_same (fun t ht => ?_) (fun t _ => ?_) (by rw [hcreated])
      · rwa [hentries] at ht
      · rw [hmfs]
  | forward => exact h
  | write p _ _ _ _ _ _ line forward =>
      exact ((h.enqueueIf forward mf).setLine p.idx line).sendOwn _
  | fetch p _ _ _ reader s written hfetcher =>
      obtain ⟨hread, -⟩ := hfetcher.request
      have hs : ReadsOnly s ∧ ∀ k, reader = .created k → k < s.created := by
        rcases hfetcher.reader_eq with ⟨rfl, rfl, -⟩ | ⟨rfl, hcreated, -, hother⟩
        · exact ⟨h, fun k hk => absurd hk (hmf k)⟩
        · refine ⟨ReadsOnly.of_same h (fun t ht => ?_) (fun t ht => ?_) (by omega), ?_⟩
          · rwa [hfetcher.frame.2.1] at ht
          · rw [hother]
            rintro rfl
            exact absurd ((h _ ht).2 _ rfl) (lt_irrefl _)
          · rintro k ⟨⟩
            omega
      exact (((hs.1.setLine p.idx _).miss hread hs.2 _ p.idx).setLine p.idx _).sendOwn _

/-- One step keeps the table free of writes. -/
theorem step {cls : CacheClass} {sys sys' : System cfg} {o : Op} {b : Obs}
    (h : ReadsOnly sys.core) (hpromise : sys.Promise o)
    (hstep : sys.perform cls o = .ok (sys', b)) : ReadsOnly sys'.core := by
  -- building an object does not touch the requests in the table
  have hbuild : ∀ n m, .caller n ∉ sys.held → ReadsOnly (sys.build n m).core := by
    intro n m hn
    refine h.of_same (fun t ht => ht) (fun t ht => ?_) le_rfl
    have hne : t ≠ .caller n := by
      rintro rfl
      exact hn (List.mem_append_left _ (List.mem_append_right _ ht))
    exact congrArg MemFetch.isWrite (Function.update_of_ne hne _ _)
  cases System.step_cases hpromise.suits hstep with
  | access n m time events status hcase => exact (hbuild n m hpromise).access (by simp) hcase
  | tick _ _ _ _ hcore =>
      rw [hcore]
      exact h
  | push _ _ _ _ _ _ _ hcore =>
      rw [hcore]
      exact h
  | wait n m _ _ _ _ _ _ hcore =>
      rw [hcore]
      exact hbuild n m hpromise.2.1
  | complete o c mf time horigin e _ _ lines _ hcore =>
      have hc : ReadsOnly c.core := by
        rcases horigin with ⟨-, rfl⟩ | ⟨n, m, rfl, -, rfl⟩
        · exact h
        · exact hbuild n m hpromise.2.1
      rw [hcore]
      refine hc.of_same (fun t ht => ht) (fun t _ => ?_) le_rfl
      by_cases ht : t = mf
      · subst ht
        simp [Core.complete]
      · simp [Core.complete, Function.update_of_ne ht]
  | ready mf rest _ _ hcore =>
      rw [hcore]
      obtain ⟨hentries, -, -, -, -, -, hmfs, hcreated⟩ :=
        Core.unpin_frame ({ sys.core with readyQueue := rest } : Core cfg) mf
      refine h.of_same (fun t ht => ?_) (fun t _ => ?_) (by rw [hcreated])
      · rwa [hentries] at ht
      · rw [hmfs]
  | deliver mf a rest _ _ _ hentry _ hcore =>
      rw [hcore]
      obtain ⟨hentries, -, -, -, -, -, hmfs, hcreated⟩ :=
        Core.unpin_frame (sys.core.deliver a rest) mf
      have hdeliver : (sys.core.deliver a rest).mfs = sys.core.mfs ∧
          (sys.core.deliver a rest).created = sys.core.created := by
        unfold Core.deliver
        split <;> exact ⟨rfl, rfl⟩
      refine h.of_same (fun t ht => ?_) (fun t _ => ?_) (by rw [hcreated, hdeliver.2])
      · rw [hentries, Core.deliver] at ht
        have hvalues := AList.values_of_lookup hentry
        rw [hvalues.mem_iff]
        split at ht
        · exact List.mem_append_right _ ht
        · rw [AList.values_insert] at ht
          exact List.mem_cons_of_mem _ ht
      · rw [hmfs, hdeliver.1]
  | flush hcore =>
      rw [hcore]
      exact h
  | invalidate hcore =>
      rw [hcore]
      exact h
  | retire _ hcore =>
      rw [hcore]
      exact h

/-- The table holds reads only, in every state of every run. -/
theorem of_run {cls : CacheClass} {mfs : Token → MemFetch} {trace : List Obs} {sys : System cfg}
    (h : System.Run cls System.Promise (System.init cfg mfs) trace sys) : ReadsOnly sys.core := by
  refine Runs.Run.state_invariant (fun s => ReadsOnly s.core) ?_ ?_ h
  · intro t ht
    cases ht
  · intro s o s' b hs hpromise hperform
    exact hs.step hpromise hperform

/-- The guard finds no write. -/
theorem isReadAfterWritePending_eq_false {c : Cache cfg} (h : ReadsOnly c.core) (a : NewAddrType) :
    c.mshrs.isReadAfterWritePending (fun t => (c.mfs t).isWrite) a = false := by
  have hlist : ∀ t ∈ (c.mshrs.data.lookup a).getD [], (c.mfs t).isWrite = false := by
    intro t ht
    cases hl : c.mshrs.data.lookup a with
    | none =>
        rw [hl] at ht
        cases ht
    | some l =>
        rw [hl] at ht
        exact (h t (AList.mem_values.2 ⟨a, l, hl, ht⟩)).1
  have hdrop : ((c.mshrs.data.lookup a).getD []).dropWhile (fun t => !(c.mfs t).isWrite) = [] :=
    List.dropWhile_eq_nil_iff.2 fun t ht => by simp [hlist t ht]
  rw [MshrTable.isReadAfterWritePending, hdrop]
  rfl

end ReadsOnly

/-! ### The guard -/

/-- An access is refused, and the reason is recorded. -/
def Cache.RefusedFor (c : Cache cfg) (cls : CacheClass) (addr : NewAddrType) (mf : Token)
    (time : Time) (events : List CacheEvent) (reason : CacheReservationFailReason) : Prop :=
  ∃ c' events', c.access cls addr mf time events = .ok (c', .reservationFail, events') ∧
    c'.stats.failStats =
      c.stats.failStats.inc (c.mfs mf).accessType reason (c.mfs mf).streamID

/-- In the MSHR entry of an address, a read of the caller waits behind the fetch of a write. -/
def Core.ReadBehindWrite (s : Core cfg) (a : NewAddrType) : Prop :=
  ∃ l l' k n, s.entries.lookup a = some (l ++ .created k :: l') ∧
    (s.mfs (.created k)).originalWrMf.isSome = true ∧ .caller n ∈ l'

/-- **No request is ever refused by the guard**, in any state that a cache can reach: for no address
does the guard see a write in the table, also where the fetch of a write is followed by a read. -/
theorem write_read_write_guard_never_fires {cls : CacheClass} {mfs : Token → MemFetch}
    {trace : List Obs} {sys : System cfg}
    (h : System.Run cls System.Promise (System.init cfg mfs) trace sys) :
    (∀ a, sys.cache.mshrs.isReadAfterWritePending (fun t => (sys.cache.mfs t).isWrite) a = false) ∧
      ∀ n m time events, sys.Promise (.access n m time events) →
        ¬(sys.build n m).RefusedFor cls m.addr (.caller n) time events .mshrRwPending := by
  have hreads := ReadsOnly.of_run h
  refine ⟨fun a => hreads.isReadAfterWritePending_eq_false a, ?_⟩
  rintro n m time events hpromise ⟨c', events', haccess, hstats⟩
  have hbuild : ReadsOnly (sys.build n m).core := by
    refine hreads.of_same (fun t ht => ht) (fun t ht => ?_) le_rfl
    have hne : t ≠ .caller n := by
      rintro rfl
      exact hpromise (List.mem_append_left _ (List.mem_append_right _ ht))
    exact congrArg MemFetch.isWrite (Function.update_of_ne hne _ _)
  have hguard := hbuild.isReadAfterWritePending_eq_false
    (cfg.mshrAddr ((sys.build n m).mfs (.caller n)).addr)
  obtain ⟨-, reason, p, hreason, rfl⟩ := @Cache.access_declines cfg (· ≠ .mshrRwPending) _ _ _ _
    (fun _ hne => hne) (fun hpending => by rw [hguard] at hpending; cases hpending) _ _ _ _ haccess
  have hcount := congrArg (fun t => t.get ((sys.build n m).mfs (.caller n)).streamID
    ((sys.build n m).mfs (.caller n)).accessType .mshrRwPending) hstats
  simp only [Cache.countAccess, Cache.incFailStats, CacheStats.incStats, CacheStats.incStatsPw,
    CacheStats.incFailStats, StatTable.get_inc, if_neg hreason.symm, if_true] at hcount
  omega

/-- The guard does not see the write whose fetch a read waits behind. -/
theorem write_read_write_guard_never_fires_behind_read :
    ∃ trace sys, System.Run (.dataCache .l1) System.Promise
      (System.init (CacheConfig.small 'S' 'B' 'm' 'F' 2 true) fun _ => MemFetch.load 0) trace sys ∧
      sys.core.entries.lookup 0 = some [.created 0, .caller 1] ∧
      sys.cache.mshrs.isReadAfterWritePending (fun t => (sys.cache.mfs t).isWrite) 0 = false := by
  obtain ⟨trace, sys, hrun, hentry⟩ :
      ∃ trace sys, System.Run (.dataCache .l1) System.Promise
        (System.init (CacheConfig.small 'S' 'B' 'm' 'F' 2 true) fun _ => MemFetch.load 0)
          trace sys ∧
        sys.core.entries.lookup 0 = some [.created 0, .caller 1] :=
    Runs.exists_run_of_exec [.access 0 (MemFetch.store 0 {0}) 0 [],
      .access 1 (MemFetch.load 0) 1 []] (by decide)
  exact ⟨trace, sys, hrun, hentry, (write_read_write_guard_never_fires hrun).1 0⟩

/-- A second partial write of a sector is accepted behind a read that waits for the first. -/
theorem write_read_write_accepted :
    (CacheConfig.small 'S' 'B' 'm' 'F' 2 true).Accepted ∧
      (CacheConfig.small 'S' 'B' 'm' 'F' 2 true).writeAllocPolicy = .fetchOnWrite ∧
      (CacheConfig.small 'S' 'B' 'm' 'F' 2 true).allocPolicy = .onMiss ∧
      ∃ trace sys, System.Run (.dataCache .l1) System.Promise
        (System.init (CacheConfig.small 'S' 'B' 'm' 'F' 2 true) fun _ => MemFetch.load 0)
        trace sys ∧
        sys.core.ReadBehindWrite 0 ∧
        ∃ c' events', (sys.build 2 (MemFetch.store 0 {0})).access (.dataCache .l1) 0 (.caller 2) 2
          [] = .ok (c', .miss, events') := by
  refine ⟨CacheConfig.small_accepted (by decide) true, by decide, by decide, ?_⟩
  obtain ⟨trace, sys, hrun, hentry, hwrite, haccept⟩ :
      ∃ trace sys, System.Run (.dataCache .l1) System.Promise
        (System.init (CacheConfig.small 'S' 'B' 'm' 'F' 2 true) fun _ => MemFetch.load 0)
          trace sys ∧
        sys.core.entries.lookup 0 = some [.created 0, .caller 1] ∧
        (sys.core.mfs (.created 0)).originalWrMf.isSome = true ∧
        (((sys.build 2 (MemFetch.store 0 {0})).access (.dataCache .l1) 0 (.caller 2) 2
          []).toOption.map fun r => r.2.1) = some .miss :=
    Runs.exists_run_of_exec [.access 0 (MemFetch.store 0 {0}) 0 [],
      .access 1 (MemFetch.load 0) 1 []] (by decide)
  refine ⟨trace, sys, hrun, ⟨[], [.caller 1], 0, 1, hentry, hwrite, by simp⟩, ?_⟩
  cases haccess : (sys.build 2 (MemFetch.store 0 {0})).access (.dataCache .l1)
    0 (.caller 2) 2 [] with
  | error e =>
      rw [haccess] at haccept
      cases haccept
  | ok r =>
      obtain ⟨c', status, events'⟩ := r
      rw [haccess] at haccept
      obtain rfl : status = .miss := Option.some_inj.1 haccept
      exact ⟨c', events', rfl⟩

end OpenCache
