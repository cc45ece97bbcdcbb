/-
Evictions that lose bytes.

Two evictions send nothing that the line holds: the eviction of a sector by a write hit, which sends
the write, and the replacement of a line by a fill.  Both are designed for lines without dirty
bytes. A write-evict cache that fetches on writes or on reads puts write misses into its lines,
though, and a cache that writes local data back puts local write hits there, also when it
allocates on fills.

* `OpenCache.write_evict_keeps_bytes_iff` — **a write hit that evicts loses no byte exactly when it
  covers the bytes that earlier writes have put there**;
* `OpenCache.fill_keeps_bytes_iff` — **a fill that replaces a line loses no byte exactly when the
  policy is not local write-back, or no local write has put one there**;
* `OpenCache.write_evict_loses_bytes`, `OpenCache.fill_loses_bytes` — runs that lose bytes.
-/

import OpenCache.WriteHistory

set_option relaxedAutoImplicit false
set_option autoImplicit false

namespace OpenCache

variable {cfg : CacheConfig} {cls : CacheClass} {mfs : Token → MemFetch} {trace : List Obs}
  {sys sys' : System cfg} {h : WriteHistory}

/-! ### Write hits that evict -/

/-- What a write hit that evicts leaves: its sector is invalid, and the call has put the write, and
nothing else, into the miss queue. -/
theorem Core.evicted_of_hit {cfg : CacheConfig} {cls : CacheClass} {m : MemFetch} {time : Time}
    {i : Fin 4} {b line : CacheBlock cfg.cacheType} {forward : Bool}
    (heffect : HitEffect cfg cls m time i b line forward) (hwrite : m.isWrite = true)
    (hevicts : evictsOnWriteHit cfg m) (s : Core cfg) (idx : ℕ) (mf : Token) :
    let s' := ((s.setLine idx line).enqueueIf forward mf).respond mf idx
    (s'.lines idx).getStatus i = .invalid ∧ s'.missQueue = s.missQueue ++ [mf] ∧
      s'.mfs = s.mfs := by
  cases heffect with
  | read hread =>
      rw [hread] at hwrite
      cases hwrite
  | write _ _ _ hnot => exact absurd hevicts hnot
  | evict =>
      refine ⟨?_, (Core.respond_frame _ _ _).2.2.1, (Core.respond_frame _ _ _).2.2.2.2.2.1⟩
      have hinvalid : (b.setStatus .invalid i).getStatus i = .invalid := by
        rw [CacheBlock.getStatus, CacheBlock.setStatus, CacheBlock.sectorAt_modifySector_self]
      -- the response of a deferred hit pins the line, and a pin leaves the sectors
      unfold Core.respond
      split
      · simpa [Core.pin, Core.setLine] using show (b.setStatus .invalid i).pin.getStatus i = _ from
          hinvalid
      · simpa [Core.setLine] using hinvalid

/-- What an access that evicts does: its sector is invalid, and the call has put the write, and
nothing else, into the miss queue. -/
theorem System.evicted_of_perform {n : ℕ} {m : MemFetch} {time : Time} {events : List CacheEvent}
    {joined : Option Token} {p : ProbeResult}
    (hstep : sys.perform cls (.access n m time events) =
      .ok (sys', .access (.caller n) m .hit joined))
    (hwrite : m.isWrite = true) (hevicts : evictsOnWriteHit cfg m)
    (hanswer : sys.answer m = some p) :
    (sys'.core.lines p.idx).getStatus (cfg.sectorIndex m.accessSectorMask) = .invalid ∧
      sys'.core.missQueue = sys.core.missQueue ++ [.caller n] ∧
      sys.queuedBytes sys' (cfg.blockAddr m.addr) = m.accessByteMask := by
  have hm := sys.build_mfs_caller n m
  cases System.step_cases (by trivial) hstep with
  | access _ _ _ _ _ hcase =>
      generalize hs' : sys'.core = s' at hcase ⊢
      cases hcase with
      | hit q hq hs _ line forward heffect =>
          rw [hm] at hq heffect
          have hprobe : sys.answer m = some q := (System.answer_eq_some n).2 hq
          obtain rfl : q = p := Option.some_inj.1 (hprobe.symm.trans hanswer)
          obtain ⟨hinvalid, hqueue, hmfs⟩ := Core.evicted_of_hit heffect hwrite hevicts
            (sys.build n m).core q.idx (.caller n)
          have hself : sys'.core.mfs (.caller n) = m := by
            rw [hs', hmfs]
            exact hm
          refine ⟨hinvalid, hqueue, ?_⟩
          have hbytes : sys.queuedBytes sys' (cfg.blockAddr (sys'.core.mfs (.caller n)).addr) =
              (sys'.core.mfs (.caller n)).accessByteMask :=
            System.queuedBytes_of_append (hs'.symm ▸ hqueue) (by rw [hself]; exact hwrite)
          rwa [hself] at hbytes

/-- **A write hit that evicts loses no byte exactly when it covers what earlier writes have put
there.**  In every reachable state of a cache with write-evict, or with local write-back, a write
hit that evicts leaves its sector invalid and is sent to the lower level; and each byte of the
sector that was accepted and not sent before is among its own bytes, or is a byte of the block that
this access has put into the miss queue, exactly when each byte of the sector that accepted writes
have put there, since the line took its block, is among its own. -/
theorem write_evict_keeps_bytes_iff
    (hpolicy : cfg.writePolicy = .writeEvict ∨ cfg.writePolicy = .localWbGlobalWt)
    (hrun : System.HistoryRun cls System.Promise (System.init cfg mfs, .init) trace (sys, h)) :
    ∀ n m time events sys' joined p,
      sys.perform cls (.access n m time events) =
        .ok (sys', .access (.caller n) m .hit joined) →
      m.isWrite = true → evictsOnWriteHit cfg m → sys.answer m = some p →
      (sys'.core.lines p.idx).getStatus (cfg.sectorIndex m.accessSectorMask) = .invalid ∧
        sys.sentBy sys' (.caller n) = true ∧
        (h.unsent p.idx ∩ cfg.bytesOf (cfg.sectorIndex m.accessSectorMask) ⊆
            m.accessByteMask ∪ sys.queuedBytes sys' (cfg.blockAddr m.addr) ↔
          h.written p.idx ∩ cfg.bytesOf (cfg.sectorIndex m.accessSectorMask) ⊆
            m.accessByteMask) := by
  intro n m time events sys' joined p hstep hwrite hevicts hanswer
  have hthrough : cfg.writePolicy ≠ .writeThrough := by
    rcases hpolicy with hp | hp <;> simp [hp]
  have hsame : h.unsent = h.written :=
    WriteHistory.unsent_eq_written hthrough (fun _ _ hp => hp.suits) hrun
  obtain ⟨hinvalid, hqueue, hbytes⟩ := System.evicted_of_perform hstep hwrite hevicts hanswer
  refine ⟨hinvalid, ?_, by rw [hbytes, Finset.union_self, hsame]⟩
  have hdrop : sys'.core.missQueue.drop sys.core.missQueue.length = [.caller n] := by
    rw [hqueue]
    exact List.drop_left
  rw [System.sentBy, hdrop]
  exact decide_eq_true (List.mem_singleton_self _)

/-- A write hit that covers what the write before it has put into the sector. -/
theorem write_evict_keeps_bytes_covered :
    ∃ trace sys h, System.HistoryRun (.dataCache .l1) System.Promise
      (System.init (CacheConfig.small 'S' 'E' 'm' 'F' 2 true) fun _ => MemFetch.load 0, .init)
        trace (sys, h) ∧
      h.written 1 = sectorBytes 0 ∧
      ∃ sys' joined, sys.perform (.dataCache .l1)
        (.access 1 (MemFetch.store 0 (sectorBytes 0)) 1 []) =
          .ok (sys', .access (.caller 1) (MemFetch.store 0 (sectorBytes 0)) .hit joined) ∧
        h.unsent 1 ∩ (CacheConfig.small 'S' 'E' 'm' 'F' 2 true).bytesOf 0 ⊆
          sectorBytes 0 ∪ sys.queuedBytes sys' 0 := by
  obtain ⟨trace, ⟨sys, h⟩, hrun, hwritten, hstatus, hmap⟩ :
      ∃ trace s, System.HistoryRun (.dataCache .l1) System.Promise
        (System.init (CacheConfig.small 'S' 'E' 'm' 'F' 2 true) fun _ => MemFetch.load 0, .init)
          trace s ∧
        s.2.written 1 = sectorBytes 0 ∧
        s.1.statusOf (.dataCache .l1) 1 (MemFetch.store 0 (sectorBytes 0)) 1 = some .hit ∧
        (s.1.answer (MemFetch.store 0 (sectorBytes 0))).map ProbeResult.idx = some 1 :=
    Runs.exists_run_of_exec [.access 0 (MemFetch.store 0 (sectorBytes 0)) 0 []] (by decide)
  obtain ⟨p, hanswer, hidx⟩ := Option.map_eq_some_iff.1 hmap
  obtain ⟨sys', joined, hstep⟩ := System.perform_of_statusOf hstatus
  obtain ⟨-, -, hiff⟩ := write_evict_keeps_bytes_iff (Or.inl (by decide)) hrun _ _ _ _ _ _ _ hstep
    rfl (Or.inl (by decide)) hanswer
  have hcovered := hiff.2 (by
    rw [hidx, show h.written 1 = sectorBytes 0 from hwritten]
    exact Finset.inter_subset_left)
  rw [hidx] at hcovered
  exact ⟨trace, sys, h, hrun, hwritten, sys', joined, hstep, hcovered⟩

/-- A write of one byte evicts a sector that was written as a whole: byte 1 was not sent before, the
access does not write it, and no request that the access puts into the miss queue carries it. -/
theorem write_evict_loses_bytes :
    (CacheConfig.small 'S' 'E' 'm' 'F' 2 true).Accepted ∧
      ∃ trace sys h, System.HistoryRun (.dataCache .l1) System.Promise
        (System.init (CacheConfig.small 'S' 'E' 'm' 'F' 2 true) fun _ => MemFetch.load 0, .init)
          trace (sys, h) ∧
        evictsOnWriteHit (CacheConfig.small 'S' 'E' 'm' 'F' 2 true) (MemFetch.store 0 {0}) ∧
        (sys.answer (MemFetch.store 0 {0})).map ProbeResult.idx = some 1 ∧
        ∃ sys' joined, sys.perform (.dataCache .l1) (.access 1 (MemFetch.store 0 {0}) 1 []) =
          .ok (sys', .access (.caller 1) (MemFetch.store 0 {0}) .hit joined) ∧
          ¬h.unsent 1 ∩ (CacheConfig.small 'S' 'E' 'm' 'F' 2 true).bytesOf 0 ⊆
            (MemFetch.store 0 {0}).accessByteMask ∪ sys.queuedBytes sys' 0 := by
  refine ⟨CacheConfig.small_accepted (by decide) true, ?_⟩
  obtain ⟨trace, ⟨sys, h⟩, hrun, hstatus, hmap, hlost⟩ :
      ∃ trace s, System.HistoryRun (.dataCache .l1) System.Promise
        (System.init (CacheConfig.small 'S' 'E' 'm' 'F' 2 true) fun _ => MemFetch.load 0, .init)
          trace s ∧
        s.1.statusOf (.dataCache .l1) 1 (MemFetch.store 0 {0}) 1 = some .hit ∧
        (s.1.answer (MemFetch.store 0 {0})).map ProbeResult.idx = some 1 ∧ 1 ∈ s.2.unsent 1 :=
    Runs.exists_run_of_exec [.access 0 (MemFetch.store 0 (sectorBytes 0)) 0 []] (by decide)
  obtain ⟨sys', joined, hstep⟩ := System.perform_of_statusOf hstatus
  obtain ⟨p, hanswer, -⟩ := Option.map_eq_some_iff.1 hmap
  obtain ⟨-, -, hbytes⟩ :=
    System.evicted_of_perform hstep rfl (Or.inl (by decide)) hanswer
  refine ⟨trace, sys, h, hrun, Or.inl (by decide), hmap, sys', joined, hstep, fun hcovered => ?_⟩
  have hqueued : sys.queuedBytes sys' 0 = {0} := hbytes
  have hmem := hcovered (Finset.mem_inter.2 ⟨hlost, by decide⟩)
  rw [hqueued] at hmem
  exact absurd hmem (by decide)

/-! ### Fills that replace a line -/

/-- A completing fill replaces only its victim. -/
theorem fillVictim_of_tag_ne {o : Op} {mf : Token} (hon : cfg.allocPolicy = .onFill)
    (hpromise : sys.Promise o) (hstep : sys.perform cls o = .ok (sys', .fill mf)) {j : ℕ}
    (hj : (sys'.core.lines j).tag ≠ (sys.core.lines j).tag) : sys.fillVictim mf = some j := by
  generalize hb : Obs.fill mf = b at hstep
  cases System.step_cases hpromise.suits hstep with
  | wait _ _ _ _ _ _ _ _ hcore =>
      rw [hcore] at hj
      exact absurd rfl hj
  | complete o c mf' time horigin e he _ lines hfill hcore =>
      obtain rfl : mf = mf' := by cases hb; rfl
      have hc : c.tagArray = sys.cache.tagArray ∧ c.mfs mf = sys.core.mfs mf := by
        rcases horigin with ⟨-, rfl⟩ | ⟨n, m, rfl, horiginal, rfl⟩
        · exact ⟨rfl, rfl⟩
        · obtain ⟨-, hnew, original, ho, hbelow, -⟩ := hpromise
          rw [Option.mem_def, horiginal, Option.some_inj] at ho
          subst ho
          -- the child is a new object, so it is not the fetch that it answers
          have hne : mf ≠ .caller n := by
            rintro rfl
            exact hnew (List.mem_append_right _ (List.mem_append_right _ hbelow))
          exact ⟨rfl, Function.update_of_ne hne _ _⟩
      rw [hcore] at hj
      cases hfill with
      | onMiss hmiss =>
          rw [hon] at hmiss
          cases hmiss
      | onFill _ ta hta =>
          change (ta.lines j).tag ≠ _ at hj
          obtain ⟨p, hp, hlines⟩ := TagArray.fillAddr_eq_ok hta
          rw [hc.1, hc.2] at hp
          have hsame : ta.lines j = sys.core.lines j → False := fun heq => hj (by rw [heq])
          rcases hlines with ⟨-, hlines⟩ | ⟨-, -, hlines⟩
          · exact (hsame (by rw [hlines, hc.1]; rfl)).elim
          · rw [hc.1] at hlines
            by_cases hidx : j = p.idx
            · subst hidx
              -- the fill of a line that was found leaves its tag
              have hmiss : p.status = .miss := by
                by_contra hne
                refine hj ?_
                rw [hlines, Function.update_self, (SameTenant.fill _ _ _).tag]
                cases hs : p.status with
                | miss => exact absurd hs hne
                | _ => rfl
              rw [System.fillVictim, hon, he]
              dsimp only
              rw [hp]
              dsimp only
              rw [if_pos hmiss]
            · exact (hsame (by rw [hlines, Function.update_of_ne hidx]; rfl)).elim
  | access => cases hb
  | tick => cases hb
  | push => cases hb
  | ready => cases hb
  | deliver => cases hb
  | flush => cases hb
  | invalidate => cases hb
  | retire => cases hb

/-- **A fill that replaces a line loses no byte exactly when the policy is not local write-back, or
no local write has put one there.**  In every reachable state of a cache that allocates on fills,
the only line that a fill replaces is its victim; and no `MODIFIED` sector of the victim holds a
byte that was accepted and not sent exactly when the policy is another one, or no such sector holds
a byte that accepted writes have put there since the line took its block. -/
theorem fill_keeps_bytes_iff (hcfg : cfg.Accepted) (hon : cfg.allocPolicy = .onFill)
    (hcls : ∀ types, cls = .dataCache types → cfg.writePolicy ≠ .readOnly)
    (hrun : System.HistoryRun cls System.Promise (System.init cfg mfs, .init) trace (sys, h)) :
    ∀ o sys' mf, sys.Promise o → sys.perform cls o = .ok (sys', .fill mf) →
      (∀ j, (sys'.core.lines j).tag ≠ (sys.core.lines j).tag → sys.fillVictim mf = some j) ∧
        ∀ idx, sys.fillVictim mf = some idx →
          ((∀ i, (sys.core.lines idx).getStatus i = .modified →
              Disjoint (h.unsent idx) (cfg.bytesOf i)) ↔
            cfg.writePolicy ≠ .localWbGlobalWt ∨
              ∀ i, (sys.core.lines idx).getStatus i = .modified →
                Disjoint (h.written idx) (cfg.bytesOf i)) := by
  intro o sys' mf hpromise hstep
  refine ⟨fun j hj => fillVictim_of_tag_ne hon hpromise hstep hj, fun idx _ => ?_⟩
  have hchecked := hcfg.checked
  have hmiss : cfg.allocPolicy ≠ .onMiss := by simp [hon]
  have hfetch : cfg.writeAllocPolicy ≠ .fetchOnWrite ∧ cfg.writeAllocPolicy ≠ .lazyFetchOnRead :=
    ⟨fun hp => hmiss (hchecked.fetch (Or.inl hp)), fun hp => hmiss (hchecked.fetch (Or.inr hp))⟩
  have hsuits : ∀ (s : System cfg) (o : Op), s.Promise o → System.Suits cfg o :=
    fun _ _ hp => hp.suits
  by_cases hlocal : cfg.writePolicy = .localWbGlobalWt
  · have hsame : h.unsent = h.written :=
      WriteHistory.unsent_eq_written (by simp [hlocal]) hsuits hrun
    rw [hsame]
    exact ⟨Or.inr, fun hor => hor.resolve_left fun hne => hne hlocal⟩
  · refine iff_of_true ?_ (Or.inl hlocal)
    have hempty : h.unsent = fun _ => ∅ := by
      by_cases hthrough : cfg.writePolicy = .writeThrough
      · exact WriteHistory.unsent_eq_empty hthrough hfetch.1 hsuits hrun
      · rw [show h.unsent = h.written from
          WriteHistory.unsent_eq_written hthrough hsuits hrun]
        refine WriteHistory.written_eq_empty (fun types m status hc _ hwrites => ?_) hsuits hrun
        -- the one policy that is left evicts on every write hit
        have hevict : cfg.writePolicy = .writeEvict := by
          cases hpolicy : cfg.writePolicy with
          | readOnly => exact absurd hpolicy (hcls types hc)
          | writeBack => exact absurd (hchecked.writeBack hpolicy) hmiss
          | writeThrough => exact absurd hpolicy hthrough
          | writeEvict => rfl
          | localWbGlobalWt => exact absurd hpolicy hlocal
        rw [writesLine] at hwrites
        split at hwrites
        · exact hwrites (Or.inl hevict)
        · exact hwrites.elim hfetch.1 hfetch.2
    intro i _
    rw [hempty]
    exact Finset.disjoint_empty_left _

/-- A fill that replaces a line that no write has changed. -/
theorem fill_keeps_bytes_clean :
    ∃ trace sys h, System.HistoryRun (.dataCache .l1) System.Promise
      (System.init (CacheConfig.small 'S' 'L' 'f' 'N' 1 false) fun _ => MemFetch.load 0, .init)
        trace (sys, h) ∧
      sys.fillVictim (.caller 1) = some 0 ∧
      ∀ i, (sys.core.lines 0).getStatus i = .modified → Disjoint (h.unsent 0)
        ((CacheConfig.small 'S' 'L' 'f' 'N' 1 false).bytesOf i) := by
  obtain ⟨trace, ⟨sys, h⟩, hrun, hvictim, hclean, hpromise, hfill⟩ :
      ∃ trace s, System.HistoryRun (.dataCache .l1) System.Promise
        (System.init (CacheConfig.small 'S' 'L' 'f' 'N' 1 false) fun _ => MemFetch.load 0, .init)
          trace s ∧
        s.1.fillVictim (.caller 1) = some 0 ∧ (s.1.core.lines 0).isModifiedLine = false ∧
        s.1.Promise (.fill (.caller 1) 4) ∧
        (s.1.perform (.dataCache .l1) (.fill (.caller 1) 4)).isOk = true :=
    Runs.exists_run_of_exec [.access 0 (MemFetch.load 0) 0 [], .cycle false, .fill (.caller 0) 1,
      .nextAccess, .access 1 (MemFetch.load 128) 2 [], .cycle false] (by decide)
  cases hstep : sys.perform (.dataCache .l1) (.fill (.caller 1) 4) with
  | error e =>
      rw [hstep] at hfill
      cases hfill
  | ok r =>
      obtain ⟨sys', b⟩ := r
      obtain ⟨c, -, hdone⟩ := bind_eq_ok.1 hstep
      cases hdone
      have hiff := (fill_keeps_bytes_iff (CacheConfig.small_accepted (by decide) false) (by decide)
        (fun _ _ => by decide) hrun _ _ _ hpromise hstep).2 0 hvictim
      refine ⟨trace, sys, h, hrun, hvictim, hiff.2 (Or.inr fun i hi => ?_)⟩
      rw [(CacheBlock.isModifiedLine_iff _).2 ⟨i, hi⟩] at hclean
      cases hclean

/-- A local write hit changes a line, and the fill of another block replaces it. -/
theorem fill_loses_bytes :
    (CacheConfig.small 'S' 'L' 'f' 'N' 1 false).Accepted ∧
      (CacheConfig.small 'S' 'L' 'f' 'N' 1 false).allocPolicy = .onFill ∧
      ∃ trace sys h, System.HistoryRun (.dataCache .l1) System.Promise
        (System.init (CacheConfig.small 'S' 'L' 'f' 'N' 1 false) fun _ => MemFetch.load 0, .init)
          trace (sys, h) ∧
        sys.fillVictim (.caller 2) = some 0 ∧ sys.Promise (.fill (.caller 2) 4) ∧
        (sys.perform (.dataCache .l1) (.fill (.caller 2) 4)).isOk = true ∧
        (sys.core.lines 0).getStatus 0 = .modified ∧
        ¬Disjoint (h.unsent 0) ((CacheConfig.small 'S' 'L' 'f' 'N' 1 false).bytesOf 0) := by
  refine ⟨CacheConfig.small_accepted (by decide) false, by decide, ?_⟩
  obtain ⟨trace, ⟨sys, h⟩, hrun, hlost⟩ :
      ∃ trace s, System.HistoryRun (.dataCache .l1) System.Promise
        (System.init (CacheConfig.small 'S' 'L' 'f' 'N' 1 false) fun _ => MemFetch.load 0, .init)
          trace s ∧
        s.1.fillVictim (.caller 2) = some 0 ∧ s.1.Promise (.fill (.caller 2) 4) ∧
        (s.1.perform (.dataCache .l1) (.fill (.caller 2) 4)).isOk = true ∧
        (s.1.core.lines 0).getStatus 0 = .modified ∧
        ¬Disjoint (s.2.unsent 0) ((CacheConfig.small 'S' 'L' 'f' 'N' 1 false).bytesOf 0) :=
    Runs.exists_run_of_exec [.access 0 (MemFetch.load 0) 0 [], .cycle false, .fill (.caller 0) 1,
      .nextAccess, .access 1 { MemFetch.store 0 {0} with accessType := .localAccW } 2 [],
      .access 2 (MemFetch.load 128) 3 [], .cycle false] (by decide +kernel)
  exact ⟨trace, sys, h, hrun, hlost⟩

end OpenCache
