/-
Requests that join an MSHR entry, in a cache that allocates on misses.

An entry stays in the table until all of its requests have been returned, and nothing in the table
tells a request whether the fetch of the entry has been answered.  Only the line does: as long as it
holds the sector, a request that comes late hits.  A request that joins an entry therefore waits for
a fetch that is under way, unless the line or the sector has been given up in between.

* `OpenCache.System.KeepsEntries` — accesses that name their sector and give up neither the line nor
  the sector of an entry;
* `OpenCache.merged_miss_waits_for_fetch` — **a request that reserves a sector while it joins an
  entry waits for the fetch of that sector**;
* `OpenCache.merged_miss_is_never_filled` — a run in which a sector is given up, and a later request
  reserves it for ever.
-/

import OpenCache.Reservations

set_option relaxedAutoImplicit false
set_option autoImplicit false

namespace OpenCache

variable {cfg : CacheConfig}

namespace System

/-- A request that the tags have answered takes no line that holds the block of an entry, and evicts
no sector that has an entry. -/
def SparesEntries (sys : System cfg) (m : MemFetch) (p : ProbeResult) : Prop :=
  (takesLine cfg m p.status → (sys.core.lines p.idx).isInvalidLine = false →
    ∀ a ∈ sys.core.entries.keys, cfg.blockAddr a ≠ (sys.core.lines p.idx).tag) ∧
  (p.status = .hit → m.isWrite = true → evictsOnWriteHit cfg m →
    cfg.mshrAddr m.addr ∉ sys.core.entries.keys)

instance (sys : System cfg) (m : MemFetch) (p : ProbeResult) :
    Decidable (sys.SparesEntries m p) := by
  unfold SparesEntries
  infer_instance

/-- A request that is accepted names its sector, and spares the entries. -/
def KeepsEntries (cls : CacheClass) (sys : System cfg) : Op → Prop
  | .access n m time events => sys.accepts cls (.access n m time events) = true →
      cfg.Matches m ∧ ∀ p ∈ sys.answer m, sys.SparesEntries m p
  | _ => True

instance (cls : CacheClass) (sys : System cfg) (o : Op) : Decidable (sys.KeepsEntries cls o) := by
  induction o using Op.casesOn <;> unfold KeepsEntries <;> infer_instance

theorem KeepsEntries.of_access {cls : CacheClass} {sys sys' : System cfg} {n : ℕ} {m : MemFetch}
    {time : Time} {events : List CacheEvent} {status : CacheRequestStatus} {joined : Option Token}
    (h : sys.KeepsEntries cls (.access n m time events))
    (hperform : sys.perform cls (.access n m time events) =
      .ok (sys', .access (.caller n) m status joined))
    (haccept : status ≠ .reservationFail) :
    cfg.Matches m ∧ (sys.build n m).KeepsEntries m.addr m := by
  have haccepts : sys.accepts cls (.access n m time events) = true := by
    rw [accepts, hperform]
    exact decide_eq_true haccept
  obtain ⟨hmatches, hkeeps⟩ := h haccepts
  exact ⟨hmatches, fun p hp => hkeeps p ((answer_eq_some n).2 hp)⟩

end System

/-- An access that keeps the entries spares the fetches. -/
theorem Backed.spares {c : Cache cfg} {sent : List Token} (h : Backed c.core) (hcfg : cfg.Checked)
    (hresident : Resident c.core) (htracked : Tracked c.core sent) {m : MemFetch}
    (hmatches : cfg.Matches m) (hkeeps : c.KeepsEntries m.addr m) : c.Spares m.addr m := by
  refine fun p hp => ⟨fun htakes i => ?_, fun hs hwrite hevicts => ?_⟩
  · rintro ⟨t, e, he, hidx, -⟩
    have hlive := CacheBlock.isInvalidLine_of_getStatus _ (hresident.anchored.sector t e he)
    have htag := (hresident.anchored.tenant t e he).1
    rw [hidx] at hlive htag
    exact (hkeeps p hp).1 htakes hlive _ (htracked.entry t e he).1 htag.symm
  · rintro ⟨t, e, he, hidx, hsame⟩
    have hsector := h.matched t e he
    have hblock : cfg.blockAddr e.blockAddr = cfg.blockAddr m.addr := by
      rw [← (hresident.anchored.tenant t e he).1, hidx]
      exact (hp.holds (Or.inl hs)).1
    rw [hsector, hmatches.sectorIndex] at hsame
    have hentry : e.blockAddr = cfg.mshrAddr m.addr := by
      rw [← (htracked.fetching t e he).1.aligned]
      exact hcfg.mshrAddr_eq hblock hsame
    exact (hkeeps p hp).2 hs hwrite hevicts (hentry ▸ (htracked.entry t e he).1)

/-- The fetches that are under way stay under way when a request is submitted. -/
theorem System.fetch_stays {sys sys' : System cfg} {cls : CacheClass} {n : ℕ} {m : MemFetch}
    {time : Time} {events : List CacheEvent} {status : CacheRequestStatus} {joined : Option Token}
    (htracked : Tracked sys.core sys.sent) (hpromise : sys.Promise (.access n m time events))
    (hperform : sys.perform cls (.access n m time events) =
      .ok (sys', .access (.caller n) m status joined)) {t : Token} {e : ExtraMfFields}
    (he : sys.core.extra.lookup t = some e) : sys'.core.extra.lookup t = some e := by
  have hwaits : ∀ {t}, t ∈ sys.core.extra → t ∈ sys.sent := by
    intro t ht
    obtain ⟨e, he⟩ := Option.isSome_iff_exists.1 (AList.lookup_isSome.2 ht)
    exact htracked.mem_sent he
  cases System.step_cases hpromise.suits hperform with
  | access _ _ _ _ _ hcase =>
      exact hcase.fetch_stays (fun hmem => hpromise (List.mem_append_right _ (hwaits hmem)))
        (fun hmem => lt_irrefl _ (htracked.created _ (hwaits hmem))) he

/-! ### Whole runs -/

section Run

variable {cls : CacheClass} {mfs : Token → MemFetch} {trace : List Obs} {sys : System cfg}

/-- **Entries stay backed** in every run that keeps them. -/
theorem backed_of_run (hcfg : cfg.Checked) (hon : cfg.allocPolicy = .onMiss)
    (hrun : System.Run cls (fun sys o => sys.Promise o ∧ o.clears = false ∧ sys.KeepsEntries cls o)
      (System.init cfg mfs) trace sys) :
    Tracked sys.core sys.sent ∧ Resident sys.core ∧ Backed sys.core := by
  refine hrun.state_invariant (fun sys => Tracked sys.core sys.sent ∧ Resident sys.core ∧
    Backed sys.core) ⟨?_, .init mfs, .init mfs⟩ ?_
  · have hstart : System.Run cls System.Answers (System.init cfg mfs) [] (System.init cfg mfs) :=
      .nil
    exact Tracked.of_run hstart
  · rintro sys o sys' b ⟨htracked, hresident, hbacked⟩ ⟨hpromise, hclears, hkeeps⟩ hperform
    have hquiet : ¬(o = .flush ∨ o = .invalidate) := by
      rintro (rfl | rfl) <;> cases hclears
    have hentries : ∀ n m time events status joined, o = .access n m time events →
        b = .access (.caller n) m status joined → status ≠ .reservationFail →
          cfg.Matches m ∧ (sys.build n m).KeepsEntries m.addr m := by
      rintro n m time events status joined rfl rfl haccept
      exact hkeeps.of_access hperform haccept
    refine ⟨htracked.step hpromise.answers hperform, ?_, ?_⟩
    · refine hresident.step hcfg hon htracked hpromise (fun h => absurd h hquiet) ?_ hperform
      rintro n m time events status joined rfl rfl haccept
      obtain ⟨hmatches, hkept⟩ := hentries n m time events status joined rfl rfl haccept
      exact (hbacked.build htracked hpromise m).spares hcfg (hresident.build htracked hpromise m)
        (htracked.build hpromise.answers) hmatches hkept
    · exact hbacked.step hcfg hon hresident htracked hpromise (fun h => absurd h hquiet) hentries
        hperform

/-- **A request that reserves a sector while it joins an entry waits for a fetch** that is under way
and will fill that line and that sector, in every run that keeps the entries; and no sector is ever
reserved without a fetch under way for it. -/
theorem merged_miss_waits_for_fetch (hcfg : cfg.Accepted) (hon : cfg.allocPolicy = .onMiss)
    (hrun : System.Run cls (fun sys o => sys.Promise o ∧ o.clears = false ∧ sys.KeepsEntries cls o)
      (System.init cfg mfs) trace sys) :
    (∀ n m time events sys' status reader p,
      sys.Promise (.access n m time events) → sys.KeepsEntries cls (.access n m time events) →
      sys.perform cls (.access n m time events) =
        .ok (sys', .access (.caller n) m status (some reader)) →
      status ≠ .reservationFail → cfg.mshrAddr m.addr ∈ sys.core.entries →
      sys.answer m = some p → p.status = .miss ∨ p.status = .sectorMiss →
      ∃ t e, sys'.core.extra.lookup t = some e ∧ e.blockAddr = cfg.mshrAddr m.addr ∧
        e.cacheIndex = p.idx ∧ cfg.sectorIndex (sys'.core.mfs t).accessSectorMask =
          cfg.sectorIndex m.accessSectorMask) ∧
    (∀ i j, (sys.core.lines i).getStatus j = .reserved →
      ∃ t e, sys.core.extra.lookup t = some e ∧ e.cacheIndex = i ∧
        (sys.core.lines i).tag = cfg.blockAddr e.blockAddr ∧
        cfg.SameSector (cfg.sectorIndex (sys.core.mfs t).accessSectorMask) j) := by
  obtain ⟨htracked, hresident, hbacked⟩ := backed_of_run hcfg.checked hon hrun
  constructor
  · intro n m time events sys' status reader p hpromise hkeeps hperform haccept hentry hanswer hs
    obtain ⟨hmatches, hkept⟩ := hkeeps.of_access hperform haccept
    have hp := (System.answer_eq_some n).1 hanswer
    have hhit : p.status ≠ .hit := by rcases hs with hs | hs <;> simp [hs]
    obtain ⟨t, e, he, hblock, hidx⟩ := (hbacked.build htracked hpromise m).waits_for_fetch
      hcfg.checked (hresident.build htracked hpromise m)
        (htracked.build hpromise.answers) hmatches hp
      hentry hhit (Backed.sector_of_perform hperform haccept hp)
    have hstep := hbacked.step hcfg.checked hon hresident htracked hpromise
      (fun h => by rcases h with h | h <;> cases h)
        (fun n' m' time' events' status' joined' ho hb => by
        cases ho
        cases hb
        exact fun _ => ⟨hmatches, hkept⟩) hperform
    have hstays := System.fetch_stays htracked hpromise hperform he
    refine ⟨t, e, hstays, hblock, hidx, ?_⟩
    rw [hstep.matched t e hstays, hmatches.sectorIndex, hblock, hcfg.checked.addrSector_mshrAddr]
  · intro i j hreserved
    obtain ⟨t, e, he, hidx, hsame⟩ := hbacked.reserved i j hreserved
    refine ⟨t, e, he, hidx, ?_, ?_⟩
    · rw [← hidx]
      exact (hresident.anchored.tenant t e he).1
    · rwa [hbacked.matched t e he]

end Run

/-- The answer to an access, and the request whose entry it has joined. -/
def Obs.accessed : Obs → Option (CacheRequestStatus × Option Token)
  | .access _ _ status joined => some (status, joined)
  | _ => none

/-- A sector is written while it is read, and read again before the first read is answered. -/
theorem merged_miss_waits_for_fetch_written_sector :
    ∃ trace sys sys' p t e, System.Run (.dataCache .l1)
        (fun sys o => sys.Promise o ∧ o.clears = false ∧ sys.KeepsEntries (.dataCache .l1) o)
        (System.init (CacheConfig.small 'S' 'B' 'm' 'L' 2 true) fun _ => MemFetch.load 0)
        trace sys ∧
      sys.perform (.dataCache .l1) (.access 3 (MemFetch.load 0) 3 []) =
        .ok (sys', .access (.caller 3) (MemFetch.load 0) .miss (some (.caller 3))) ∧
      sys.answer (MemFetch.load 0) = some p ∧ p.status = .sectorMiss ∧
      sys'.core.extra.lookup t = some e ∧ e.cacheIndex = p.idx := by
  obtain ⟨trace, sys, hrun, hanswer, ⟨hpromise, hkeeps⟩, hentry, hperform⟩ :
      ∃ trace sys, System.Run (.dataCache .l1)
          (fun sys o => sys.Promise o ∧ o.clears = false ∧ sys.KeepsEntries (.dataCache .l1) o)
          (System.init (CacheConfig.small 'S' 'B' 'm' 'L' 2 true) fun _ => MemFetch.load 0)
            trace sys ∧
        (sys.answer (MemFetch.load 0)).map ProbeResult.status = some .sectorMiss ∧
        (sys.Promise (.access 3 (MemFetch.load 0) 3 []) ∧
          sys.KeepsEntries (.dataCache .l1) (.access 3 (MemFetch.load 0) 3 [])) ∧
        0 ∈ sys.core.entries.keys ∧
        (sys.perform (.dataCache .l1) (.access 3 (MemFetch.load 0) 3 [])).toOption.map
          (·.2.accessed) =
          some (some (.miss, some (.caller 3))) :=
    Runs.exists_run_of_exec [.access 0 (MemFetch.store 0 {0}) 0 [],
      .access 1 (MemFetch.load 0) 1 [], .access 2 (MemFetch.store 0 {1}) 2 []] (by decide)
  obtain ⟨p, hp, hs⟩ := Option.map_eq_some_iff.1 hanswer
  obtain ⟨⟨sys', b⟩, hresult, hoption⟩ := Option.map_eq_some_iff.1 hperform
  have hok : sys.perform (.dataCache .l1) (.access 3 (MemFetch.load 0) 3 []) = .ok (sys', b) := by
    cases h : sys.perform (.dataCache .l1) (.access 3 (MemFetch.load 0) 3 []) with
    | error e =>
        rw [h] at hresult
        cases hresult
    | ok r =>
        rw [h] at hresult
        cases hresult
        rfl
  obtain ⟨⟨c, status, events⟩, -, hreturn⟩ := bind_eq_ok.1 hok
  cases hreturn
  obtain ⟨rfl, hjoined⟩ := Prod.mk.inj (Option.some.inj hoption)
  rw [hjoined] at hok
  obtain ⟨t, e, he, -, hidx, -⟩ :=
    (merged_miss_waits_for_fetch (CacheConfig.small_accepted (by decide) true) rfl hrun).1 3
      (MemFetch.load 0) 3 [] _ .miss (.caller 3) p hpromise hkeeps hok (by simp)
        hentry hp (Or.inr hs)
  exact ⟨trace, sys, _, p, t, e, hrun, hok, hp, hs, he, hidx⟩

/-- The sector of an entry is evicted after the fetch has been answered; a read that comes before
the answer is returned joins the entry, and the sector that it reserves is never filled. -/
theorem merged_miss_is_never_filled :
    (CacheConfig.small 'S' 'E' 'm' 'N' 2 true).Accepted ∧
      ∃ trace sys, System.Run (.dataCache .l1) (fun sys o => sys.Promise o ∧ o.clears = false)
        (System.init (CacheConfig.small 'S' 'E' 'm' 'N' 2 true) fun _ => MemFetch.load 0)
        trace sys ∧
      sys.core.entries.lookup 0 = some [.caller 0, .caller 2] ∧
      (sys.core.lines 0).getStatus 0 = .reserved ∧ sys.core.extra.entries = [] :=
  ⟨CacheConfig.small_accepted (by decide) true,
    Runs.exists_run_of_exec [.access 0 (MemFetch.load 0) 0 [], .cycle false, .fill (.caller 0) 1,
      .access 1 (MemFetch.store 0 {0}) 2 [], .access 2 (MemFetch.load 0) 3 []] (by decide)⟩

end OpenCache
