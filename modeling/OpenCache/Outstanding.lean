/-
The reserved sectors and the fetches under way, with deferred responses.

Every request that waits in an entry is pinned on the line of the entry, and under write-back and
write-through no hit evicts a sector.  The entries then keep their lines without any promise on the
victims, and what the tags have reserved is what the fetches under way will fill.

* `OpenCache.Joined`, `OpenCache.AccessCase.joiner_origin` — a request that joins an entry, and the
  line that it is pinned on;
* `OpenCache.PinnedEntries` — the invariant: who waits in an entry is pinned on a line that holds
  its sector;
* `OpenCache.PinnedEntries.step` — one step keeps it, when no hit evicts;
* `OpenCache.PinnedEntries.keepsEntries` — and then no access takes the line of an entry;
* `OpenCache.reserved_sectors_are_fetched` — **every reserved sector has exactly one fetch under
  way, every fetch its line, and every block one line**.
-/

import OpenCache.Merges
import OpenCache.Revivals

set_option relaxedAutoImplicit false
set_option autoImplicit false

namespace OpenCache

variable {cfg : CacheConfig}

/-! ### Requests that join an entry -/

/-- A request that an access has added to an entry, with the line that it is pinned on. -/
structure Joined (c : Cache cfg) (addr : NewAddrType) (mf : Token) (time : Time) (s' : Core cfg)
    (p : ProbeResult) (t : Token) : Prop where
  probes : c.Probes addr (c.mfs mf) p
  status : p.status = .hitReserved ∨ p.status = .miss ∨ p.status = .sectorMiss
  pinned : cfg.deferHitResponse = true → s'.pending.lookup t = some p.idx
  tenant : ∀ block, (c.touched addr (c.mfs mf) time p).BelongsTo block →
    (s'.lines p.idx).BelongsTo block
  line : ∀ j, (s'.lines p.idx).getStatus j = (c.touched addr (c.mfs mf) time p).getStatus j

/-- **Where the requests that wait in an entry come from**: they were there, or the access has added
them. -/
theorem AccessCase.joiner_origin {c : Cache cfg} {cls : CacheClass}
    {addr : NewAddrType} {mf : Token} {time : Time} {status : CacheRequestStatus} {s' : Core cfg}
    (hcase : AccessCase c cls addr mf time status s') {a : NewAddrType} {l : List Token} {t : Token}
    (hl : s'.entries.lookup a = some l) (ht : t ∈ l) :
    (∃ l₀, c.core.entries.lookup a = some l₀ ∧ t ∈ l₀) ∨
      a = cfg.mshrAddr (c.mfs mf).addr ∧ ∃ p, Joined c addr mf time s' p t := by
  cases hcase with
  | refused => exact Or.inl ⟨l, hl, ht⟩
  | hit => exact Or.inl ⟨l, by simpa [Core.setLine] using hl, ht⟩
  | forward => exact Or.inl ⟨l, hl, ht⟩
  | write => exact Or.inl ⟨l, by simpa [Core.setLine] using hl, ht⟩
  | fetch p hp hs _ reader s written hfetcher =>
      have hentries : s.entries = c.core.entries := hfetcher.frame.2.1
      have hline := fetched_line hfetcher (cfg.mshrAddr (c.mfs mf).addr) p.idx
        (c.touched addr (c.mfs mf) time p)
        (writebackOf cfg cls (c.mfs mf) p.status (c.tagArray.lines p.idx))
      dsimp only at hl ⊢
      simp only [Core.sendOwn_frame, Core.setLine, Core.miss_frame, Core.join, hentries] at hl
      by_cases ha : a = cfg.mshrAddr (c.mfs mf).addr
      · subst ha
        rw [AList.lookup_insert] at hl
        obtain rfl := Option.some_inj.1 hl
        rcases List.mem_append.1 ht with ht | ht
        · left
          cases hold : c.core.entries.lookup (cfg.mshrAddr (c.mfs mf).addr) with
          | none => simp [hold] at ht
          | some l₀ => exact ⟨l₀, rfl, by simpa [hold] using ht⟩
        · obtain rfl := List.mem_singleton.1 ht
          refine Or.inr ⟨rfl, p, hp, hs, fun hdefer => ?_, fun block hb => ?_, fun j => ?_⟩
          · simp [Core.setLine, Core.pinMiss, hdefer, Core.pin]
          · have hwritten := (SameTenant.fetcher hfetcher _).belongsTo hb
            rcases hline with hline | hline
            · rwa [hline, Function.update_self]
            · rw [hline, Function.update_self]
              exact hwritten.pin
          · rcases hline with hline | hline
            · rw [hline, Function.update_self, hfetcher.getStatus]
            · rw [hline, Function.update_self]
              exact hfetcher.getStatus _ j
      · rw [AList.lookup_insert_ne ha] at hl
        exact Or.inl ⟨l, hl, ht⟩

/-- Only an access adds a request to an entry. -/
theorem System.StepCase.joiner_origin {cls : CacheClass} {sys sys' : System cfg} {o : Op} {b : Obs}
    (hcase : System.StepCase cls sys sys' o b) {a : NewAddrType} {l : List Token} {t : Token}
    (hl : sys'.core.entries.lookup a = some l) (ht : t ∈ l) :
    (∃ l₀, sys.core.entries.lookup a = some l₀ ∧ t ∈ l₀) ∨
      ∃ n m time events p, o = .access n m time events ∧ a = cfg.mshrAddr m.addr ∧
        Joined (sys.build n m) m.addr (.caller n) time sys'.core p t := by
  have hsame : sys'.core.entries = sys.core.entries →
      ∃ l₀, sys.core.entries.lookup a = some l₀ ∧ t ∈ l₀ := fun hentries => ⟨l, hentries ▸ hl, ht⟩
  cases hcase with
  | access n m time events status hcase =>
      have hm := sys.build_mfs_caller n m
      rcases hcase.joiner_origin hl ht with hold | ⟨ha, p, hj⟩
      · exact Or.inl hold
      · rw [hm] at ha
        exact Or.inr ⟨n, m, time, events, p, rfl, ha, hj⟩
  | tick _ _ _ _ hcore => exact Or.inl (hsame ((congrArg Core.entries hcore).trans rfl))
  | push _ _ _ _ _ _ _ hcore => exact Or.inl (hsame ((congrArg Core.entries hcore).trans rfl))
  | wait _ _ _ _ _ _ _ _ hcore => exact Or.inl (hsame ((congrArg Core.entries hcore).trans rfl))
  | complete _ c _ _ horigin _ _ _ _ _ hcore =>
      refine Or.inl (hsame ((congrArg Core.entries hcore).trans ?_))
      rcases horigin with ⟨-, rfl⟩ | ⟨n, m, -, -, rfl⟩ <;> rfl
  | ready mf _ _ _ hcore =>
      exact Or.inl (hsame ((congrArg Core.entries hcore).trans (Core.unpin_frame _ mf).1))
  | deliver mf a' rest _ _ _ hentry _ hcore =>
      left
      rw [hcore, (Core.unpin_frame _ mf).1] at hl
      unfold Core.deliver at hl
      split at hl
      · by_cases ha : a = a'
        · rw [ha, AList.lookup_erase] at hl
          cases hl
        · rw [AList.lookup_erase_ne ha] at hl
          exact ⟨l, hl, ht⟩
      · by_cases ha : a = a'
        · subst ha
          rw [AList.lookup_insert] at hl
          cases hl
          exact ⟨_, hentry, List.mem_cons_of_mem _ ht⟩
        · rw [AList.lookup_insert_ne ha] at hl
          exact ⟨l, hl, ht⟩
  | flush hcore => exact Or.inl (hsame ((congrArg Core.entries hcore).trans rfl))
  | invalidate hcore => exact Or.inl (hsame ((congrArg Core.entries hcore).trans rfl))
  | retire _ hcore => exact Or.inl (hsame ((congrArg Core.entries hcore).trans rfl))

/-! ### Pinned entries -/

/-- Under write-back and write-through no write hit evicts its sector. -/
def KeepsHits (cfg : CacheConfig) (cls : CacheClass) : Prop :=
  ∀ types m, cls = .dataCache types → ¬evictsOnWriteHit cfg m

theorem KeepsHits.of_policy {cls : CacheClass} (h : cls = .readOnlyCache ∨
    cfg.writePolicy = .writeBack ∨ cfg.writePolicy = .writeThrough) : KeepsHits cfg cls := by
  rintro types m rfl
  rcases h with h | h | h
  · cases h
  · simp [evictsOnWriteHit, h]
  · simp [evictsOnWriteHit, h]

/-- Every request that waits in an entry is pinned on a line that holds the sector of the entry. -/
def PinnedEntries (s : Core cfg) : Prop :=
  ∀ a l, s.entries.lookup a = some l → ∀ t ∈ l, ∃ i, s.pending.lookup t = some i ∧
    (s.lines i).tag = cfg.blockAddr a ∧ (s.lines i).getStatus (cfg.addrSector a) ≠ .invalid

section Step

variable {cls : CacheClass} {sys sys' : System cfg} {o : Op} {b : Obs}

/-- A request that is returned waits no longer. -/
theorem System.StepCase.returned_ne (hcase : System.StepCase cls sys sys' o b)
    (hacc : Accounted sys.core) {t : Token} (ht : t ∈ sys'.core.waiting) :
    b.returned.map Prod.fst ≠ some t := by
  have hgone : ∀ {s₁ : Core cfg} {mf : Token}, sys.core.waiting.Perm (mf :: s₁.waiting) →
      sys'.core = s₁.unpin mf → mf ≠ t := by
    rintro s₁ mf hperm hcore rfl
    have hwaits : mf ∈ s₁.waiting := by
      rw [hcore] at ht
      simpa [Core.waiting, Core.hitTokens] using ht
    exact (List.nodup_cons.1 (hperm.nodup_iff.1 hacc.nodup)).1 hwaits
  intro hreturned
  cases hcase with
  | ready mf rest hqueue _ hcore =>
      exact hgone (Core.ready_waiting hqueue) hcore (Option.some_inj.1 hreturned)
  | deliver mf a rest _ _ _ hentry _ hcore =>
      exact hgone (Core.deliver_waiting hentry) hcore (Option.some_inj.1 hreturned)
  | _ => cases hreturned

/-- A sector of a pinned line is not lost, unless the lines are cleared. -/
theorem System.StepCase.pinned_sector_stays (hcase : System.StepCase cls sys sys' o b)
    (hon : cfg.allocPolicy = .onMiss) (hhits : KeepsHits cfg cls) (htagged : Tagged sys.core)
    (hclears : o.clears = false) {i : ℕ} {j : Fin 4}
    (hcount : (sys.core.lines i).pendingResponseCount ≠ 0)
    (hstate : (sys.core.lines i).getStatus j ≠ .invalid) :
    (sys'.core.lines i).getStatus j ≠ .invalid := by
  have hunpin : ∀ {s₁ : Core cfg} {mf : Token}, s₁.lines = sys.core.lines →
      sys'.core = s₁.unpin mf → (sys'.core.lines i).getStatus j ≠ .invalid := by
    rintro s₁ mf hlines hcore
    rwa [hcore, CacheBlock.getStatus, CacheBlock.sectorAt, (Resident.unpin_line s₁ mf i).2, hlines]
  cases hcase with
  | access n m time events status hcase =>
      by_cases hrefused : status = .reservationFail
      · subst hrefused
        rw [hcase.refused_eq]
        exact hstate
      · have hcase' := System.access_of_build hcase
        have htagged' : Tagged (sys.build n m).core := htagged
        refine (hcase'.sector_stays hon htagged' hstate fun p line hp hline hidx => ?_).2
        refine ⟨fun hmiss => ?_, fun _ hwrite hevicts => ?_⟩
        · subst hidx
          exact absurd (TagArray.count_of_miss hp hmiss) hcount
        · obtain ⟨types, hcls⟩ := hcase'.dataCache_of_write hwrite hrefused
          exact absurd hevicts (hhits types _ hcls)
  | tick _ _ _ _ hcore =>
      rw [hcore]
      exact hstate
  | push _ _ _ _ _ _ _ hcore =>
      rw [hcore]
      exact hstate
  | wait _ _ _ _ _ _ _ _ hcore =>
      rw [hcore]
      exact hstate
  | complete _ c mf _ horigin e _ _ lines hfill hcore =>
      have hlines : c.tagArray.lines = sys.core.lines := by
        rcases horigin with ⟨-, rfl⟩ | ⟨n, m, -, -, rfl⟩ <;> rfl
      cases hfill with
      | onMiss _ hi =>
          rw [hcore, hlines]
          by_cases hidx : i = e.cacheIndex
          · subst hidx
            simp only [Function.update_self, CacheBlock.getStatus_fill]
            split
            · split <;> simp
            · exact hstate
          · simp only [Function.update_of_ne hidx]
            exact hstate
      | onFill hpolicy =>
          rw [hon] at hpolicy
          cases hpolicy
  | ready mf rest _ _ hcore =>
      refine hunpin ?_ hcore
      rfl
  | deliver mf a rest _ _ _ _ _ hcore =>
      refine hunpin ?_ hcore
      unfold Core.deliver
      split <;> rfl
  | flush => cases hclears
  | invalidate => cases hclears
  | retire _ hcore =>
      rw [hcore]
      exact hstate

end Step

namespace PinnedEntries

/-- An access that takes a line takes none from an entry. -/
theorem takes_no_entry {c : Cache cfg} (h : PinnedEntries c.core) (hacc : Accounted c.core)
    (hhoused : Housed c.core) (hnonempty : ∀ a, c.core.entries.lookup a ≠ some [])
    {addr : NewAddrType} {m : MemFetch} {p : ProbeResult} (hp : c.Probes addr m p)
    (htakes : takesLine cfg m p.status) (hlive : (c.tagArray.lines p.idx).isInvalidLine = false)
    {a : NewAddrType} (ha : a ∈ c.core.entries) :
    cfg.blockAddr a ≠ (c.tagArray.lines p.idx).tag := by
  intro hblock
  obtain ⟨l, hl⟩ := Option.isSome_iff_exists.1 (AList.lookup_isSome.2 ha)
  obtain ⟨t, ht⟩ := List.exists_mem_of_ne_nil l fun hnil => hnonempty a (hnil ▸ hl)
  obtain ⟨i, hpin, htag, hstate⟩ := h a l hl t ht
  -- the line of the entry is the victim, which has no pin
  obtain rfl : i = p.idx := hhoused.unique i p.idx (CacheBlock.isInvalidLine_of_getStatus _ hstate)
    hlive (htag.trans hblock)
  exact hacc.count_ne_zero hpin (TagArray.count_of_miss hp htakes.1)

/-- **No access takes the line of an entry**, and none that is accepted evicts its sector. -/
theorem keepsEntries {c : Cache cfg} {cls : CacheClass} {addr : NewAddrType} {mf : Token}
    {time : Time} {status : CacheRequestStatus} {s' : Core cfg} (h : PinnedEntries c.core)
    (hacc : Accounted c.core) (hhoused : Housed c.core)
    (hnonempty : ∀ a, c.core.entries.lookup a ≠ some []) (hhits : KeepsHits cfg cls)
    (haccept : status ≠ .reservationFail) (hcase : AccessCase c cls addr mf time status s') :
    c.KeepsEntries addr (c.mfs mf) := by
  refine fun p hp => ⟨fun htakes hlive a ha => ?_, fun _ hwrite hevicts => ?_⟩
  · exact h.takes_no_entry hacc hhoused hnonempty hp htakes hlive ha
  · obtain ⟨types, hcls⟩ := hcase.dataCache_of_write hwrite haccept
    exact absurd hevicts (hhits types _ hcls)

variable {cls : CacheClass} {sys sys' : System cfg} {o : Op} {b : Obs}

/-- **One step keeps the requests of the entries on their lines.** -/
theorem step (h : PinnedEntries sys.core) (hcfg : cfg.Checked) (hon : cfg.allocPolicy = .onMiss)
    (hdefer : cfg.deferHitResponse = true) (hhits : KeepsHits cfg cls) (hacc : Accounted sys.core)
    (htagged : Tagged sys.core) (hpromise : sys.Promise o)
    (hmatches : ∀ n m time events, o = .access n m time events → cfg.Matches m)
    (hclears : o.clears = true → ∀ a, a ∉ sys.core.entries)
    (hperform : sys.perform cls o = .ok (sys', b))
    (hpins : PinsStay sys.core sys'.core (b.returned.map Prod.fst)) : PinnedEntries sys'.core := by
  intro a l hl t ht
  have hcase : System.StepCase cls sys sys' o b := System.step_cases hpromise.suits hperform
  have hwaits : ∀ {s : Core cfg} {a : NewAddrType} {l : List Token}, s.entries.lookup a = some l →
      t ∈ l → t ∈ s.waiting := fun hl ht =>
    List.mem_append_right _ (AList.mem_values.2 ⟨_, _, hl, ht⟩)
  rcases hcase.joiner_origin hl ht with ⟨l₀, hl₀, ht₀⟩ | ⟨n, m, time, events, p, rfl, rfl, hj⟩
  · obtain ⟨i, hpin, htag, hstate⟩ := h a l₀ hl₀ t ht₀
    have hcount := hacc.count_ne_zero hpin
    have hkept := hpins.kept t (hwaits hl₀ ht₀) (hcase.returned_ne hacc (hwaits hl ht))
    refine ⟨i, hkept.trans hpin, ?_, ?_⟩
    · exact (hpins.stay i hcount _ (htagged i)).1.trans htag
    · refine hcase.pinned_sector_stays hon hhits htagged ?_ hcount hstate
      rw [← Bool.not_eq_true]
      exact fun hclear => hclears hclear a (AList.lookup_isSome.1 (by rw [hl₀]; rfl))
  · have hm := sys.build_mfs_caller n m
    have htouched := Tagged.touched hon (c := sys.build n m) htagged hj.probes hj.status time
    refine ⟨p.idx, hj.pinned hdefer, ?_, ?_⟩
    · rw [hcfg.blockAddr_mshrAddr]
      exact (hj.tenant _ htouched).1
    · have hown : cfg.SameSector
          (cfg.sectorIndex ((sys.build n m).mfs (.caller n)).accessSectorMask)
          (cfg.addrSector (cfg.mshrAddr m.addr)) := by
        rw [hm, hcfg.addrSector_mshrAddr, (hmatches n m time events rfl).sectorIndex]
        exact .refl _ _
      rw [hj.line, LineAfter.getStatus_touched_own hon hj.probes hj.status hown]
      simp

end PinnedEntries

/-! ### Whole runs -/

/-- Requests name the sector that their address lies in, and flushes and invalidations find the MSHR
table empty. -/
def System.Careful (sys : System cfg) : Op → Prop
  | .access _ m _ _ => cfg.Matches m
  | .flush => sys.core.entries.keys = []
  | .invalidate => sys.core.entries.keys = []
  | _ => True

instance (sys : System cfg) (o : Op) : Decidable (sys.Careful o) := by
  induction o using Op.casesOn <;> unfold System.Careful <;> infer_instance

theorem System.Careful.empty {sys : System cfg} {o : Op} (h : sys.Careful o)
    (hclears : o.clears = true) : ∀ a, a ∉ sys.core.entries := by
  have hkeys : sys.core.entries.keys = [] := by
    cases o with
    | flush => exact h
    | invalidate => exact h
    | _ => cases hclears
  intro a ha
  rw [AList.mem_keys, hkeys] at ha
  cases ha

section Run

variable {cls : CacheClass} {mfs : Token → MemFetch} {trace : List Obs} {sys : System cfg}

/-- Blocks stay in their sets, entries stay backed, and their requests stay pinned. -/
theorem pinnedEntries_of_run (hcfg : cfg.Checked) (hon : cfg.allocPolicy = .onMiss)
    (hdefer : cfg.deferHitResponse = true) (hhits : KeepsHits cfg cls)
    (hrun : System.Run cls (fun sys o => sys.Promise o ∧ sys.Careful o) (System.init cfg mfs) trace
      sys) : Resident sys.core ∧ Backed sys.core ∧ PinnedEntries sys.core := by
  refine hrun.reachable_invariant
    (fun _ sys => Resident sys.core ∧ Backed sys.core ∧ PinnedEntries sys.core)
    ⟨.init mfs, .init mfs, fun a l hl => by cases hl⟩ ?_
  rintro trace sys o sys' b hbefore ⟨hresident, hbacked, hpinned⟩ ⟨hpromise, hcareful⟩ hperform
  obtain ⟨⟨hacc, htracked, hdelivered⟩, htagged, hhomed⟩ :=
    homed_of_run hon hdefer (hbefore.mono fun _ _ h => h.1)
  obtain ⟨hpins, -⟩ := hhomed.step hon hdefer hacc htagged (fun p hp => hdelivered.waits hp)
    hpromise hperform
  have hclear : o = .flush ∨ o = .invalidate → ∀ a, a ∉ sys.core.entries := by
    rintro (rfl | rfl)
    · exact hcareful.empty rfl
    · exact hcareful.empty rfl
  -- every accepted access keeps the entries, by the pins of their requests
  have hentries : ∀ n m time events status joined, o = .access n m time events →
      b = .access (.caller n) m status joined → status ≠ .reservationFail →
        cfg.Matches m ∧ (sys.build n m).KeepsEntries m.addr m := by
    rintro n m time events status joined rfl rfl haccept
    refine ⟨hcareful, ?_⟩
    have hm := sys.build_mfs_caller n m
    have hbuilt : Accounted (sys.build n m).core :=
      hacc.of_same (List.Perm.refl _) rfl (fun _ => rfl) le_rfl
    have hpinned' : PinnedEntries (sys.build n m).core := hpinned
    cases System.step_cases hpromise.suits hperform with
    | access _ _ _ _ _ hcase =>
        have hkeeps := hpinned'.keepsEntries hbuilt (hresident.build htracked hpromise m).housed
          htracked.nonempty hhits haccept hcase
        rwa [hm] at hkeeps
  refine ⟨?_, hbacked.step hcfg hon hresident htracked hpromise hclear hentries hperform,
    hpinned.step hcfg hon hdefer hhits hacc htagged hpromise ?_ hcareful.empty hperform hpins⟩
  · refine hresident.step hcfg hon htracked hpromise (fun h t => ?_) ?_ hperform
    · rw [← Option.not_isSome_iff_eq_none]
      intro hsome
      obtain ⟨e, he⟩ := Option.isSome_iff_exists.1 hsome
      exact hclear h _ (htracked.entry t e he).1
    · rintro n m time events status joined ho hb haccept
      obtain ⟨hmatches, hkept⟩ := hentries n m time events status joined ho hb haccept
      subst ho
      exact (hbacked.build htracked hpromise m).spares hcfg (hresident.build htracked hpromise m)
        (htracked.build hpromise.answers) hmatches hkept
  · rintro n m time events rfl
    exact hcareful

/-- **Reserved sectors and fetches under way are in step**, in every run whose requests name their
sectors and whose flushes and invalidations find the MSHR table empty.  Each reserved sector has
exactly one fetch under way for its line and its block, each fetch under way has its line, and in
each set a block has one line at most. -/
theorem reserved_sectors_are_fetched (hcfg : cfg.Accepted) (hon : cfg.allocPolicy = .onMiss)
    (hdefer : cfg.deferHitResponse = true) (hpolicy : cls = .readOnlyCache ∨
      cfg.writePolicy = .writeBack ∨ cfg.writePolicy = .writeThrough)
    (hrun : System.Run cls (fun sys o => sys.Promise o ∧ sys.Careful o) (System.init cfg mfs) trace
      sys) :
    (∀ i j, (sys.core.lines i).getStatus j = .reserved → ∃! t, ∃ e,
      sys.core.extra.lookup t = some e ∧ e.cacheIndex = i ∧
        cfg.blockAddr e.blockAddr = (sys.core.lines i).tag ∧
        cfg.SameSector (cfg.addrSector e.blockAddr) j) ∧
    (∀ t e, sys.core.extra.lookup t = some e →
      (sys.core.lines e.cacheIndex).tag = cfg.blockAddr e.blockAddr) ∧
    sys.core.OneLine := by
  obtain ⟨hresident, hbacked, -⟩ :=
    pinnedEntries_of_run hcfg.checked hon hdefer (.of_policy hpolicy) hrun
  obtain ⟨⟨-, htracked, -⟩, -⟩ := homed_of_run hon hdefer (hrun.mono fun _ _ h => h.1)
  refine ⟨fun i j hreserved => ?_, fun t e he => (hresident.anchored.tenant t e he).1,
    hresident.housed.oneLine⟩
  obtain ⟨t, e, he, hidx, hsame⟩ := hbacked.reserved i j hreserved
  have htag := (hresident.anchored.tenant t e he).1
  rw [hidx] at htag
  refine ⟨t, ⟨e, he, hidx, htag.symm, hsame⟩, ?_⟩
  rintro t' ⟨e', he', -, hblock', hsame'⟩
  -- two fetches for a sector of a block are for one entry
  refine htracked.unique t' e' t e he' he ?_
  rw [← (htracked.fetching t' e' he').1.aligned, ← (htracked.fetching t e he).1.aligned]
  exact hcfg.checked.mshrAddr_eq (hblock'.trans htag) (hsame'.trans hsame.symm)

end Run

/-- A sector is written while it is fetched, and fetched again: it has one fetch. -/
theorem reserved_sectors_are_fetched_written_sector :
    ∃ trace sys, System.Run (.dataCache .l1) (fun sys o => sys.Promise o ∧ sys.Careful o)
        (System.init (CacheConfig.small 'S' 'B' 'm' 'L' 2 true) fun _ => MemFetch.load 0)
        trace sys ∧
      (sys.core.lines 1).getStatus 0 = .reserved ∧
      ∃! t, ∃ e, sys.core.extra.lookup t = some e ∧ e.cacheIndex = 1 := by
  obtain ⟨trace, sys, hrun, hreserved, hextra⟩ :
      ∃ trace sys, System.Run (.dataCache .l1) (fun sys o => sys.Promise o ∧ sys.Careful o)
          (System.init (CacheConfig.small 'S' 'B' 'm' 'L' 2 true) fun _ => MemFetch.load 0)
            trace sys ∧
        (sys.core.lines 1).getStatus 0 = .reserved ∧ sys.core.extra.keys = [.caller 1] :=
    Runs.exists_run_of_exec [.access 0 (MemFetch.store 0 {0}) 0 [],
      .access 1 (MemFetch.load 0) 1 [], .access 2 (MemFetch.store 0 {1}) 2 [],
      .access 3 (MemFetch.load 0) 3 []] (by decide)
  obtain ⟨t, ⟨e, he, hidx, -⟩, -⟩ := (reserved_sectors_are_fetched
    (CacheConfig.small_accepted (by decide) true) rfl rfl (Or.inr (Or.inl rfl)) hrun).1
      1 0 hreserved
  refine ⟨trace, sys, hrun, hreserved, t, ⟨e, he, hidx⟩, ?_⟩
  have honly : ∀ {t e}, sys.core.extra.lookup t = some e → t = .caller 1 := fun he => by
    have hmem := AList.mem_keys.1 (AList.lookup_isSome.1 (by rw [he]; rfl))
    rwa [hextra, List.mem_singleton] at hmem
  rintro t' ⟨e', he', -⟩
  exact (honly he').trans (honly he).symm

/-- Two ways to reserve a sector that no fetch is under way for.  A block is read and invalidated
after its fetch has been answered, and read again before the first read is returned; or two requests
for one address name different sectors. -/
theorem reserved_sector_without_fetch :
    (CacheConfig.small 'S' 'B' 'm' 'N' 2 true).Accepted ∧
      (∃ trace sys, System.Run (.dataCache .l1)
        (fun sys o => sys.Promise o ∧ (o.clears = true → sys.core.extra.keys = []))
        (System.init (CacheConfig.small 'S' 'B' 'm' 'N' 2 true) fun _ => MemFetch.load 0)
        trace sys ∧
        (sys.core.lines 0).getStatus 0 = .reserved ∧ sys.core.extra.entries = []) ∧
      ∃ trace sys, System.Run (.dataCache .l1) (fun sys o => sys.Promise o ∧ o.clears = false)
        (System.init (CacheConfig.small 'S' 'B' 'm' 'N' 2 true) fun _ => MemFetch.load 0)
        trace sys ∧
        (sys.core.lines 1).getStatus 1 = .reserved ∧ sys.core.extra.entries = [] := by
  refine ⟨CacheConfig.small_accepted (by decide) true, ?_, ?_⟩
  · exact Runs.exists_run_of_exec [.access 0 (MemFetch.load 0) 0 [], .cycle false,
      .fill (.caller 0) 1, .invalidate, .access 1 (MemFetch.load 0) 2 []] (by decide)
  · exact Runs.exists_run_of_exec [.access 0 (MemFetch.load 0) 0 [],
      .access 1 (MemFetch.new .globalAccR 0 32 false ∅ {1} 0 none none) 1 [], .cycle false,
      .fill (.caller 0) 2] (by decide)

end OpenCache
