/-
The lines of an allocate-on-fill cache, and the requests that wait for them.

A miss of such a cache takes no line, and yet `send_read_request` pins the way that `probe` has
proposed for it.  The fill searches once more, and `probe` passes over every way that is pinned: it
takes another way, which nobody has pinned, or finds none, and stops at the assertion that demands
`ON_MISS`.

* `OpenCache.Core.pinsIn` — the requests that wait and are pinned on the ways of a set;
* `OpenCache.Core.Unfilled` — no line has been filled, and no two requests are pinned on one way;
* `OpenCache.System.Protects` — a step that does not stop at the assertion, and whose fill leaves
  its block in a pinned line;
* `OpenCache.System.KeepsUnfilled` — a step that completes no fetch, and finds a way without a pin;
* `OpenCache.fills_protect_lines_iff` — **the runs of the one kind are the runs of the other**;
* `OpenCache.fills_protect_no_line` — a fill that stops at the assertion, and one that leaves its
  line to the next victim.
-/

import OpenCache.Resizing

set_option relaxedAutoImplicit false
set_option autoImplicit false

namespace OpenCache

variable {cfg : CacheConfig}

/-! ### The search in a set without a filled line -/

theorem CacheBlock.isInvalidLine_pin {k : CacheType} (b : CacheBlock k) :
    b.pin.isInvalidLine = b.isInvalidLine :=
  isInvalidLine_congr fun _ => rfl

namespace TagArray

variable {ta : TagArray cfg} {addr : NewAddrType} {idx : ℕ} {mask : MemAccessSectorMask}
  {isWrite : Bool}

/-- An invalid line is a victim unless it is pinned. -/
theorem eligible_of_invalid {i : ℕ} (h : (ta.lines i).isInvalidLine = true) :
    ta.eligible i = !(ta.lines i).isPinned := by
  have hinvalid := (CacheBlock.isInvalidLine_iff _).1 h
  have hreserved : (ta.lines i).isReservedLine = false := by
    rw [← Bool.not_eq_true, CacheBlock.isReservedLine_iff]
    rintro ⟨j, hj⟩
    cases (hinvalid j).symm.trans hj
  have hmodified : (ta.lines i).isModifiedLine = false := by
    rw [← Bool.not_eq_true, CacheBlock.isModifiedLine_iff]
    rintro ⟨j, hj⟩
    cases (hinvalid j).symm.trans hj
  simp [eligible, hreserved, hmodified]

/-- Where no line is valid, a cache that allocates on fills can only answer `MISS`, with a way that
is not pinned. -/
theorem miss_of_invalid (hon : cfg.allocPolicy = .onFill)
    (hinvalid : ∀ i, (ta.lines i).isInvalidLine = true) {p : ProbeResult}
    (h : ta.probe addr idx mask isWrite = .ok p) :
    p.status = .miss ∧ (ta.lines p.idx).isPinned = false ∧
      ∃ setIndex, cfg.setIndex addr = .ok setIndex ∧ p.idx ∈ waysOf cfg setIndex := by
  obtain ⟨setIndex, hset, hprobed⟩ := probed_of_probe h
  have hnone : ¬(p.status = .hit ∨ p.status = .hitReserved ∨ p.status = .sectorMiss) := by
    intro hfound
    obtain ⟨-, -, -, hmatch⟩ := hprobed.found hfound
    rw [CacheBlock.matchStatus_eq_none.2 ⟨?_, hinvalid _⟩] at hmatch
    · cases hmatch
    · exact (CacheBlock.isInvalidLine_iff _).1 (hinvalid _) _
  have hmiss : p.status = .miss := by
    cases hs : p.status with
    | miss => rfl
    | reservationFail =>
        have hmissing := (hprobed.fail hs).1
        rw [hon] at hmissing
        cases hmissing
    | mshrHit => exact absurd hs hprobed.ne_mshrHit
    | _ => exact absurd (by simp [hs]) hnone
  obtain ⟨hway, heligible⟩ := hprobed.miss hmiss
  rw [eligible_of_invalid (hinvalid _), Bool.not_eq_true'] at heligible
  exact ⟨hmiss, heligible, setIndex, hset, hway⟩

/-- The assertion that demands `ON_MISS`: no way of the set is a victim. -/
theorem ineligible_of_probe (h : ta.probe addr idx mask isWrite = .error .probeAllReserved) :
    ∃ setIndex, cfg.setIndex addr = .ok setIndex ∧
      ∀ j ∈ waysOf cfg setIndex, ta.eligible j = false := by
  have hplain : ∀ e : Abort, e.plain = true → e ≠ .probeAllReserved := by
    rintro e he rfl
    cases he
  rcases bind_eq_error.1 h with hset | ⟨setIndex, hset, h⟩
  · exact absurd rfl (CacheConfig.setIndex_only hplain addr _ hset)
  refine ⟨setIndex, hset, ?_⟩
  rcases bind_eq_error.1 h with hscan | ⟨r, hr, h⟩
  · exact absurd rfl (scanWays_only hplain ta _ mask isWrite _ _ _ hscan)
  have hspec := scanWays_spec hr (ScanInv.init ta)
  cases r with
  | found status index => cases h
  | exhausted s =>
      obtain ⟨hinv, -⟩ := hspec
      rw [List.nil_append] at hinv
      dsimp only at h
      split at h
      · next hres => exact hinv.allReserved hres
      · split at h <;> cases h

end TagArray

/-! ### The pins of a set -/

namespace Core

variable {s s' : Core cfg}

/-- The number of requests that wait and are pinned on a way of a set. -/
def pinsIn (s : Core cfg) (setIndex : ℕ) : ℕ :=
  s.pending.entries.countP fun e => e.2 ∈ TagArray.waysOf cfg setIndex

/-- No line has been filled, and no two requests are pinned on one way. -/
structure Unfilled (s : Core cfg) : Prop where
  invalid : ∀ i, (s.lines i).isInvalidLine = true
  onePin : ∀ i, s.pinsOn i ≤ 1

namespace Unfilled

/-- The pinned ways of a set are as many as the requests that are pinned on them. -/
theorem pinsIn_lt_iff (h : s.Unfilled) (hacc : Accounted s) (setIndex : ℕ) :
    s.pinsIn setIndex < cfg.assoc ↔
      ∃ i ∈ TagArray.waysOf cfg setIndex, (s.lines i).isPinned = false := by
  have hways : (TagArray.waysOf cfg setIndex).length = cfg.assoc := by simp [TagArray.waysOf]
  have hnodupWays : (TagArray.waysOf cfg setIndex).Nodup :=
    (TagArray.waysOf_sorted cfg setIndex).imp fun hlt => hlt.ne
  -- the pinned ways of the set, each once
  let pinned := (s.pending.entries.map Sigma.snd).filter fun i => i ∈ TagArray.waysOf cfg setIndex
  have hlength : s.pinsIn setIndex = pinned.length := by
    rw [pinsIn, ← List.countP_eq_length_filter, List.countP_map]
    rfl
  have hnodup : pinned.Nodup := by
    refine List.Nodup.filter _ (List.nodup_iff_count_le_one.2 fun i => ?_)
    refine le_trans (le_of_eq ?_) (h.onePin i)
    rw [List.count, List.countP_map, Core.pinsOn]
    refine List.countP_congr fun e _ => ?_
    simp
  have hmem : ∀ i, i ∈ pinned ↔
      i ∈ TagArray.waysOf cfg setIndex ∧ (s.lines i).isPinned = true := by
    intro i
    have hpinned : (s.lines i).isPinned = true ↔ i ∈ s.pending.entries.map Sigma.snd := by
      rw [CacheBlock.isPinned, decide_eq_true_eq, hacc.count, Core.pinsOn, ← Nat.pos_iff_ne_zero,
        List.countP_pos_iff, List.mem_map]
      simp
    rw [List.mem_filter, hpinned, decide_eq_true_eq, and_comm]
  rw [hlength]
  constructor
  · intro hlt
    by_contra hall
    push Not at hall
    have hsub : TagArray.waysOf cfg setIndex ⊆ pinned := fun i hi =>
      (hmem i).2 ⟨hi, by simpa using hall i hi⟩
    have hle := (List.subperm_of_subset hnodupWays hsub).length_le
    omega
  · rintro ⟨i, hi, hunpinned⟩
    have hnot : i ∉ pinned := by
      rw [hmem, hunpinned]
      simp
    have hsub : i :: pinned ⊆ TagArray.waysOf cfg setIndex := by
      refine List.cons_subset.2 ⟨hi, fun j hj => ((hmem j).1 hj).1⟩
    have hle := (List.subperm_of_subset (List.nodup_cons.2 ⟨hnot, hnodup⟩) hsub).length_le
    rw [List.length_cons] at hle
    omega

theorem init (mfs : Token → MemFetch) : (System.init cfg mfs).core.Unfilled := by
  refine ⟨fun i => (CacheBlock.isInvalidLine_iff _).2 fun j => ?_, fun i => Nat.zero_le _⟩
  change ((CacheBlock.init cfg.cacheType).sectorAt j).status = .invalid
  rw [CacheBlock.sectorAt_init]
  rfl

/-- No line comes to life, and no pin is added. -/
theorem of_le (h : s.Unfilled) (hinvalid : ∀ i, (s'.lines i).isInvalidLine = true)
    (hpins : ∀ i, s'.pinsOn i ≤ s.pinsOn i) : s'.Unfilled :=
  ⟨hinvalid, fun i => (hpins i).trans (h.onePin i)⟩

/-- An access pins a way that was not pinned, and leaves it invalid. -/
theorem access {c : Cache cfg} {cls : CacheClass} {mf : Token} {addr : NewAddrType} {time : Time}
    {status : CacheRequestStatus} (h : c.core.Unfilled) (hcfg : cfg.Checked)
    (hon : cfg.allocPolicy = .onFill) (hacc : Accounted c.core) (hacc' : Accounted s')
    (hcase : AccessCase c cls addr mf time status s') : s'.Unfilled := by
  have hpolicy : ¬(cfg.writeAllocPolicy = .fetchOnWrite ∨
      cfg.writeAllocPolicy = .lazyFetchOnRead) := by
    intro hfetch
    have hmissing := hcfg.fetch hfetch
    rw [hon] at hmissing
    cases hmissing
  rcases hcase.line_after with ⟨hlines, -⟩ | ⟨p, line, hp, hline, hlines⟩
  · refine h.of_le (fun i => ?_) fun i => ?_
    · rw [hlines]
      exact h.invalid i
    · rw [← hacc'.count, ← hacc.count, hlines]
      rfl
  obtain ⟨hmiss, hunpinned, -⟩ := TagArray.miss_of_invalid hon h.invalid hp
  have hzero : (c.tagArray.lines p.idx).pendingResponseCount = 0 := by
    simpa [CacheBlock.isPinned] using hunpinned
  have hsame : line = c.tagArray.lines p.idx := by
    have htouched : c.touched addr (c.mfs mf) time p = c.tagArray.lines p.idx := by
      simp [Cache.touched, TagArray.touchedLine, hmiss, hon]
    cases hline with
    | hit hs => simp [hs] at hmiss
    | write _ _ _ _ heffect =>
        cases heffect with
        | full hfetch => exact absurd (Or.inl hfetch) hpolicy
        | onRead hlazy => exact absurd (Or.inr hlazy) hpolicy
    | fetch _ _ _ _ hfetcher =>
        cases hfetcher with
        | read => exact htouched
        | naive => exact htouched
        | fetchOnWrite _ _ _ hfetch => exact absurd (Or.inl hfetch) hpolicy
  have hpin : ∀ i, (s'.lines i).isInvalidLine = true ∧ (s'.lines i).pendingResponseCount ≤ 1 := by
    intro i
    have hold : (c.tagArray.lines i).pendingResponseCount ≤ 1 :=
      (hacc.count i).trans_le (h.onePin i)
    subst hsame
    rcases hlines with hlines | hlines
    · rw [hlines, Function.update_eq_self]
      exact ⟨h.invalid i, hold⟩
    · rw [hlines]
      by_cases hi : i = p.idx
      · subst hi
        rw [Function.update_self]
        refine ⟨?_, (congrArg (· + 1) hzero).le⟩
        rw [CacheBlock.isInvalidLine_pin]
        exact h.invalid p.idx
      · rw [Function.update_of_ne hi]
        exact ⟨h.invalid i, hold⟩
  exact ⟨fun i => (hpin i).1, fun i => (hacc'.count i).ge.trans (hpin i).2⟩

end Unfilled

end Core

/-- The tags have answered every access that returns. -/
theorem Cache.probes_of_access {c : Cache cfg} {cls : CacheClass} {addr : NewAddrType} {mf : Token}
    {time : Time} {events : List CacheEvent} {r : Handled cfg}
    (h : c.access cls addr mf time events = .ok r) : ∃ p, c.Probes addr (c.mfs mf) p := by
  cases cls with
  | readOnlyCache =>
      obtain ⟨_, -, h⟩ := bind_eq_ok.1 h
      obtain ⟨_, -, h⟩ := bind_eq_ok.1 h
      obtain ⟨_, -, h⟩ := bind_eq_ok.1 h
      obtain ⟨⟨c₁, p⟩, hp, -⟩ := bind_eq_ok.1 h
      exact ⟨p, probes_of_probeTags hp⟩
  | dataCache types =>
      obtain ⟨_, -, h⟩ := bind_eq_ok.1 h
      obtain ⟨_, -, h⟩ := bind_eq_ok.1 h
      obtain ⟨⟨c₁, p⟩, hp, -⟩ := bind_eq_ok.1 h
      exact ⟨p, probes_of_probeTags hp⟩

/-! ### Steps that protect what they fill -/

namespace System

/-- **What allocation on fills promises of a step**: the search does not stop at the assertion that
demands `ON_MISS`, and if the step completes a fetch, a pinned line holds the block as long as
requests of its MSHR entry wait. -/
def Protects (cls : CacheClass) (sys : System cfg) (o : Op) : Prop :=
  sys.perform cls o ≠ .error .probeAllReserved ∧
    ∀ sys' b, sys.perform cls o = .ok (sys', b) → ∀ r ∈ sys.completes o,
      ∀ l ∈ sys'.core.entries.lookup r.2.blockAddr, l ≠ [] →
        ∃ i, TagArray.Holds sys'.core.lines i (cfg.tag r.2.blockAddr) ∧
          (sys'.core.lines i).isPinned = true

/-- A response completes no fetch, and an access comes to a set that has a way for each request that
is pinned in it, and one more. -/
def KeepsUnfilled (sys : System cfg) : Op → Prop
  | .access _ m _ _ => ∀ setIndex ∈ (cfg.setIndex (cfg.blockAddr m.addr)).toOption,
      sys.core.pinsIn setIndex < cfg.assoc
  | o => sys.completes o = none

instance (sys : System cfg) (o : Op) : Decidable (sys.KeepsUnfilled o) := by
  induction o using Op.casesOn <;> unfold KeepsUnfilled <;> infer_instance

theorem KeepsUnfilled.completes {sys : System cfg} {o : Op} (h : sys.KeepsUnfilled o) :
    sys.completes o = none := by
  cases o with
  | access => rfl
  | _ => exact h

variable {cls : CacheClass} {sys sys' : System cfg} {o : Op} {b : Obs}

/-- **A step that completes no fetch fills no line.** -/
theorem unfilled_step (h : sys.core.Unfilled) (hcfg : cfg.Checked) (hon : cfg.allocPolicy = .onFill)
    (hdefer : cfg.deferHitResponse = true) (hacc : Accounted sys.core) (hpromise : sys.Promise o)
    (hnone : sys.completes o = none) (hperform : sys.perform cls o = .ok (sys', b)) :
    sys'.core.Unfilled := by
  have hacc' := hacc.step hdefer hpromise.distinct hperform
  have hpins : ∀ {t : Token}, sys'.core.pending = sys.core.pending.erase t →
      ∀ i, sys'.core.pinsOn i ≤ sys.core.pinsOn i := by
    intro t hpending i
    rw [Core.pinsOn, Core.pinsOn, hpending]
    exact (List.kerase_sublist t _).countP_le
  cases System.step_cases hpromise.suits hperform with
  | access n m time events status hcase =>
      have hbuild : Accounted (sys.build n m).core :=
        hacc.of_same (List.Perm.refl _) rfl (fun _ => rfl) le_rfl
      have hunfilled : (sys.build n m).core.Unfilled := ⟨h.invalid, h.onePin⟩
      exact hunfilled.access hcfg hon hbuild hacc' hcase
  | tick _ _ _ _ hcore =>
      rw [hcore]
      exact h.of_le h.invalid fun _ => le_rfl
  | push _ _ _ _ _ _ _ hcore =>
      rw [hcore]
      exact h.of_le h.invalid fun _ => le_rfl
  | wait _ _ _ _ _ _ _ _ hcore =>
      rw [hcore]
      exact h.of_le h.invalid fun _ => le_rfl
  | complete _ c mf _ horigin e he _ lines _ hcore =>
      have hextra : sys'.core.extra.lookup mf = none := by
        have herase : c.core.extra = sys.core.extra := by
          rcases horigin with ⟨-, rfl⟩ | ⟨n, m, -, -, rfl⟩ <;> rfl
        rw [hcore]
        exact AList.lookup_erase _ _
      cases hnone.symm.trans ((completes_eq_some_iff hpromise hperform he).2 ⟨rfl, hextra⟩)
  | ready mf rest _ _ hcore =>
      refine h.of_le (fun i => ?_) (hpins (t := mf) ?_)
      · rw [hcore, Placed.isInvalidLine_unpin]
        exact h.invalid i
      · rw [hcore, Core.unpin_pending]
  | deliver mf a rest _ _ _ _ _ hcore =>
      refine h.of_le (fun i => ?_) (hpins (t := mf) ?_)
      · rw [hcore, Placed.isInvalidLine_unpin, Core.deliver]
        split <;> exact h.invalid i
      · rw [hcore, Core.unpin_pending, Core.deliver]
        split <;> rfl
  | flush hcore =>
      refine h.of_le (fun i => ?_) fun i => ?_
      · exact invalid_stays h.invalid rfl hpromise hperform i
      · rw [hcore]
        exact le_rfl
  | invalidate hcore =>
      refine h.of_le (fun i => ?_) fun i => ?_
      · exact invalid_stays h.invalid rfl hpromise hperform i
      · rw [hcore]
        exact le_rfl
  | retire _ hcore =>
      rw [hcore]
      exact h

/-- **A fill leaves its line to the next victim**: no line that holds the block is pinned, though
requests of its MSHR entry wait. -/
theorem not_protects_of_completes (h : sys.core.Unfilled) (hon : cfg.allocPolicy = .onFill)
    (htracked : Tracked sys.core sys.sent) (hpromise : sys.Promise o)
    {r : Token × ExtraMfFields} (hcompletes : sys.completes o = some r)
    (hperform : sys.perform cls o = .ok (sys', b)) : ¬sys.Protects cls o := by
  obtain ⟨mf, e⟩ := r
  have he := lookup_of_completes hcompletes
  obtain ⟨rfl, hgone⟩ := (completes_eq_some_iff hpromise hperform he).1 hcompletes
  rintro ⟨-, hprotects⟩
  generalize hb : Obs.fill mf = b' at hperform
  cases System.step_cases hpromise.suits hperform with
  | wait n m time original horiginal e' pendingRead he' hcore =>
      cases hb
      rw [hcore] at hgone
      have hsome := (AList.lookup_insert sys.core.extra).symm.trans hgone
      cases hsome
  | complete o c t time horigin e' he' hentry lines hfill hcore =>
      cases hb
      obtain rfl := Option.some_inj.1 (he'.symm.trans he)
      have hc : c.tagArray = sys.cache.tagArray ∧ c.core.entries = sys.core.entries := by
        rcases horigin with ⟨-, rfl⟩ | ⟨n, m, -, -, rfl⟩ <;> exact ⟨rfl, rfl⟩
      have hentries : sys'.core.entries = sys.core.entries := by
        rw [hcore]
        exact hc.2
      have hlines : sys'.core.lines = lines := by rw [hcore]
      obtain ⟨l, hl⟩ := Option.isSome_iff_exists.1 hentry
      have hwaits : l ≠ [] := by
        rintro rfl
        exact htracked.nonempty _ hl
      have hlookup : l ∈ sys'.core.entries.lookup e'.blockAddr := by rwa [hentries]
      obtain ⟨i, hholds, hpinned⟩ := hprotects _ _ hperform _ hcompletes l hlookup hwaits
      rw [hlines] at hholds hpinned
      have hcount := Accounted.fill_count hfill i
      cases hfill with
      | onMiss hmiss =>
          rw [hon] at hmiss
          cases hmiss
      | onFill _ ta hta =>
          have hinvalid : ∀ j, (c.tagArray.lines j).isInvalidLine = true := by
            rw [hc.1]
            exact h.invalid
          obtain ⟨p, hp, hp'⟩ := TagArray.fillAddr_eq_ok hta
          obtain ⟨hmiss, hunpinned, -⟩ := TagArray.miss_of_invalid hon hinvalid hp
          have hi : i = p.idx := by
            by_contra hne
            have hsame : ta.lines i = c.tagArray.lines i := by
              rcases hp' with ⟨-, hsame⟩ | ⟨-, -, hupdate⟩
              · rw [hsame]
              · rw [hupdate, Function.update_of_ne hne]
            have hlive := hholds.2
            rw [hsame, hinvalid] at hlive
            cases hlive
          subst hi
          simp only [CacheBlock.isPinned, hcount] at hpinned hunpinned
          rw [hunpinned] at hpinned
          cases hpinned
  | _ => cases hb

/-- An access that is answered has found a way without a pin. -/
theorem keepsUnfilled_of_access (h : sys.core.Unfilled) (hon : cfg.allocPolicy = .onFill)
    (hacc : Accounted sys.core) {n : ℕ} {m : MemFetch} {time : Time} {events : List CacheEvent}
    (hperform : sys.perform cls (.access n m time events) = .ok (sys', b)) :
    sys.KeepsUnfilled (.access n m time events) := by
  intro setIndex hset
  obtain ⟨⟨c, status, events'⟩, haccess, -⟩ := bind_eq_ok.1 hperform
  obtain ⟨p, hp⟩ := Cache.probes_of_access haccess
  obtain ⟨-, hunpinned, setIndex', hset', hway⟩ := TagArray.miss_of_invalid hon h.invalid hp
  rw [hset'] at hset
  obtain rfl : setIndex' = setIndex := Option.some_inj.1 hset
  exact (h.pinsIn_lt_iff hacc setIndex').2 ⟨p.idx, hway, hunpinned⟩

/-- A step that completes no fetch, and finds a way without a pin, does not stop at the
assertion. -/
theorem KeepsUnfilled.protects (hkeeps : sys.KeepsUnfilled o) (h : sys.core.Unfilled)
    (hacc : Accounted sys.core) (hpromise : sys.Promise o) : sys.Protects cls o := by
  have hplain : ∀ e : Abort, e.plain = true → e ≠ .probeAllReserved := by
    rintro e he rfl
    cases he
  have htable : ∀ e : Abort, e.concern = some .table → e ≠ .probeAllReserved := by
    rintro e he rfl
    cases he
  refine ⟨fun hstop => ?_, fun sys' b _ r hr => by rw [hkeeps.completes] at hr; cases hr⟩
  refine perform_only (P := (· ≠ .probeAllReserved)) hplain ?_ ?_ ?_ ?_ _ hstop rfl
  · rintro n m time events rfl
    refine Cache.access_only hplain (fun a mf _ => MshrTable.add_only htable _ a mf) ?_
      (fun p _ => .of (by simp) _) cls time events
    rintro e hprobe rfl
    obtain ⟨setIndex, hset, hnone⟩ := TagArray.ineligible_of_probe hprobe
    have hlt := hkeeps setIndex (by rw [hset]; rfl)
    obtain ⟨i, hi, hunpinned⟩ := (h.pinsIn_lt_iff hacc setIndex).1 hlt
    have heligible : (sys.build n m).tagArray.eligible i = !(sys.core.lines i).isPinned :=
      TagArray.eligible_of_invalid (h.invalid i)
    rw [hnone i hi, hunpinned] at heligible
    cases heligible
  · -- a response completes its fetch
    rintro mf time rfl
    obtain ⟨e, he⟩ := Option.isSome_iff_exists.1 hpromise.2.2
    have hsome := hkeeps.completes
    rw [System.completes, show sys.core.extra.lookup mf = some e from he] at hsome
    cases hsome
  · -- the fetch of a child waits for more
    rintro n m time rfl
    obtain ⟨hassoc, -, original, horiginal, -, hwaits⟩ := hpromise
    obtain ⟨e, he⟩ := Option.isSome_iff_exists.1 hwaits
    have he' : sys.core.extra.lookup original = some e := he
    have hnone := hkeeps.completes
    have hpos : 0 < (e.pendingRead - 1).toNat := by
      by_contra hzero
      rw [System.completes, horiginal, Option.bind_some, he',
        Option.filter_some_pos (by simpa using hzero)] at hnone
      cases hnone
    refine ⟨?_, fun hno => by rw [hno] at horiginal; cases horiginal⟩
    have hchild : ((sys.build n m).mfs (.caller n)).originalMf = some original := by
      rw [sys.build_mfs_caller n m]
      exact horiginal
    have hextra : (sys.build n m).extraMfFields.lookup original = some e := he'
    unfold Cache.fill
    simp only [if_pos hassoc, hchild, hextra, if_pos hpos]
    exact .ok _
  · rintro rfl
    exact Cache.nextAccess_only hplain (fun _ _ => MshrTable.nextAccess_only htable _)
      fun _ _ _ _ => by simp

end System

/-! ### Whole runs -/

section Run

variable {cls : CacheClass} {mfs : Token → MemFetch} {trace : List Obs} {sys : System cfg}

/-- No line is filled in a run whose steps complete no fetch. -/
theorem unfilled_of_run (hcfg : cfg.Accepted) (hon : cfg.allocPolicy = .onFill)
    (hdefer : cfg.deferHitResponse = true)
    (hrun : System.Run cls (fun sys o => sys.Promise o ∧ sys.KeepsUnfilled o)
      (System.init cfg mfs) trace sys) : sys.core.Unfilled := by
  refine hrun.reachable_invariant (fun _ sys => sys.core.Unfilled) (.init mfs) ?_
  rintro trace sys o sys' b hbefore h ⟨hpromise, hkeeps⟩ hperform
  exact System.unfilled_step h hcfg.checked hon hdefer
    (.of_run hdefer (hbefore.mono fun _ _ h => h.1.distinct)) hpromise hkeeps.completes hperform

/-- A step that goes through, or stops at the assertion, protects what it fills if and only if it
completes no fetch and finds a way without a pin. -/
theorem protects_iff_keepsUnfilled (hcfg : cfg.Accepted) (hon : cfg.allocPolicy = .onFill)
    (hdefer : cfg.deferHitResponse = true)
    (hrun : System.Run cls (fun sys o => sys.Promise o ∧ sys.KeepsUnfilled o)
      (System.init cfg mfs) trace sys) {o : Op} (hpromise : sys.Promise o)
    (hends : ∀ e, sys.perform cls o = .error e → e = .probeAllReserved) :
    sys.Protects cls o ↔ sys.KeepsUnfilled o := by
  have h := unfilled_of_run hcfg hon hdefer hrun
  have hacc : Accounted sys.core := .of_run hdefer (hrun.mono fun _ _ h => h.1.distinct)
  have htracked : Tracked sys.core sys.sent := .of_run (hrun.mono fun _ _ h => h.1.answers)
  refine ⟨fun hprotects => ?_, fun hkeeps => hkeeps.protects h hacc hpromise⟩
  have hok : ∃ sys' b, sys.perform cls o = .ok (sys', b) := by
    cases hperform : sys.perform cls o with
    | error e =>
        rw [hends e hperform] at hperform
        exact absurd hperform hprotects.1
    | ok r => exact ⟨r.1, r.2, rfl⟩
  obtain ⟨sys', b, hperform⟩ := hok
  have hnone : sys.completes o = none := by
    rw [Option.eq_none_iff_forall_ne_some]
    intro r hr
    exact System.not_protects_of_completes h hon htracked hpromise hr hperform hprotects
  cases o with
  | access n m time events => exact System.keepsUnfilled_of_access h hon hacc hperform
  | _ => exact hnone

/-- **Allocation on fills protects its lines in no run in which a response completes a fetch**: the
runs whose steps keep what it promises are those in which no fetch is completed, and in which each
access finds fewer requests pinned in its set than it has ways.  Such a run leaves no line that
holds a block, and so nothing to protect; and from there, a step that does not stop at another
assertion keeps the promise if and only if it is again of this kind. -/
theorem fills_protect_lines_iff (hcfg : cfg.Accepted) (hon : cfg.allocPolicy = .onFill)
    (hdefer : cfg.deferHitResponse = true) :
    (System.Run cls (fun sys o => sys.Promise o ∧ sys.Protects cls o) (System.init cfg mfs) trace
        sys ↔
      System.Run cls (fun sys o => sys.Promise o ∧ sys.KeepsUnfilled o) (System.init cfg mfs) trace
        sys) ∧
    (System.Run cls (fun sys o => sys.Promise o ∧ sys.KeepsUnfilled o) (System.init cfg mfs) trace
        sys →
      (∀ i, (sys.core.lines i).isInvalidLine = true) ∧
        ∀ o, sys.Promise o → (∀ e, sys.perform cls o = .error e → e = .probeAllReserved) →
          (sys.Protects cls o ↔ sys.KeepsUnfilled o)) := by
  have hstep : ∀ {trace : List Obs} {sys sys' : System cfg} {o : Op} {b : Obs},
      System.Run cls (fun sys o => sys.Promise o ∧ sys.KeepsUnfilled o) (System.init cfg mfs)
        trace sys → sys.Promise o → sys.perform cls o = .ok (sys', b) →
      (sys.Protects cls o ↔ sys.KeepsUnfilled o) := by
    intro trace sys sys' o b hrun hpromise hperform
    refine protects_iff_keepsUnfilled hcfg hon hdefer hrun hpromise fun e he => ?_
    rw [hperform] at he
    cases he
  refine ⟨⟨fun hrun => ?_, fun hrun => ?_⟩, fun hrun =>
    ⟨(unfilled_of_run hcfg hon hdefer hrun).invalid, fun o hpromise hends =>
      protects_iff_keepsUnfilled hcfg hon hdefer hrun hpromise hends⟩⟩
  · induction hrun with
    | nil => exact .nil
    | snoc _ hp hs ih => exact ih.snoc ⟨hp.1, (hstep ih hp.1 hs).1 hp.2⟩ hs
  · induction hrun with
    | nil => exact .nil
    | snoc hbefore hp hs ih => exact ih.snoc ⟨hp.1, (hstep hbefore hp.1 hs).2 hp.2⟩ hs

end Run

/-- With one way, a read is pinned on it, and a read of another block stops at the assertion. -/
theorem fills_protect_lines_iff_second_read :
    ∃ trace sys, System.Run (.dataCache .l1)
        (fun sys o => sys.Promise o ∧ sys.Protects (.dataCache .l1) o)
        (System.init (CacheConfig.small 'S' 'T' 'f' 'N' 1 true) fun _ => MemFetch.load 0)
        trace sys ∧
      (sys.core.lines 0).isPinned = true ∧
      ¬sys.Protects (.dataCache .l1) (.access 1 (MemFetch.load 128) 1 []) := by
  obtain ⟨trace, sys, hrun, hpinned, hpromise, hfull, hstops⟩ :
      ∃ trace sys, System.Run (.dataCache .l1) (fun sys o => sys.Promise o ∧ sys.KeepsUnfilled o)
          (System.init (CacheConfig.small 'S' 'T' 'f' 'N' 1 true) fun _ => MemFetch.load 0) trace
            sys ∧
        (sys.core.lines 0).isPinned = true ∧ sys.Promise (.access 1 (MemFetch.load 128) 1 []) ∧
        ¬sys.KeepsUnfilled (.access 1 (MemFetch.load 128) 1 []) ∧
        Runs.failure (sys.perform (.dataCache .l1) (.access 1 (MemFetch.load 128) 1 [])) =
          some .probeAllReserved :=
    Runs.exists_run_of_exec [.access 0 (MemFetch.load 0) 0 []] (by decide)
  have hcfg : (CacheConfig.small 'S' 'T' 'f' 'N' 1 true).Accepted :=
    CacheConfig.small_accepted (by decide) true
  have hends : ∀ e, sys.perform (.dataCache .l1) (.access 1 (MemFetch.load 128) 1 []) = .error e →
      e = .probeAllReserved := by
    intro e he
    rw [Runs.failure_eq_some.1 hstops] at he
    cases he
    rfl
  refine ⟨trace, sys, (fills_protect_lines_iff hcfg rfl rfl).1.2 hrun, hpinned, fun hprotects => ?_⟩
  exact hfull ((((fills_protect_lines_iff hcfg rfl rfl).2 hrun).2 _ hpromise hends).1 hprotects)

/-- With one way, the fill of the first read stops at the assertion, since the read is pinned on the
way.  With two, it takes the other way, which is not pinned while the read waits. -/
theorem fills_protect_no_line :
    ((CacheConfig.small 'S' 'T' 'f' 'N' 1 true).Accepted ∧
      ∃ trace sys, System.Run (.dataCache .l1) System.Promise
        (System.init (CacheConfig.small 'S' 'T' 'f' 'N' 1 true) fun _ => MemFetch.load 0)
        trace sys ∧
      sys.Promise (.fill (.caller 0) 1) ∧
      sys.perform (.dataCache .l1) (.fill (.caller 0) 1) = .error .probeAllReserved) ∧
    (CacheConfig.small 'S' 'T' 'f' 'N' 2 true).Accepted ∧
      ∃ trace sys, System.Run (.dataCache .l1) System.Promise
        (System.init (CacheConfig.small 'S' 'T' 'f' 'N' 2 true) fun _ => MemFetch.load 0)
        trace sys ∧
      sys.core.entries.lookup 0 = some [.caller 0] ∧
      TagArray.Holds sys.core.lines 0 0 ∧ (sys.core.lines 0).isPinned = false ∧
      (sys.core.lines 1).isInvalidLine = true ∧ (sys.core.lines 1).isPinned = true := by
  refine ⟨⟨CacheConfig.small_accepted (by decide) true, ?_⟩,
    CacheConfig.small_accepted (by decide) true, ?_⟩
  · obtain ⟨trace, sys, hrun, hpromise, hstops⟩ :
        ∃ trace sys, System.Run (.dataCache .l1) System.Promise
            (System.init (CacheConfig.small 'S' 'T' 'f' 'N' 1 true) fun _ => MemFetch.load 0) trace
              sys ∧
          sys.Promise (.fill (.caller 0) 1) ∧
          Runs.failure (sys.perform (.dataCache .l1) (.fill (.caller 0) 1)) =
            some .probeAllReserved :=
      Runs.exists_run_of_exec [.access 0 (MemFetch.load 0) 0 [], .cycle false] (by decide)
    exact ⟨trace, sys, hrun, hpromise, Runs.failure_eq_some.1 hstops⟩
  · obtain ⟨trace, sys, hrun, hentry, ⟨htag, hlive⟩, hrest⟩ :
        ∃ trace sys, System.Run (.dataCache .l1) System.Promise
            (System.init (CacheConfig.small 'S' 'T' 'f' 'N' 2 true) fun _ => MemFetch.load 0) trace
              sys ∧
          sys.core.entries.lookup 0 = some [.caller 0] ∧
          ((sys.core.lines 0).tag = 0 ∧ (sys.core.lines 0).isInvalidLine = false) ∧
          (sys.core.lines 0).isPinned = false ∧ (sys.core.lines 1).isInvalidLine = true ∧
          (sys.core.lines 1).isPinned = true :=
      Runs.exists_run_of_exec [.access 0 (MemFetch.load 0) 0 [], .cycle false,
        .fill (.caller 0) 1] (by decide)
    exact ⟨trace, sys, hrun, hentry, ⟨htag, hlive⟩, hrest⟩

end OpenCache
