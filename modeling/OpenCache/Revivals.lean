/-
Flushes and invalidations while fetches are under way.

They clear the lines and leave the MSHR table and the requests that fetch.  A block that is read
again takes another way then, joins the entry of the old fetch, and waits for a response that goes
to the line where the fetch began: the response revives that line beside the new one.

* `OpenCache.SectorState.FillsReadable` — flags with which the next fill leaves its sector readable;
* `OpenCache.TagArray.probe_of_holds` — a probe for a block that a way holds does not abort;
* `OpenCache.Claimed` — fetches keep their lines, in the sets of their blocks, even across a flush;
* `OpenCache.Core.OneLine`, `OpenCache.Core.ReservedAwaited`, `OpenCache.System.ReadsFill` — a block
  has one line at most, reserved sectors wait for fetches under way, and reads find what was filled;
* `OpenCache.System.FindsFetch` — responses that find no other line with their block, and requests
  that join an entry before its fetch has been answered;
* `OpenCache.one_line_per_block_iff` — **the three hold after a step exactly when the step finds its
  fetch**;
* `OpenCache.refetched_block_has_two_lines` — a run after which a block has two lines.
-/

import OpenCache.Reservations
import OpenCache.Replacement

set_option relaxedAutoImplicit false
set_option autoImplicit false

namespace OpenCache

variable {cfg : CacheConfig}

/-! ### What a fill leaves readable -/

/-- The fill of a sector that will be modified makes it readable; and unless the cache fetches on
reads, every sector is readable. -/
def SectorState.FillsReadable (cfg : CacheConfig) (s : SectorState) : Prop :=
  (s.setModifiedOnFill = true → s.readable = true ∨ s.setReadableOnFill = true) ∧
    (cfg.writeAllocPolicy ≠ .lazyFetchOnRead → s.readable = true)

namespace CacheBlock

variable {k : CacheType}

/-- The fills of a line leave their sectors readable. -/
def FillsReadable (cfg : CacheConfig) (b : CacheBlock k) : Prop :=
  ∀ i, (b.sectorAt i).FillsReadable cfg

namespace FillsReadable

variable {b : CacheBlock k}

theorem of_sectors {b' : CacheBlock k} (h : b.FillsReadable cfg)
    (hsectors : b'.sectors = b.sectors) :
    b'.FillsReadable cfg := by
  intro j
  rw [sectorAt, hsectors]
  exact h j

theorem modifySector (h : b.FillsReadable cfg) {i : Fin 4} {f : SectorState → SectorState}
    (hf : (f (b.sectorAt i)).FillsReadable cfg) : (b.modifySector i f).FillsReadable cfg := by
  intro j
  rw [sectorAt_modifySector]
  split
  · next hj =>
      have hsame : b.sectorAt j = b.sectorAt i := by
        rcases hj with hk | rfl
        · exact b.sectorAt_of_normal hk j i
        · rfl
      rwa [hsame]
  · exact h j

/-- States, and the flag that nothing reads, do not matter. -/
theorem setStatus (h : b.FillsReadable cfg) (status : CacheBlockState) (i : Fin 4) :
    (b.setStatus status i).FillsReadable cfg :=
  h.modifySector (h i)

theorem marked (h : b.FillsReadable cfg) (m : MemFetch) (i : Fin 4) :
    (b.marked m i).FillsReadable cfg :=
  (h.setStatus .modified i).of_sectors rfl

theorem readableUpdated (h : b.FillsReadable cfg) (m : MemFetch) (i : Fin 4) :
    (b.readableUpdated m i).FillsReadable cfg := by
  unfold CacheBlock.readableUpdated
  split
  · exact h.modifySector ⟨fun _ => Or.inl rfl, fun _ => rfl⟩
  · exact h

theorem fullWritten (h : b.FillsReadable cfg) (m : MemFetch) (i : Fin 4)
    (status : CacheRequestStatus) : (b.fullWritten m i status).FillsReadable cfg := by
  unfold CacheBlock.fullWritten
  split
  · exact (h.marked m i).modifySector (h.marked m i i)
  · exact h.marked m i

/-- A lazy write asks the fill that it waits for to make its sector readable; where it waits for
none, the sector is not modified on a fill. -/
theorem lazyWritten (h : b.FillsReadable cfg) (hlazy : cfg.writeAllocPolicy = .lazyFetchOnRead)
    (m : MemFetch) {i : Fin 4} {status : CacheRequestStatus} (atomSz : ℕ)
    (hnew : status ≠ .hitReserved → (b.sectorAt i).setModifiedOnFill = false) :
    (b.lazyWritten m i status atomSz).FillsReadable cfg := by
  have hmark := h.marked m i
  unfold CacheBlock.lazyWritten
  dsimp only
  refine FillsReadable.readableUpdated ?_ m i
  by_cases hs : status = .hitReserved
  · simp only [if_pos hs]
    -- the flags of the sector are the last of the updates that the branch makes
    have hfull : (((((b.marked m i).setIgnoreOnFill true i).setModifiedOnFill true
        i).putByteMaskOnFill true).setMReadable true i).FillsReadable cfg := by
      intro j
      change ((((b.marked m i).modifySector i _).modifySector i _).modifySector i _).sectorAt j
        |>.FillsReadable cfg
      rw [modifySector_modifySector, modifySector_modifySector]
      exact hmark.modifySector ⟨fun _ => Or.inl rfl, fun _ => rfl⟩ j
    have hpart : ((((((b.marked m i).setIgnoreOnFill true i).setModifiedOnFill true
        i).putByteMaskOnFill true).setMReadable false i).setReadableOnFill true
          i).FillsReadable cfg := by
      intro j
      change (((((b.marked m i).modifySector i _).modifySector i _).modifySector i _).modifySector
        i _).sectorAt j |>.FillsReadable cfg
      rw [modifySector_modifySector, modifySector_modifySector, modifySector_modifySector]
      exact hmark.modifySector ⟨fun _ => Or.inr rfl, fun hne => absurd hlazy hne⟩ j
    split
    · exact hfull
    · exact hpart
  · simp only [if_neg hs]
    have hflag : ((b.marked m i).sectorAt i).setModifiedOnFill = false := by
      change ((b.modifySector i _).sectorAt i).setModifiedOnFill = false
      rw [sectorAt_modifySector_self]
      exact hnew hs
    split
    · exact hmark.modifySector ⟨fun _ => Or.inl rfl, fun _ => rfl⟩
    · refine hmark.modifySector ⟨fun hset => ?_, fun hne => absurd hlazy hne⟩
      exact absurd (hflag.symm.trans hset) (by decide)

/-- A fetch that a write waits for modifies its sector in caches that do not fetch lazily. -/
theorem writtenOnFill (h : b.FillsReadable cfg) (hpolicy : cfg.writeAllocPolicy = .fetchOnWrite)
    (i : Fin 4) : (b.writtenOnFill i).FillsReadable cfg := by
  have hopen : (b.sectorAt i).readable = true := (h i).2 (by rw [hpolicy]; decide)
  have hset : (b.setModifiedOnFill true i).FillsReadable cfg :=
    h.modifySector ⟨fun _ => Or.inl hopen, fun _ => hopen⟩
  exact hset.of_sectors rfl

theorem init (k : CacheType) : (CacheBlock.init k).FillsReadable cfg := by
  intro i
  rw [sectorAt_init]
  refine ⟨fun h => ?_, fun _ => rfl⟩
  cases h

/-- An allocation forgets what the fills of the last tenant were to do. -/
theorem allocate (h : b.FillsReadable cfg) (tag blockAddr : NewAddrType) (time : Time) (i : Fin 4) :
    (b.allocate tag blockAddr time i).FillsReadable cfg := by
  rcases b with ⟨_, _, _, _, _, _, _, _, ⟨s⟩ | ⟨s⟩⟩
  · intro j
    exact ⟨fun hset => absurd hset (by simp [CacheBlock.allocate, sectorAt, BlockSectors.get,
      reserveSector]), (h j).2⟩
  · have hfresh : (CacheBlock.init .sector).FillsReadable cfg := .init .sector
    have hreserve : ((CacheBlock.init .sector).modifySector i reserveSector).FillsReadable cfg :=
      hfresh.modifySector ⟨fun hset => absurd hset (by simp [reserveSector]), (hfresh i).2⟩
    exact hreserve.of_sectors rfl

theorem reserveSectorAgain (h : b.FillsReadable cfg) (i : Fin 4) :
    (b.modifySector i CacheBlock.reserveSectorAgain).FillsReadable cfg :=
  h.modifySector ⟨fun _ => Or.inl rfl, fun _ => rfl⟩

theorem fill (h : b.FillsReadable cfg) (i : Fin 4) (byteMask : MemAccessByteMask) :
    (b.fill i byteMask).FillsReadable cfg := by
  have hfilled : (b.modifySector i (fillSector k)).FillsReadable cfg := by
    refine h.modifySector ⟨fun hset => Or.inl ?_, fun hne => ?_⟩
    · rcases (h i).1 hset with hopen | hopen <;> simp [fillSector, hopen]
    · simp [fillSector, (h i).2 hne]
  unfold CacheBlock.fill
  dsimp only
  split
  · exact hfilled.of_sectors rfl
  · exact hfilled

/-- **A read finds what was filled.** -/
theorem matchStatus_fill (h : b.FillsReadable cfg) {i j : Fin 4} (hj : k = .normal ∨ i = j)
    (byteMask : MemAccessByteMask) : (b.fill i byteMask).matchStatus j false = some .hit := by
  have hstatus := b.getStatus_fill i j byteMask
  rw [if_pos hj] at hstatus
  refine matchStatus_eq_hit.2 ?_
  cases hset : (b.sectorAt j).setModifiedOnFill with
  | false =>
      left
      rw [hstatus, hset]
      rfl
  | true =>
      right
      rw [hstatus, hset]
      refine ⟨rfl, Or.inr ?_⟩
      rw [isReadable, sectorAt_fill, if_pos hj]
      rcases (h j).1 hset with hopen | hopen <;> simp [fillSector, hopen]

end FillsReadable

theorem setModifiedOnFill_allocate (b : CacheBlock k) (tag blockAddr : NewAddrType) (time : Time)
    (i : Fin 4) : ((b.allocate tag blockAddr time i).sectorAt i).setModifiedOnFill = false := by
  rcases b with ⟨_, _, _, _, _, _, _, _, ⟨s⟩ | ⟨s⟩⟩
  · rfl
  · simp [CacheBlock.allocate, sectorAt, reserveSector]

end CacheBlock

/-- A flush of a line leaves its flags. -/
theorem TagArray.fillsReadable_invalidateLine {b : CacheBlock cfg.cacheType}
    (h : b.FillsReadable cfg) : (invalidateLine b).FillsReadable cfg := by
  have hfold : ∀ (js : List (Fin 4)) (b' : CacheBlock cfg.cacheType), b'.FillsReadable cfg →
      (js.foldl (fun b i => b.setStatus .invalid i) b').FillsReadable cfg := by
    intro js
    induction js with
    | nil => exact fun _ h' => h'
    | cons j js ih => exact fun b' h' => ih _ (h'.setStatus .invalid j)
  exact hfold _ b h

/-! ### The flags of all lines -/

section Access

variable {c : Cache cfg} {cls : CacheClass} {addr : NewAddrType} {mf : Token} {time : Time}
  {p : ProbeResult} {line : CacheBlock cfg.cacheType}

theorem CacheBlock.FillsReadable.touched {b : CacheBlock cfg.cacheType} (h : b.FillsReadable cfg)
    (i : Fin 4) (status : CacheRequestStatus) :
    (TagArray.touchedLine cfg addr time i status b).FillsReadable cfg := by
  cases status with
  | hit => exact h.of_sectors rfl
  | hitReserved => exact h.of_sectors rfl
  | miss =>
      simp only [TagArray.touchedLine]
      split
      · exact h.allocate _ _ _ _
      · exact h
  | sectorMiss =>
      simp only [TagArray.touchedLine]
      split
      · exact (h.reserveSectorAgain i).of_sectors rfl
      · exact h
  | reservationFail => exact h
  | mshrHit => exact h

/-- The line of a write miss is not modified by a fill, unless it was found reserved. -/
theorem TagArray.setModifiedOnFill_touched (hon : cfg.allocPolicy = .onMiss)
    (hp : c.Probes addr (c.mfs mf) p) (hwrite : (c.mfs mf).isWrite = true)
    (hs : p.status = .miss ∨ p.status = .sectorMiss) :
    ((c.touched addr (c.mfs mf) time p).sectorAt
      (cfg.sectorIndex (c.mfs mf).accessSectorMask)).setModifiedOnFill = false := by
  unfold Cache.touched
  rcases hs with hs | hs
  · rw [hs]
    simp only [TagArray.touchedLine, if_pos hon]
    exact CacheBlock.setModifiedOnFill_allocate _ _ _ _ _
  · rw [hs]
    simp only [TagArray.touchedLine, if_pos hon]
    change (((c.tagArray.lines p.idx).modifySector _ CacheBlock.reserveSectorAgain).sectorAt
      _).setModifiedOnFill = false
    rw [CacheBlock.sectorAt_modifySector_self]
    obtain ⟨-, hmatch⟩ := hp.sectorIndex (Or.inr (Or.inr hs))
    rw [hs, CacheBlock.matchStatus_eq_sectorMiss] at hmatch
    rcases hmatch with ⟨-, hread, -⟩ | ⟨hinvalid, -⟩
    · rw [hwrite] at hread
      cases hread
    · have hstatus : ((c.tagArray.lines p.idx).sectorAt
          (cfg.sectorIndex (c.mfs mf).accessSectorMask)).status = .invalid := hinvalid
      simp [CacheBlock.reserveSectorAgain, hstatus]

theorem LineAfter.fillsReadable (h : LineAfter c cls addr mf time p line)
    (hon : cfg.allocPolicy = .onMiss) (hp : c.Probes addr (c.mfs mf) p)
    (hb : (c.tagArray.lines p.idx).FillsReadable cfg) : line.FillsReadable cfg := by
  have htouched : (c.touched addr (c.mfs mf) time p).FillsReadable cfg := hb.touched _ _
  cases h with
  | hit _ _ _ heffect =>
      have htime : ((c.tagArray.lines p.idx).setLastAccessTime time).FillsReadable cfg :=
        hb.of_sectors rfl
      cases heffect with
      | read => exact htime
      | write => exact (htime.marked _ _).readableUpdated _ _
      | evict => exact hb.setStatus _ _
  | write hs hwrite _ _ heffect =>
      cases heffect with
      | full => exact htouched.fullWritten _ _ _
      | onRead hlazy =>
          refine htouched.lazyWritten hlazy _ _ fun hne => ?_
          exact TagArray.setModifiedOnFill_touched hon hp hwrite (hs.resolve_left hne)
  | fetch _ _ _ _ hfetcher =>
      cases hfetcher with
      | read => exact htouched
      | naive => exact htouched
      | fetchOnWrite _ _ _ hpolicy => exact htouched.writtenOnFill hpolicy _

end Access

/-- Every fill leaves its sector readable. -/
def FillsReadable (s : Core cfg) : Prop := ∀ i, (s.lines i).FillsReadable cfg

namespace FillsReadable

variable {sys sys' : System cfg} {cls : CacheClass} {o : Op} {b : Obs}

/-- One line changes. -/
theorem of_line {s s' : Core cfg} (h : FillsReadable s) {idx : ℕ} {b : CacheBlock cfg.cacheType}
    (hlines : s'.lines = Function.update s.lines idx b) (hb : b.FillsReadable cfg) :
    FillsReadable s' := by
  intro i
  rw [hlines]
  by_cases hi : i = idx
  · rw [hi, Function.update_self]
    exact hb
  · rw [Function.update_of_ne hi]
    exact h i

/-- **One step leaves the fills to make their sectors readable.** -/
theorem step (h : FillsReadable sys.core) (hon : cfg.allocPolicy = .onMiss)
    (htracked : Tracked sys.core sys.sent) (hpromise : sys.Promise o)
    (hperform : sys.perform cls o = .ok (sys', b)) : FillsReadable sys'.core := by
  have hunpin : ∀ {s₁ : Core cfg}, s₁.lines = sys.core.lines →
      ∀ mf, FillsReadable (s₁.unpin mf) := by
    intro s₁ hlines mf i
    refine CacheBlock.FillsReadable.of_sectors ?_ (Resident.unpin_line s₁ mf i).2
    rw [hlines]
    exact h i
  cases System.step_cases hpromise.suits hperform with
  | access n m time events status hcase hbelow =>
      rcases hcase.line_after with ⟨hlines, -⟩ | ⟨p, line, hp, hline, hlines⟩
      · intro i
        rw [hlines]
        exact h i
      · have hm := sys.build_mfs_caller n m
        have hfilled := hline.fillsReadable hon hp (h p.idx)
        rcases hlines with hlines | hlines
        · exact h.of_line hlines hfilled
        · exact h.of_line hlines (hfilled.of_sectors rfl)
  | tick memportFull waiting done htick hcore hbelow =>
      rw [hcore]
      exact h
  | push memportFull waiting done htick mf rest hqueue hcore hbelow =>
      rw [hcore]
      exact h
  | wait n m time original horiginal e pendingRead he hcore hbelow =>
      rw [hcore]
      exact h
  | complete o c mf time horigin e he hentry lines hfill hcore hbelow =>
      have hdone := System.completed hon htracked hpromise horigin he hfill hcore
      exact h.of_line hdone.lines ((h e.cacheIndex).fill _ _)
  | ready mf rest hqueue hpinned hcore hbelow =>
      rw [hcore]
      refine hunpin ?_ mf
      rfl
  | deliver mf a rest addresses hready hanswered hentry hpinned hcore hbelow =>
      rw [hcore]
      refine hunpin ?_ mf
      unfold Core.deliver
      split <;> rfl
  | flush hcore hbelow =>
      rw [hcore]
      intro i
      change (sys.cache.tagArray.flush.lines i).FillsReadable cfg
      unfold TagArray.flush
      split
      · dsimp only
        split
        · exact TagArray.fillsReadable_invalidateLine (h i)
        · exact h i
      · exact h i
  | invalidate hcore hbelow =>
      rw [hcore]
      intro i
      change (sys.cache.tagArray.invalidate.lines i).FillsReadable cfg
      unfold TagArray.invalidate
      dsimp only
      split
      · exact TagArray.fillsReadable_invalidateLine (h i)
      · exact h i
  | retire mf hcore hbelow =>
      rw [hcore]
      exact h

end FillsReadable

/-! ### Blocks that the tags find -/

/-- A probe does not abort if a way of the set holds the block. -/
theorem TagArray.probe_of_holds {ta : TagArray cfg} {addr : NewAddrType} {setIndex i : ℕ}
    {mask : MemAccessSectorMask} {j : Fin 4} (hset : cfg.setIndex addr = .ok setIndex)
    (hindex : cfg.getSectorIndex mask = .ok j) (hway : i ∈ waysOf cfg setIndex)
    (hholds : Holds ta.lines i (cfg.tag addr)) (idx : ℕ) (isWrite : Bool) :
    ∃ p, ta.probe addr idx mask isWrite = .ok p := by
  obtain ⟨r, hr⟩ := scanWays_returns hindex (cfg.tag addr) isWrite (waysOf cfg setIndex) Scan.init
  have hspec := scanWays_spec hr (ScanInv.init ta)
  cases r with
  | found status index =>
      exact ⟨⟨status, index, .lineAllocFail⟩,
        bind_eq_ok.2 ⟨setIndex, hset, bind_eq_ok.2 ⟨_, hr, rfl⟩⟩⟩
  | exhausted s => exact absurd hholds (hspec.2 i hway)

/-- A read finds the line that holds its block, if its sector there answers reads with a hit. -/
theorem Housed.hits {sys : System cfg} (h : Housed sys.core) {m : MemFetch} {i : ℕ}
    (hread : m.isWrite = false) (hlive : (sys.core.lines i).isInvalidLine = false)
    (htag : (sys.core.lines i).tag = cfg.blockAddr m.addr)
    (hindex : cfg.getSectorIndex m.accessSectorMask = .ok (cfg.sectorIndex m.accessSectorMask))
    (hmatch : (sys.core.lines i).matchStatus (cfg.sectorIndex m.accessSectorMask) false =
      some .hit) :
    ∃ p, sys.answer m = some p ∧ p.status = .hit ∧ p.idx = i := by
  obtain ⟨setIndex, hset, hway⟩ := h.home i hlive
  rw [htag] at hset
  have hholds : TagArray.Holds sys.cache.tagArray.lines i (cfg.tag (cfg.blockAddr m.addr)) := by
    rw [CacheConfig.tag_eq_blockAddr, CacheConfig.blockAddr_blockAddr]
    exact ⟨htag, hlive⟩
  obtain ⟨p, hp⟩ := TagArray.probe_of_holds hset hindex hway hholds Cache.noIndex m.isWrite
  have hprobes : (sys.build 0 m).Probes m.addr m p := hp
  have hhoused : Housed (sys.build 0 m).core := h.of_lines fun i hi => ⟨hi, rfl⟩
  obtain ⟨hidx, hs⟩ := hhoused.finds hprobes hlive htag
  refine ⟨p, (System.answer_eq_some 0).2 hprobes, ?_, hidx⟩
  obtain ⟨-, hfound⟩ := hprobes.sectorIndex hs
  rw [hidx, hread] at hfound
  exact Option.some_inj.1 (hfound.symm.trans hmatch)

/-! ### Fetches and their lines, across a flush -/

/-- The line that a fetch will fill belongs to the block of the fetch, and lies in its set. -/
structure Claimed (s : Core cfg) : Prop where
  tenant : ∀ t e, s.extra.lookup t = some e →
    (s.lines e.cacheIndex).BelongsTo (cfg.blockAddr e.blockAddr)
  home : ∀ t e, s.extra.lookup t = some e → ∃ setIndex,
    cfg.setIndex (cfg.blockAddr e.blockAddr) = .ok setIndex ∧
      e.cacheIndex ∈ TagArray.waysOf cfg setIndex

namespace Claimed

variable {sys sys' : System cfg} {cls : CacheClass} {o : Op} {b : Obs}

/-- The line that an access has found or taken lies in the set of its block. -/
theorem home_of_probe {c : Cache cfg} {addr : NewAddrType} {m : MemFetch} {p : ProbeResult}
    (hp : c.Probes addr m p)
    (hs : p.status = .hitReserved ∨ p.status = .miss ∨ p.status = .sectorMiss) :
    ∃ setIndex, cfg.setIndex (cfg.blockAddr addr) = .ok setIndex ∧
      p.idx ∈ TagArray.waysOf cfg setIndex := by
  obtain ⟨setIndex, hset, hprobed⟩ := TagArray.probed_of_probe hp
  refine ⟨setIndex, hset, ?_⟩
  rcases hs with hs | hs | hs
  · exact (hprobed.found (Or.inr (Or.inl hs))).1
  · exact (hprobed.miss hs).1
  · exact (hprobed.found (Or.inr (Or.inr hs))).1

/-- **One step leaves the fetches their lines**: they are pinned there. -/
theorem step (h : Claimed sys.core) (hcfg : cfg.Checked) (hon : cfg.allocPolicy = .onMiss)
    (hacc : Accounted sys.core) (htagged : Tagged sys.core) (hpinned : PinnedFetches sys.core)
    (hpromise : sys.Promise o) (hperform : sys.perform cls o = .ok (sys', b))
    (hstay : TenantsStay sys.core sys'.core) : Claimed sys'.core := by
  have hcases : System.StepCase cls sys sys' o b := System.step_cases hpromise.suits hperform
  have hold : ∀ {t e₀}, sys.core.extra.lookup t = some e₀ →
      (sys'.core.lines e₀.cacheIndex).BelongsTo (cfg.blockAddr e₀.blockAddr) := fun he₀ =>
    hstay _ (hacc.count_ne_zero (hpinned _ _ he₀)) _ (h.tenant _ _ he₀)
  have hnew : ∀ {t e}, sys'.core.extra.lookup t = some e →
      (sys'.core.lines e.cacheIndex).BelongsTo (cfg.blockAddr e.blockAddr) ∧ ∃ setIndex,
        cfg.setIndex (cfg.blockAddr e.blockAddr) = .ok setIndex ∧
          e.cacheIndex ∈ TagArray.waysOf cfg setIndex := by
    intro t e he
    rcases hcases.fetch_origin he with
      ⟨e₀, he₀, hidx, hblock, -⟩ | ⟨n, m, time, events, -, rfl, -⟩
    · rw [hidx, hblock]
      exact ⟨hold he₀, h.home _ _ he₀⟩
    · cases hcases with
      | access _ _ _ _ _ hcase =>
          have hm := sys.build_mfs_caller n m
          have hcase' := System.access_of_build hcase
          rcases hcase'.fetch_origin (by simp) he with he₀ | ⟨p, hl⟩
          · exact ⟨hold he₀, h.home _ _ he₀⟩
          · rw [hl.idx, hl.block, hcfg.blockAddr_mshrAddr]
            have htouched : Tagged (sys.build n m).core := htagged
            exact ⟨hl.tenant _ (htouched.touched hon hl.probes hl.status time),
              home_of_probe hl.probes hl.status⟩
      | complete _ _ _ _ horigin =>
          rcases horigin with ⟨ho, -⟩ | ⟨_, _, ho, -⟩ <;> cases ho
  exact ⟨fun t e he => (hnew he).1, fun t e he => (hnew he).2⟩

end Claimed

/-! ### Responses -/

namespace System

/-- The fetch that a response completes, if it does: in a `SECTOR_ASSOC` cache, the last of its
children. -/
def completes (sys : System cfg) : Op → Option (Token × ExtraMfFields)
  | .fill mf _ => (sys.core.extra.lookup mf).map fun e => (mf, e)
  | .fillChild _ m _ => m.originalMf.bind fun original =>
      ((sys.core.extra.lookup original).filter fun e =>
        (e.pendingRead - 1).toNat = 0).map fun e => (original, e)
  | _ => none

variable {sys sys' : System cfg} {cls : CacheClass} {o : Op} {b : Obs} {mf : Token}
  {e : ExtraMfFields}

/-- A fetch that is completed was under way. -/
theorem lookup_of_completes (h : sys.completes o = some (mf, e)) :
    sys.core.extra.lookup mf = some e := by
  cases o with
  | fill mf' time =>
      obtain ⟨e', he', heq⟩ := Option.map_eq_some_iff.1 h
      cases heq
      exact he'
  | fillChild n m time =>
      obtain ⟨original, -, h⟩ := Option.bind_eq_some_iff.1 h
      obtain ⟨e', he', heq⟩ := Option.map_eq_some_iff.1 h
      cases heq
      exact (Option.filter_eq_some_iff.1 he').1
  | _ => cases h

/-- **What a response completes** it forgets, and nothing else does so. -/
theorem completes_eq_some_iff (hpromise : sys.Promise o)
    (hperform : sys.perform cls o = .ok (sys', b)) (he : sys.core.extra.lookup mf = some e) :
    sys.completes o = some (mf, e) ↔ b = .fill mf ∧ sys'.core.extra.lookup mf = none := by
  have herased : ∀ {c c' : Cache cfg} {t : Token} {time : Time},
      c.fillComplete t time = .ok c' → c'.core.extra = c.core.extra.erase t := by
    intro c c' t time h
    obtain ⟨e', -, -, ⟨-, -, hcore⟩ | ⟨-, ta, -, hcore⟩⟩ := Cache.fillComplete_core h
    · rw [hcore]
      rfl
    · rw [hcore]
      rfl
  cases o with
  | fill t time =>
      obtain ⟨c, hfill, hdone⟩ := bind_eq_ok.1 hperform
      cases hdone
      rw [Cache.fill, if_neg hpromise.1] at hfill
      have hextra : c.core.extra = sys.core.extra.erase t := herased hfill
      constructor
      · intro h
        obtain ⟨e', -, heq⟩ := Option.map_eq_some_iff.1 h
        cases heq
        refine ⟨rfl, ?_⟩
        change c.core.extra.lookup mf = none
        rw [hextra, AList.lookup_erase]
      · rintro ⟨h, -⟩
        cases h
        exact Option.map_eq_some_iff.2 ⟨e, he, rfl⟩
  | fillChild n m time =>
      obtain ⟨c, hfill, hdone⟩ := bind_eq_ok.1 hperform
      cases horiginal : m.originalMf with
      | none => simp [horiginal] at hdone
      | some t =>
          simp only [horiginal] at hdone
          cases hdone
          have hchild : ((sys.build n m).mfs (.caller n)).originalMf = some t := by
            simp [build, horiginal]
          rw [Cache.fill, if_pos hpromise.1, hchild] at hfill
          dsimp only at hfill
          cases he' : (sys.build n m).extraMfFields.lookup t with
          | none => simp [he'] at hfill
          | some e' =>
              have hlookup : sys.core.extra.lookup t = some e' := he'
              simp only [he'] at hfill
              split at hfill
              -- a child that is not the last one puts the fields of its fetch back
              · next hwaits =>
                  cases hfill
                  constructor
                  · intro h
                    simp only [completes, horiginal, Option.bind_some, hlookup] at h
                    rw [Option.filter_some_neg (by simpa using hwaits.ne')] at h
                    cases h
                  · rintro ⟨h, hnone⟩
                    cases h
                    have hsome := (AList.lookup_insert sys.core.extra).symm.trans hnone
                    cases hsome
              · next hlast =>
                  have hextra : c.core.extra = sys.core.extra.erase t := by
                    rw [herased hfill]
                    exact AList.erase_insert _ _ _
                  constructor
                  · intro h
                    simp only [completes, horiginal, Option.bind_some] at h
                    obtain ⟨e'', -, heq⟩ := Option.map_eq_some_iff.1 h
                    cases heq
                    refine ⟨rfl, ?_⟩
                    change c.core.extra.lookup mf = none
                    rw [hextra, AList.lookup_erase]
                  · rintro ⟨h, -⟩
                    cases h
                    obtain rfl : e' = e := Option.some_inj.1 (hlookup.symm.trans he)
                    simp only [completes, horiginal, Option.bind_some, hlookup]
                    rw [Option.filter_some_pos (by simpa using hlast)]
                    rfl
  | access n m time events =>
      obtain ⟨⟨c, status, events'⟩, -, hdone⟩ := bind_eq_ok.1 hperform
      cases hdone
      exact iff_of_false (by simp [completes]) (by simp)
  | cycle memportFull =>
      obtain ⟨⟨c, pushed⟩, -, hdone⟩ := bind_eq_ok.1 hperform
      cases hdone
      exact iff_of_false (by simp [completes]) (by simp)
  | nextAccess =>
      obtain ⟨⟨c, t⟩, -, hdone⟩ := bind_eq_ok.1 hperform
      cases hdone
      exact iff_of_false (by simp [completes]) (by simp)
  | _ =>
      cases hperform
      exact iff_of_false (by simp [completes]) (by simp)

end System

/-! ### One line for each block, and a fetch for each reservation -/

namespace Core

/-- In each set at most one line holds a block. -/
def OneLine (s : Core cfg) : Prop :=
  ∀ setIndex, ∀ i ∈ TagArray.waysOf cfg setIndex, ∀ j ∈ TagArray.waysOf cfg setIndex,
    (s.lines i).isInvalidLine = false → (s.lines j).isInvalidLine = false →
      (s.lines i).tag = (s.lines j).tag → i = j

/-- A fetch for a sector of a block is under way. -/
def Awaits (s : Core cfg) (block : NewAddrType) (j : Fin 4) : Prop :=
  ∃ x ∈ s.extra.entries, cfg.blockAddr x.2.blockAddr = block ∧
    cfg.SameSector (cfg.sectorIndex (s.mfs x.1).accessSectorMask) j

instance (s : Core cfg) (block : NewAddrType) (j : Fin 4) : Decidable (s.Awaits block j) := by
  unfold Awaits
  infer_instance

/-- No sector is reserved for a fetch that has been answered. -/
def ReservedAwaited (s : Core cfg) : Prop :=
  ∀ i j, (s.lines i).getStatus j = .reserved → s.Awaits (s.lines i).tag j

/-- A line other than `idx` holds the block of an address, in its set. -/
def HeldElsewhere (s : Core cfg) (addr : NewAddrType) (idx : ℕ) : Prop :=
  ∃ setIndex ∈ (cfg.setIndex (cfg.blockAddr addr)).toOption,
    ∃ i ∈ TagArray.waysOf cfg setIndex, i ≠ idx ∧ (s.lines i).tag = cfg.blockAddr addr ∧
      (s.lines i).isInvalidLine = false

instance (s : Core cfg) (addr : NewAddrType) (idx : ℕ) : Decidable (s.HeldElsewhere addr idx) := by
  unfold HeldElsewhere
  infer_instance

theorem awaits_iff {s : Core cfg} {block : NewAddrType} {j : Fin 4} : s.Awaits block j ↔
    ∃ t e, s.extra.lookup t = some e ∧ cfg.blockAddr e.blockAddr = block ∧
      cfg.SameSector (cfg.sectorIndex (s.mfs t).accessSectorMask) j := by
  constructor
  · rintro ⟨⟨t, e⟩, hmem, hrest⟩
    exact ⟨t, e, AList.mem_lookup_iff.2 hmem, hrest⟩
  · rintro ⟨t, e, he, hrest⟩
    exact ⟨⟨t, e⟩, AList.mem_lookup_iff.1 he, hrest⟩

/-- A fetch that stays under way is still awaited. -/
theorem Awaits.of_kept {s s' : Core cfg} {block : NewAddrType} {j : Fin 4} (h : s.Awaits block j)
    (hkept : ∀ t e, s.extra.lookup t = some e → cfg.blockAddr e.blockAddr = block →
      cfg.SameSector (cfg.sectorIndex (s.mfs t).accessSectorMask) j →
        ∃ e', s'.extra.lookup t = some e' ∧ e'.blockAddr = e.blockAddr ∧ SameMasks s s' t) :
    s'.Awaits block j := by
  obtain ⟨t, e, he, hblock, hsame⟩ := awaits_iff.1 h
  obtain ⟨e', he', haddr, hmasks⟩ := hkept t e he hblock hsame
  refine awaits_iff.2 ⟨t, e', he', ?_, ?_⟩
  · rw [haddr, hblock]
  · rwa [hmasks.sectors]

/-- Sectors that are reserved after a step were reserved before it, for the same block. -/
theorem ReservedAwaited.of_lines {s s' : Core cfg} (h : s.ReservedAwaited)
    (hlines : ∀ i j, (s'.lines i).getStatus j = .reserved →
      (s.lines i).getStatus j = .reserved ∧ (s'.lines i).tag = (s.lines i).tag)
    (hkept : ∀ t e, s.extra.lookup t = some e →
      ∃ e', s'.extra.lookup t = some e' ∧ e'.blockAddr = e.blockAddr ∧ SameMasks s s' t) :
    s'.ReservedAwaited := by
  intro i j hreserved
  obtain ⟨hbefore, htag⟩ := hlines i j hreserved
  rw [htag]
  exact (h i j hbefore).of_kept fun t e he _ _ => hkept t e he

end Core

theorem Housed.oneLine {s : Core cfg} (h : Housed s) : s.OneLine :=
  fun _ i _ j _ hi hj htag => h.unique i j hi hj htag

namespace System

/-- A read of the block and sector that a response has brought finds them in the line that was
filled. -/
def ReadsFill (sys sys' : System cfg) (o : Op) : Prop :=
  ∀ x ∈ sys.completes o, ∀ m : MemFetch, m.isWrite = false →
    cfg.blockAddr m.addr = cfg.blockAddr x.2.blockAddr →
    cfg.getSectorIndex m.accessSectorMask =
      cfg.getSectorIndex (sys.core.mfs x.1).accessSectorMask →
    ∃ p, sys'.answer m = some p ∧ p.status = .hit ∧ p.idx = x.2.cacheIndex

/-- A request that is fetched joins an entry, and no fetch for its sector is under way any more. -/
def JoinsAnswered (sys : System cfg) (m : MemFetch) : Prop :=
  (∃ p ∈ sys.answer m, p.status ≠ .hit) ∧ Cache.fetches cfg m = true ∧
    cfg.mshrAddr m.addr ∈ sys.core.entries.keys ∧
    ¬sys.core.Awaits (cfg.blockAddr m.addr) (cfg.sectorIndex m.accessSectorMask)

instance (sys : System cfg) (m : MemFetch) : Decidable (sys.JoinsAnswered m) := by
  unfold JoinsAnswered
  infer_instance

/-- An accepted request joins no entry whose fetch has been answered, and a response finds no other
line with its block. -/
def FindsFetch (cls : CacheClass) (sys : System cfg) : Op → Prop
  | .access n m time events => sys.accepts cls (.access n m time events) = true →
      ¬sys.JoinsAnswered m
  | o => ∀ x ∈ sys.completes o, ¬sys.core.HeldElsewhere x.2.blockAddr x.2.cacheIndex

instance (cls : CacheClass) (sys : System cfg) (o : Op) : Decidable (sys.FindsFetch cls o) := by
  induction o using Op.casesOn <;> unfold FindsFetch <;> infer_instance

theorem FindsFetch.alone {cls : CacheClass} {sys : System cfg} {o : Op} (h : sys.FindsFetch cls o)
    {x : Token × ExtraMfFields} (hx : x ∈ sys.completes o) :
    ¬sys.core.HeldElsewhere x.2.blockAddr x.2.cacheIndex := by
  cases o with
  | access => cases hx
  | _ => exact h x hx

end System

/-! ### Accesses -/

section Access

variable {c : Cache cfg} {cls : CacheClass} {mf : Token} {time : Time} {status : CacheRequestStatus}
  {s' : Core cfg}

/-- A fetch that is under way is under way after an access, with the same masks. -/
theorem AccessCase.awaits_stays (hcase : AccessCase c cls (c.mfs mf).addr mf time status s')
    (hnew : mf ∉ c.core.extra) (hcreated : ∀ n, .created n ∈ c.core.extra → n < c.created)
    {t : Token} {e : ExtraMfFields} (he : c.core.extra.lookup t = some e) :
    s'.extra.lookup t = some e ∧ SameMasks c.core s' t := by
  have hmem : t ∈ c.core.extra := AList.lookup_isSome.1 (by rw [he]; rfl)
  exact ⟨hcase.fetch_stays hnew (fun hk => lt_irrefl _ (hcreated _ hk)) he,
    hcase.sameMasks fun n hn => hcreated n (hn ▸ hmem)⟩

/-- **An access reserves sectors for fetches that are under way only**, if it joins no entry whose
fetch has been answered. -/
theorem Core.ReservedAwaited.access (h : c.core.ReservedAwaited) (hcfg : cfg.Checked)
    (hon : cfg.allocPolicy = .onMiss) (htagged : Tagged c.core) {sent : List Token}
    (htracked : Tracked c.core sent) (hcaller : ∀ n, mf ≠ .created n)
    (hnew : mf ∉ c.core.extra) (hcreated : ∀ n, .created n ∈ c.core.extra → n < c.created)
    (hjoins : ∀ p, c.Probes (c.mfs mf).addr (c.mfs mf) p → p.status ≠ .hit →
      Cache.fetches cfg (c.mfs mf) = true → cfg.mshrAddr (c.mfs mf).addr ∈ c.core.entries →
        c.core.Awaits (cfg.blockAddr (c.mfs mf).addr)
          (cfg.sectorIndex (c.mfs mf).accessSectorMask))
    (hcase : AccessCase c cls (c.mfs mf).addr mf time status s') : s'.ReservedAwaited := by
  have hstays : ∀ {block j}, c.core.Awaits block j → s'.Awaits block j := fun hawaits =>
    hawaits.of_kept fun t e he _ _ => by
      obtain ⟨he', hmasks⟩ := hcase.awaits_stays hnew hcreated he
      exact ⟨e, he', rfl, hmasks⟩
  intro i j hreserved
  rcases hcase.line_after with ⟨hlines, -⟩ | ⟨p, line, hp, hline, hlines⟩
  · rw [hlines] at hreserved ⊢
    exact hstays (h i j hreserved)
  obtain ⟨b, htag, hsectors, hlines⟩ := hline.exists_sectors hon htagged hp hlines
  by_cases hi : i = p.idx
  · subst hi
    have htags : p.status ≠ .miss → (s'.lines p.idx).tag = (c.tagArray.lines p.idx).tag := by
      intro hmiss
      rw [hlines, Function.update_self, htag, (hp.holds (hline.found hmiss)).1]
    have hafter := hreserved
    rw [hlines, Function.update_self, CacheBlock.getStatus, hsectors] at hafter
    change line.getStatus j = .reserved at hafter
    by_cases hj : cfg.SameSector (cfg.sectorIndex (c.mfs mf).accessSectorMask) j
    · have hown := hline.getStatus_own hon hp hj
      rw [hafter] at hown
      generalize hbefore : (c.tagArray.lines p.idx).getStatus j = before at hown
      cases hown with
      | read hs =>
          rw [htags (by simp [hs])]
          exact hstays (h p.idx j hbefore)
      | fetched hs =>
          have hself : (s'.lines p.idx).getStatus (cfg.sectorIndex (c.mfs mf).accessSectorMask) =
              .reserved := by
            rcases hj with hn | rfl
            · rw [← hreserved]
              exact congrArg SectorState.status (CacheBlock.sectorAt_of_normal _ hn _ _)
            · exact hreserved
          rcases hcase.enters hp hs hself with hunchanged | ⟨hentry, hfetches⟩
          · rw [hunchanged] at hreserved ⊢
            exact hstays (h p.idx j hreserved)
          · rw [hlines, Function.update_self, htag]
            -- the access has sent the fetch, or joins one that is under way
            by_cases hjoined : cfg.mshrAddr (c.mfs mf).addr ∈ c.core.entries
            · obtain ⟨x, hx, hblock, hsame⟩ := hjoins p hp hs hfetches hjoined
              exact hstays ⟨x, hx, hblock, hsame.trans hj⟩
            · obtain ⟨-, t, e, he, hblock⟩ := (hcase.entry_origin hentry).resolve_left hjoined
              rcases hcase.fetch_origin hcaller he with he' | ⟨q, hl⟩
              · exact absurd (hblock ▸ (htracked.entry t e he').1) hjoined
              · refine Core.awaits_iff.2 ⟨t, e, he, ?_, ?_⟩
                · rw [hblock, hcfg.blockAddr_mshrAddr]
                · rwa [hl.sectors]
    · by_cases hmiss : p.status = .miss
      · have hcleared := hline.getStatus_other hon hj
        rw [if_pos hmiss, hafter] at hcleared
        cases hcleared
      · rw [CacheBlock.getStatus, hline.sectorAt_other hon hmiss hj] at hafter
        rw [htags hmiss]
        exact hstays (h p.idx j hafter)
  · rw [hlines, Function.update_of_ne hi] at hreserved ⊢
    exact hstays (h i j hreserved)

/-- An accepted request that is fetched and does not hit leaves its sector reserved, for its
block. -/
theorem AccessCase.reserves (hcase : AccessCase c cls (c.mfs mf).addr mf time status s')
    (hon : cfg.allocPolicy = .onMiss) (htagged : Tagged c.core)
    (haccept : status ≠ .reservationFail)
    {p : ProbeResult} (hp : c.Probes (c.mfs mf).addr (c.mfs mf) p) (hs : p.status ≠ .hit)
    (hfetches : Cache.fetches cfg (c.mfs mf) = true) :
    (s'.lines p.idx).tag = cfg.blockAddr (c.mfs mf).addr ∧
      (s'.lines p.idx).getStatus (cfg.sectorIndex (c.mfs mf).accessSectorMask) = .reserved := by
  have hsame : ∀ {q}, c.Probes (c.mfs mf).addr (c.mfs mf) q → q = p := fun hq =>
    Except.ok.inj (hq.symm.trans hp)
  cases hcase with
  | refused => exact absurd rfl haccept
  | hit q hq hhit =>
      rw [hsame hq] at hhit
      exact absurd hhit hs
  | forward q hq _ hwrite _ _ hpolicy =>
      simp [Cache.fetches, hwrite, hpolicy] at hfetches
  | write q hq _ hwrite _ _ _ line forward heffect =>
      cases heffect with
      | full hpolicy hfull => simp [Cache.fetches, hwrite, hpolicy, hfull] at hfetches
      | onRead hpolicy => simp [Cache.fetches, hwrite, hpolicy] at hfetches
  | fetch q hq hstatus _ reader s written hfetcher =>
      obtain rfl := hsame hq
      have htouched := htagged.touched hon hp hstatus time
      have hown : (c.touched (c.mfs mf).addr (c.mfs mf) time q).getStatus
          (cfg.sectorIndex (c.mfs mf).accessSectorMask) = .reserved :=
        LineAfter.getStatus_touched_own hon hp hstatus (.refl _ _)
      have hwritten := (SameTenant.fetcher hfetcher
        (c.touched (c.mfs mf).addr (c.mfs mf) time q)).belongsTo htouched
      dsimp only
      rcases fetched_line hfetcher (cfg.mshrAddr (c.mfs mf).addr) q.idx
        (c.touched (c.mfs mf).addr (c.mfs mf) time q)
        (writebackOf cfg cls (c.mfs mf) q.status (c.tagArray.lines q.idx)) with hline | hline
      · rw [hline, Function.update_self, hfetcher.getStatus]
        exact ⟨hwritten.1, hown⟩
      · rw [hline, Function.update_self]
        exact ⟨hwritten.1, (hfetcher.getStatus _ _).trans hown⟩

/-- **A request that reserves a sector while it joins an entry** has its fetch under way, if every
reserved sector has. -/
theorem Core.ReservedAwaited.joined (h : s'.ReservedAwaited)
    (hcase : AccessCase c cls (c.mfs mf).addr mf time status s')
    (hon : cfg.allocPolicy = .onMiss) (htagged : Tagged c.core)
    (haccept : status ≠ .reservationFail)
    (hcaller : ∀ n, mf ≠ .created n) (hcreated : ∀ n, .created n ∈ c.core.extra → n < c.created)
    {p : ProbeResult} (hp : c.Probes (c.mfs mf).addr (c.mfs mf) p) (hs : p.status ≠ .hit)
    (hfetches : Cache.fetches cfg (c.mfs mf) = true)
    (hentry : cfg.mshrAddr (c.mfs mf).addr ∈ c.core.entries) :
    c.core.Awaits (cfg.blockAddr (c.mfs mf).addr)
      (cfg.sectorIndex (c.mfs mf).accessSectorMask) := by
  obtain ⟨htag, hreserved⟩ := hcase.reserves hon htagged haccept hp hs hfetches
  obtain ⟨t, e, he, hblock, hsame⟩ := Core.awaits_iff.1 (h _ _ hreserved)
  rcases hcase.fetch_origin hcaller he with he' | ⟨q, hl⟩
  · have hmasks : SameMasks c.core s' t := hcase.sameMasks fun n hn =>
      hcreated n (hn ▸ AList.lookup_isSome.1 (by rw [he']; rfl))
    rw [hmasks.sectors] at hsame
    exact Core.awaits_iff.2 ⟨t, e, he', hblock.trans htag, hsame⟩
  · rw [← AList.lookup_isSome, hl.fresh] at hentry
    cases hentry

end Access

/-! ### Completed fetches -/

section Complete

variable {s s' : Core cfg} {mf : Token} {e : ExtraMfFields}

/-- A line that holds the block of a fetch is its own, if no line holds the block elsewhere. -/
theorem Housed.eq_of_alone (h : Housed s) (halone : ¬s.HeldElsewhere e.blockAddr e.cacheIndex)
    {i : ℕ} (hlive : (s.lines i).isInvalidLine = false)
    (htag : (s.lines i).tag = cfg.blockAddr e.blockAddr) : i = e.cacheIndex := by
  by_contra hi
  obtain ⟨setIndex, hset, hway⟩ := h.home i hlive
  rw [htag] at hset
  exact halone ⟨setIndex, by rw [hset]; rfl, i, hway, hi, htag, hlive⟩

/-- The line that was filled holds its block. -/
theorem Completed.live (h : Completed s s' mf e) :
    (s'.lines e.cacheIndex).isInvalidLine = false := by
  refine CacheBlock.isInvalidLine_of_getStatus (i :=
    cfg.sectorIndex (s.mfs mf).accessSectorMask) _ ?_
  rw [h.lines, Function.update_self, CacheBlock.getStatus_fill, if_pos (Or.inr rfl)]
  split <;> simp

theorem Completed.tag (h : Completed s s' mf e) (i : ℕ) : (s'.lines i).tag = (s.lines i).tag := by
  rw [h.lines]
  by_cases hi : i = e.cacheIndex
  · rw [hi, Function.update_self]
    exact (SameTenant.fill _ _ _).tag
  · rw [Function.update_of_ne hi]

/-- A fill of a line keeps the blocks in their sets, if no other line holds its block. -/
theorem Housed.complete (h : Housed s) (hclaimed : Claimed s) (he : s.extra.lookup mf = some e)
    (hdone : Completed s s' mf e) (halone : ¬s.HeldElsewhere e.blockAddr e.cacheIndex) :
    Housed s' := by
  obtain ⟨setIndex, hset, hway⟩ := hclaimed.home mf e he
  have htag := (hdone.tag e.cacheIndex).trans (hclaimed.tenant mf e he).1
  rw [hdone.lines, Function.update_self] at htag
  refine h.of_taken hdone.lines (by rw [htag]; exact hset) hway fun j _ hj hholds => ?_
  rw [htag] at hholds
  exact hj (h.eq_of_alone halone hholds.2 hholds.1)

/-- The sectors that are still reserved wait for other fetches. -/
theorem Core.ReservedAwaited.complete (h : s.ReservedAwaited) (hhoused : Housed s)
    (he : s.extra.lookup mf = some e) (hdone : Completed s s' mf e)
    (halone : ¬s.HeldElsewhere e.blockAddr e.cacheIndex) : s'.ReservedAwaited := by
  have hkept : ∀ {i j}, s.Awaits (s.lines i).tag j →
      ((s.lines i).tag = cfg.blockAddr e.blockAddr →
        ¬cfg.SameSector (cfg.sectorIndex (s.mfs mf).accessSectorMask) j) →
      s'.Awaits (s'.lines i).tag j := by
    intro i j hawaits hother
    rw [hdone.tag]
    refine hawaits.of_kept fun t e₀ he₀ hblock hsame => ⟨e₀, ?_, rfl, ?_⟩
    · have hne : t ≠ mf := by
        rintro rfl
        obtain rfl : e = e₀ := Option.some_inj.1 (he.symm.trans he₀)
        exact hother hblock.symm hsame
      rwa [hdone.extra, AList.lookup_erase_ne hne]
    · exact hdone.masks t (AList.lookup_isSome.1 (by rw [he₀]; rfl))
  intro i j hreserved
  by_cases hi : i = e.cacheIndex
  · have hj : ¬cfg.SameSector (cfg.sectorIndex (s.mfs mf).accessSectorMask) j := by
      intro hj
      rw [hi, hdone.lines, Function.update_self, CacheBlock.getStatus_fill,
        if_pos (show cfg.cacheType = .normal ∨ _ from hj)] at hreserved
      split at hreserved <;> cases hreserved
    have hbefore : (s.lines i).getStatus j = .reserved := by
      rw [hi, hdone.lines, Function.update_self, CacheBlock.getStatus_fill,
        if_neg (show ¬(cfg.cacheType = .normal ∨ _) from hj)] at hreserved
      rw [hi]
      exact hreserved
    exact hkept (h i j hbefore) fun _ => hj
  · have hbefore : (s.lines i).getStatus j = .reserved := by
      rwa [hdone.lines, Function.update_of_ne hi] at hreserved
    refine hkept (h i j hbefore) fun htag => absurd ?_ hi
    exact hhoused.eq_of_alone halone
      (CacheBlock.isInvalidLine_of_getStatus _ (by rw [hbefore]; simp)) htag

/-- A line that holds the block elsewhere is a second line for it, after the response. -/
theorem Core.OneLine.alone (h : s'.OneLine) (hclaimed : Claimed s) (he : s.extra.lookup mf = some e)
    (hdone : Completed s s' mf e) : ¬s.HeldElsewhere e.blockAddr e.cacheIndex := by
  rintro ⟨setIndex, hset, i, hway, hi, htag, hlive⟩
  obtain ⟨setIndex', hset', hway'⟩ := hclaimed.home mf e he
  rw [hset'] at hset
  cases hset
  have hother : s'.lines i = s.lines i := by rw [hdone.lines, Function.update_of_ne hi]
  refine hi (h setIndex i hway e.cacheIndex hway' ?_ hdone.live ?_)
  · rw [hother]
    exact hlive
  · rw [hdone.tag, hdone.tag, htag, (hclaimed.tenant mf e he).1]

end Complete

/-! ### One step -/

/-- What a cache that defers its responses keeps, as long as its steps find their fetches. -/
structure Orderly (s : Core cfg) : Prop where
  tagged : Tagged s
  housed : Housed s
  claimed : Claimed s
  pinned : PinnedFetches s
  fills : FillsReadable s
  awaited : s.ReservedAwaited

namespace Orderly

variable {sys sys' : System cfg} {cls : CacheClass} {o : Op} {b : Obs}

/-- Nothing is cached at the start, and nothing is fetched. -/
theorem init (mfs : Token → MemFetch) : Orderly (System.init cfg mfs).core := by
  have hresident : Resident (System.init cfg mfs).core := .init mfs
  refine ⟨hresident.tagged, hresident.housed, ⟨fun t e he => ?_, fun t e he => ?_⟩,
    fun t e he => ?_, fun i => .init cfg.cacheType, fun i j hreserved => ?_⟩
  · cases he
  · cases he
  · cases he
  · have hinvalid : ((System.init cfg mfs).core.lines i).getStatus j = .invalid :=
      congrArg SectorState.status (CacheBlock.sectorAt_init j)
    rw [hinvalid] at hreserved
    cases hreserved

/-- A request that is submitted is not waiting for a response, and neither are those that the cache
has not created yet. -/
theorem fresh (htracked : Tracked sys.core sys.sent) {n : ℕ} (hnew : .caller n ∉ sys.held)
    (m : MemFetch) : .caller n ∉ (sys.build n m).core.extra ∧
      ∀ k, .created k ∈ (sys.build n m).core.extra → k < (sys.build n m).core.created :=
  ⟨fun hmem => hnew (List.mem_append_right _ (htracked.mem_sent_of_mem hmem)),
    fun k hk => htracked.created k (htracked.mem_sent_of_mem hk)⟩

/-- A fetch that is under way in a state is under way when an object has been built. -/
theorem awaits_build (htracked : Tracked sys.core sys.sent) {n : ℕ} (hnew : .caller n ∉ sys.held)
    (m : MemFetch) {block : NewAddrType} {j : Fin 4} :
    (sys.build n m).core.Awaits block j ↔ sys.core.Awaits block j := by
  have hmfs : ∀ {t e}, sys.core.extra.lookup t = some e → (sys.build n m).mfs t = sys.core.mfs t :=
    fun he => System.build_mfs htracked hnew m (AList.lookup_isSome.1 (by rw [he]; rfl))
  constructor
  · refine fun h => h.of_kept fun t e he _ _ => ⟨e, he, rfl, .of_eq ?_⟩
    exact (hmfs he).symm
  · refine fun h => h.of_kept fun t e he _ _ => ⟨e, he, rfl, .of_eq ?_⟩
    exact hmfs he

/-- What a step that finds its fetch does to the lines and their reservations. -/
theorem lines_step (h : Orderly sys.core) (hcfg : cfg.Checked) (hon : cfg.allocPolicy = .onMiss)
    (htracked : Tracked sys.core sys.sent) (hpromise : sys.Promise o)
    (hperform : sys.perform cls o = .ok (sys', b)) (hfinds : sys.FindsFetch cls o) :
    Housed sys'.core ∧ sys'.core.ReservedAwaited := by
  have hkept : ∀ {s' : Core cfg}, s'.extra = sys.core.extra → s'.mfs = sys.core.mfs →
      (∀ i, (s'.lines i).tag = (sys.core.lines i).tag ∧
        ∀ j, (s'.lines i).getStatus j = (sys.core.lines i).getStatus j) →
      Housed s' ∧ s'.ReservedAwaited := by
    intro s' hextra hmfs hlines
    refine ⟨h.housed.of_lines fun i hi => ?_, h.awaited.of_lines (fun i j hreserved => ?_)
      fun t e he => ⟨e, by rwa [hextra], rfl, .of_eq (by rw [hmfs])⟩⟩
    · exact ⟨(CacheBlock.isInvalidLine_congr (hlines i).2).symm.trans hi, (hlines i).1⟩
    · rw [(hlines i).2] at hreserved
      exact ⟨hreserved, (hlines i).1⟩
  have hunpin : ∀ {s₁ : Core cfg} (mf : Token), s₁.lines = sys.core.lines →
      s₁.extra = sys.core.extra → s₁.mfs = sys.core.mfs →
      Housed (s₁.unpin mf) ∧ (s₁.unpin mf).ReservedAwaited := by
    intro s₁ mf hlines hextra hmfs
    refine hkept (by simp [hextra]) (by simp [hmfs]) fun i => ?_
    obtain ⟨hblock, hsectors⟩ := Resident.unpin_line s₁ mf i
    rw [hlines] at hblock hsectors
    exact ⟨(hblock _ (h.tagged i)).1, fun j => by
      rw [CacheBlock.getStatus, CacheBlock.sectorAt, hsectors]
      rfl⟩
  have hclear : ∀ {s' : Core cfg}, s'.extra = sys.core.extra → s'.mfs = sys.core.mfs →
      (∀ i, SameTenant (sys.core.lines i) (s'.lines i)) →
      (∀ i, (s'.lines i).isInvalidLine = false → (sys.core.lines i).isInvalidLine = false) →
      (∀ i j, (s'.lines i).getStatus j = .reserved →
        (sys.core.lines i).getStatus j = .reserved) →
      Housed s' ∧ s'.ReservedAwaited := by
    intro s' hextra hmfs htenant hlive hreserved
    exact ⟨h.housed.of_lines fun i hi => ⟨hlive i hi, (htenant i).tag⟩,
      h.awaited.of_lines (fun i j hj => ⟨hreserved i j hj, (htenant i).tag⟩)
        fun t e he => ⟨e, by rwa [hextra], rfl, .of_eq (by rw [hmfs])⟩⟩
  cases System.step_cases hpromise.suits hperform with
  | access n m time events status hcase hbelow =>
      have hm := sys.build_mfs_caller n m
      have hcase' := System.access_of_build hcase
      obtain ⟨hnew, hcreated⟩ := fresh htracked hpromise m
      have hhoused : Housed (sys.build n m).core := h.housed.of_lines fun i hi => ⟨hi, rfl⟩
      have hawaited : (sys.build n m).core.ReservedAwaited := fun i j hreserved =>
        (awaits_build htracked hpromise m).2 (h.awaited i j hreserved)
      by_cases hrefused : status = .reservationFail
      · subst hrefused
        rw [hcase.refused_eq]
        exact ⟨hhoused, hawaited⟩
      · refine ⟨hhoused.access hon h.tagged hcase', hawaited.access hcfg hon h.tagged
          (htracked.build hpromise.answers)
            (by simp) hnew hcreated (fun p hp hs hfetches hentry => ?_)
            hcase'⟩
        rw [hm] at hp hfetches hentry ⊢
        have haccepts : sys.accepts cls (.access n m time events) = true := by
          rw [System.accepts, hperform]
          exact decide_eq_true hrefused
        by_contra hawaits
        rw [awaits_build htracked hpromise m] at hawaits
        exact hfinds haccepts ⟨⟨p, (System.answer_eq_some n).2 hp, hs⟩, hfetches, hentry, hawaits⟩
  | tick memportFull waiting done htick hcore hbelow =>
      rw [hcore]
      exact hkept rfl rfl fun i => ⟨rfl, fun _ => rfl⟩
  | push memportFull waiting done htick mf rest hqueue hcore hbelow =>
      rw [hcore]
      exact hkept rfl rfl fun i => ⟨rfl, fun _ => rfl⟩
  | wait n m time original horiginal e pendingRead he hcore hbelow =>
      rw [hcore]
      refine ⟨h.housed.of_lines fun i hi => ⟨hi, rfl⟩,
        h.awaited.of_lines (fun i j hreserved => ⟨hreserved, rfl⟩) fun t e₀ he₀ => ?_⟩
      have hmasks : SameMasks sys.core { (sys.build n m).core with
          extra := sys.core.extra.insert original { e with pendingRead } } t :=
        .of_eq (System.build_mfs htracked hpromise.2.1 m (AList.lookup_isSome.1 (by rw [he₀]; rfl)))
      by_cases ht : t = original
      · subst ht
        obtain rfl : e = e₀ := Option.some_inj.1 (he.symm.trans he₀)
        exact ⟨_, AList.lookup_insert _, rfl, hmasks⟩
      · exact ⟨e₀, (AList.lookup_insert_ne ht).trans he₀, rfl, hmasks⟩
  | complete o c mf time horigin e he hentry lines hfill hcore hbelow =>
      have hdone := System.completed hon htracked hpromise horigin he hfill hcore
      have hforgotten : sys'.core.extra.lookup mf = none := by
        rw [hdone.extra, AList.lookup_erase]
      have halone := hfinds.alone
        ((System.completes_eq_some_iff hpromise hperform he).2 ⟨rfl, hforgotten⟩)
      exact ⟨h.housed.complete h.claimed he hdone halone,
        h.awaited.complete h.housed he hdone halone⟩
  | ready mf rest hqueue hpinned hcore hbelow =>
      rw [hcore]
      refine hunpin mf ?_ ?_ ?_ <;> rfl
  | deliver mf a rest addresses hready hanswered hentry hpinned hcore hbelow =>
      rw [hcore]
      refine hunpin mf ?_ ?_ ?_ <;>
        · unfold Core.deliver
          split <;> rfl
  | flush hcore hbelow =>
      rw [hcore]
      exact hclear rfl rfl (fun i => .flush _ i)
        (fun i hi => sys.cache.tagArray.isInvalidLine_of_flush hi)
        fun i j hj => sys.cache.tagArray.reserved_of_flush hj
  | invalidate hcore hbelow =>
      rw [hcore]
      exact hclear rfl rfl (fun i => .invalidate _ i)
        (fun i hi => sys.cache.tagArray.isInvalidLine_of_invalidate hi)
        fun i j hj => sys.cache.tagArray.reserved_of_invalidate hj
  | retire mf hcore hbelow =>
      rw [hcore]
      exact ⟨h.housed, h.awaited⟩

/-- **One step that finds its fetch keeps the cache orderly.** -/
theorem step (h : Orderly sys.core) (hcfg : cfg.Checked) (hon : cfg.allocPolicy = .onMiss)
    (hdefer : cfg.deferHitResponse = true) (hacc : Accounted sys.core)
    (htracked : Tracked sys.core sys.sent) (hpromise : sys.Promise o)
    (hperform : sys.perform cls o = .ok (sys', b)) (hfinds : sys.FindsFetch cls o)
    (hpins : PinsStay sys.core sys'.core (b.returned.map Prod.fst)) : Orderly sys'.core where
  tagged := hpins.tagged
  housed := (h.lines_step hcfg hon htracked hpromise hperform hfinds).1
  claimed := h.claimed.step hcfg hon hacc h.tagged h.pinned hpromise hperform hpins.stay
  pinned := h.pinned.step hdefer htracked hacc hpromise hperform hpins.kept
  fills := h.fills.step hon htracked hpromise hperform
  awaited := (h.lines_step hcfg hon htracked hpromise hperform hfinds).2

end Orderly

/-! ### Reads after a response -/

/-- A response that completes a fetch fills the sector of its request. -/
theorem System.completed_of_completes {sys sys' : System cfg} {cls : CacheClass} {o : Op} {b : Obs}
    (hon : cfg.allocPolicy = .onMiss) (htracked : Tracked sys.core sys.sent)
    (hpromise : sys.Promise o) (hperform : sys.perform cls o = .ok (sys', b)) {mf : Token}
    {e : ExtraMfFields} (hx : sys.completes o = some (mf, e)) :
    Completed sys.core sys'.core mf e ∧ cfg.getSectorIndex (sys.core.mfs mf).accessSectorMask =
      .ok (cfg.sectorIndex (sys.core.mfs mf).accessSectorMask) := by
  have he := lookup_of_completes hx
  obtain ⟨hb, hforgotten⟩ := (completes_eq_some_iff hpromise hperform he).1 hx
  cases System.step_cases hpromise.suits hperform with
  | complete o c mf' time horigin e' he' hentry lines hfill hcore hbelow =>
      cases hb
      obtain rfl : e = e' := Option.some_inj.1 (he.symm.trans he')
      refine ⟨System.completed hon htracked hpromise horigin he hfill hcore, ?_⟩
      have hmfs : c.mfs mf = sys.core.mfs mf := by
        rcases horigin with ⟨-, rfl⟩ | ⟨n, m, rfl, -, rfl⟩
        · rfl
        · exact System.build_mfs htracked hpromise.2.1 m (AList.lookup_isSome.1 (by rw [he]; rfl))
      cases hfill with
      | onMiss _ hi => rwa [hmfs] at hi
      | onFill hpolicy =>
          rw [hon] at hpolicy
          cases hpolicy
  | wait n m time original horiginal e' pendingRead he' hcore hbelow =>
      cases hb
      rw [hcore] at hforgotten
      have hsome := (AList.lookup_insert sys.core.extra).symm.trans hforgotten
      cases hsome
  | _ => cases hb

/-- **A read finds what a response has brought**, if no other line holds the block. -/
theorem Orderly.readsFill {sys sys' : System cfg} {cls : CacheClass} {o : Op} {b : Obs}
    (h : Orderly sys.core) (hon : cfg.allocPolicy = .onMiss)
    (htracked : Tracked sys.core sys.sent) (hpromise : sys.Promise o)
    (hperform : sys.perform cls o = .ok (sys', b)) (hhoused : Housed sys'.core) :
    sys.ReadsFill sys' o := by
  rintro ⟨mf, e⟩ hx m hread hblock hmask
  have he := System.lookup_of_completes hx
  obtain ⟨hdone, hindex⟩ := System.completed_of_completes hon htracked hpromise hperform hx
  dsimp only at hblock hmask ⊢
  have hsame : cfg.sectorIndex m.accessSectorMask =
      cfg.sectorIndex (sys.core.mfs mf).accessSectorMask :=
    CacheConfig.sectorIndex_eq (hmask.trans hindex)
  refine hhoused.hits hread hdone.live ?_ ?_ ?_
  · rw [hdone.tag, (h.claimed.tenant mf e he).1, hblock]
  · rw [hmask, hindex, hsame]
  · rw [hdone.lines, Function.update_self, hsame]
    exact (h.fills e.cacheIndex).matchStatus_fill (Or.inr rfl) _

/-! ### Whole runs -/

section Run

variable {cls : CacheClass} {mfs : Token → MemFetch} {trace : List Obs} {sys : System cfg}

/-- **The cache stays orderly** in every run whose steps find their fetches. -/
theorem orderly_of_run (hcfg : cfg.Checked) (hon : cfg.allocPolicy = .onMiss)
    (hdefer : cfg.deferHitResponse = true)
    (hrun : System.Run cls (fun sys o => sys.Promise o ∧ sys.FindsFetch cls o)
      (System.init cfg mfs) trace sys) : Orderly sys.core := by
  refine hrun.reachable_invariant (fun _ sys => Orderly sys.core) (.init mfs) ?_
  rintro trace sys o sys' b hbefore horderly ⟨hpromise, hfinds⟩ hperform
  obtain ⟨⟨hacc, htracked, hdelivered⟩, htagged, hhomed⟩ :=
    homed_of_run hon hdefer (hbefore.mono fun _ _ h => h.1)
  obtain ⟨hpins, -⟩ := hhomed.step hon hdefer hacc htagged (fun p hp => hdelivered.waits hp)
    hpromise hperform
  exact horderly.step hcfg hon hdefer hacc htracked hpromise hperform hfinds hpins

/-- **A block has one line at most, reserved sectors wait for fetches under way, and reads find what
was filled**, in every run whose steps find their fetches, flushes and invalidations included.  And
from a state of such a run, a step keeps the three exactly when it finds its fetch: when a request
joins no entry whose fetch has been answered, and no line but the one that a response fills holds
its block. -/
theorem one_line_per_block_iff (hcfg : cfg.Accepted) (hon : cfg.allocPolicy = .onMiss)
    (hdefer : cfg.deferHitResponse = true)
    (hrun : System.Run cls (fun sys o => sys.Promise o ∧ sys.FindsFetch cls o)
      (System.init cfg mfs) trace sys) :
    (sys.core.OneLine ∧ sys.core.ReservedAwaited) ∧
      ∀ o sys' b, sys.Promise o → sys.perform cls o = .ok (sys', b) →
        (((sys'.core.OneLine ∧ sys'.core.ReservedAwaited) ∧ sys.ReadsFill sys' o) ↔
          sys.FindsFetch cls o) := by
  have horderly := orderly_of_run hcfg.checked hon hdefer hrun
  obtain ⟨⟨-, htracked, -⟩, -⟩ := homed_of_run hon hdefer (hrun.mono fun _ _ h => h.1)
  refine ⟨⟨horderly.housed.oneLine, horderly.awaited⟩, fun o sys' b hpromise hperform => ⟨?_, ?_⟩⟩
  · rintro ⟨⟨hone, hawaited⟩, -⟩
    have halone : ∀ x ∈ sys.completes o, ¬sys.core.HeldElsewhere x.2.blockAddr x.2.cacheIndex := by
      rintro ⟨mf, e⟩ hx
      exact hone.alone horderly.claimed (System.lookup_of_completes hx)
        (System.completed_of_completes hon htracked hpromise hperform hx).1
    cases o with
    | access n m time events =>
        rintro haccepts ⟨⟨p, hp, hs⟩, hfetches, hentry, hawaits⟩
        rw [System.accepts, hperform] at haccepts
        have hm := sys.build_mfs_caller n m
        cases System.step_cases hpromise.suits hperform with
        | access _ _ _ _ status hcase hbelow =>
            obtain ⟨-, hcreated⟩ := Orderly.fresh htracked hpromise m
            have hjoined := hawaited.joined (System.access_of_build hcase) hon horderly.tagged
              (of_decide_eq_true haccepts) (by simp) hcreated
              (by rw [hm]; exact (System.answer_eq_some n).1 hp) hs (by rwa [hm])
              (by rw [hm]; exact hentry)
            rw [hm, Orderly.awaits_build htracked hpromise m] at hjoined
            exact hawaits hjoined
        | complete _ _ _ _ horigin => rcases horigin with ⟨ho, -⟩ | ⟨_, _, ho, -⟩ <;> cases ho
    | _ => exact halone
  · intro hfinds
    obtain ⟨hhoused, hawaited⟩ :=
      horderly.lines_step hcfg.checked hon htracked hpromise hperform hfinds
    exact ⟨⟨hhoused.oneLine, hawaited⟩,
      horderly.readsFill hon htracked hpromise hperform hhoused⟩

end Run

/-- A line is invalidated while it is fetched, and revived by the response: the tags find it. -/
theorem one_line_per_block_iff_revived_line :
    ∃ trace sys sys' p, System.Run (.dataCache .l1)
        (fun sys o => sys.Promise o ∧ sys.FindsFetch (.dataCache .l1) o)
        (System.init (CacheConfig.small 'S' 'B' 'm' 'N' 2 true) fun _ => MemFetch.load 0)
        trace sys ∧
      (sys.core.lines 1).isInvalidLine = true ∧
      sys.perform (.dataCache .l1) (.fill (.caller 0) 2) = .ok (sys', .fill (.caller 0)) ∧
      sys'.core.OneLine ∧ sys'.answer (MemFetch.load 0) = some p ∧ p.status = .hit ∧ p.idx = 1 := by
  obtain ⟨trace, sys, hrun, hinvalid, ⟨hpromise, hfinds⟩, hfill, hfetch, hmask⟩ :
      ∃ trace sys, System.Run (.dataCache .l1)
          (fun sys o => sys.Promise o ∧ sys.FindsFetch (.dataCache .l1) o)
          (System.init (CacheConfig.small 'S' 'B' 'm' 'N' 2 true) fun _ => MemFetch.load 0) trace
            sys ∧
        (sys.core.lines 1).isInvalidLine = true ∧
        (sys.Promise (.fill (.caller 0) 2) ∧
          sys.FindsFetch (.dataCache .l1) (.fill (.caller 0) 2)) ∧
        (sys.cache.fill (.caller 0) 2).toOption.isSome = true ∧
        (sys.completes (.fill (.caller 0) 2)).map (fun x => (x.1, x.2.blockAddr, x.2.cacheIndex)) =
          some (.caller 0, 0, 1) ∧ (sys.core.mfs (.caller 0)).accessSectorMask = {0} :=
    Runs.exists_run_of_exec [.access 0 (MemFetch.load 0) 0 [], .cycle false,
      .invalidate] (by decide)
  obtain ⟨c, hc⟩ := Option.isSome_iff_exists.1 hfill
  have hperform : sys.perform (.dataCache .l1) (.fill (.caller 0) 2) =
      .ok (⟨c, sys.below.erase (.caller 0)⟩, .fill (.caller 0)) := by
    cases hok : sys.cache.fill (.caller 0) 2 with
    | error e =>
        rw [hok] at hc
        cases hc
    | ok c' =>
        rw [hok] at hc
        cases hc
        exact bind_eq_ok.2 ⟨c, hok, rfl⟩
  obtain ⟨⟨hone, -⟩, hreads⟩ :=
    ((one_line_per_block_iff (CacheConfig.small_accepted (by decide) true)
    rfl rfl hrun).2 _ _ _ hpromise hperform).2 hfinds
  obtain ⟨⟨mf, e⟩, hx, hfetch⟩ := Option.map_eq_some_iff.1 hfetch
  obtain ⟨rfl, hblock, hidx⟩ : mf = .caller 0 ∧ e.blockAddr = 0 ∧ e.cacheIndex = 1 := by
    simpa using hfetch
  obtain ⟨p, hp, hs, hi⟩ := hreads (.caller 0, e) hx (MemFetch.load 0) rfl
    (by rw [hblock]; rfl) (by rw [hmask]; rfl)
  exact ⟨trace, sys, _, p, hrun, hinvalid, hperform, hone, hp, hs, hi.trans hidx⟩

/-- A block is read again after an invalidation, before its fetch has been answered: the response
revives the first line, and the second stays reserved. -/
theorem refetched_block_has_two_lines :
    (CacheConfig.small 'S' 'B' 'm' 'N' 2 true).Accepted ∧
      ∃ trace sys, System.Run (.dataCache .l1) System.Promise
        (System.init (CacheConfig.small 'S' 'B' 'm' 'N' 2 true) fun _ => MemFetch.load 0)
        trace sys ∧
      ¬sys.core.OneLine ∧ ¬sys.core.ReservedAwaited ∧
      (sys.answer (MemFetch.load 0)).map ProbeResult.status = some .hitReserved := by
  refine ⟨CacheConfig.small_accepted (by decide) true, ?_⟩
  obtain ⟨trace, sys, hrun, ⟨htag, hfirst, hsecond⟩, hreserved, hextra, hanswer⟩ :
      ∃ trace sys, System.Run (.dataCache .l1) System.Promise
        (System.init (CacheConfig.small 'S' 'B' 'm' 'N' 2 true) fun _ => MemFetch.load 0)
          trace sys ∧
        ((sys.core.lines 0).tag = (sys.core.lines 1).tag ∧
          (sys.core.lines 0).isInvalidLine = false ∧ (sys.core.lines 1).isInvalidLine = false) ∧
        (sys.core.lines 0).getStatus 0 = .reserved ∧ sys.core.extra.entries.isEmpty = true ∧
        (sys.answer (MemFetch.load 0)).map ProbeResult.status = some .hitReserved :=
    Runs.exists_run_of_exec [.access 0 (MemFetch.load 0) 0 [], .invalidate,
      .access 1 (MemFetch.load 0) 1 [], .cycle false, .fill (.caller 0) 2] (by decide)
  refine ⟨trace, sys, hrun, fun hone => ?_, fun hawaited => ?_, hanswer⟩
  · have hsame := hone 0 0 (by decide) 1 (by decide) hfirst hsecond htag
    cases hsame
  · obtain ⟨x, hx, -⟩ := hawaited 0 0 hreserved
    rw [List.isEmpty_iff.1 hextra] at hx
    cases hx

end OpenCache
