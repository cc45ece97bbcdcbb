/-
A cache whose associativity changes.

The array of lines is made for the largest associativity, and `set_assoc` changes how many lines of
it make up a set.  `invalidate` goes through as many lines as the cache has at the moment.  The
lines that a larger cache has filled stay as they are when a smaller one is invalidated, and the
tags find them again when the cache grows back.

* `OpenCache.CacheConfig.setAssoc`, `OpenCache.Cache.setAssoc` — the change of associativity;
* `OpenCache.Placed` — **the invariant**: a block is in a line that its set has had under some
  associativity;
* `OpenCache.Resizable` — a cache whose associativity changes, with its calls and what is promised;
* `OpenCache.Resizable.Quiet` — the calls that allocate no line;
* `OpenCache.invalidate_hides_lines_iff` — when an invalidation hides all the lines;
* `OpenCache.grown_cache_hits_invalidated_line` — a line that is hit after an invalidation.
-/

import OpenCache.Revivals
import OpenCache.DirtyLines

set_option relaxedAutoImplicit false
set_option autoImplicit false

namespace OpenCache

variable {cfg : CacheConfig}

/-! ### Where the blocks are -/

/-- The blocks, and the lines of the fetches, are where `P` says that a block may be. -/
structure Placed (P : ℕ → NewAddrType → Prop) (s : Core cfg) : Prop where
  tagged : Tagged s
  live : ∀ i, (s.lines i).isInvalidLine = false → P i (s.lines i).tag
  fetched : ∀ t e, s.extra.lookup t = some e → P e.cacheIndex (s.lines e.cacheIndex).tag

/-- An access changes the line that its probe answers with, and makes fetches for this line only. -/
theorem AccessCase.line_and_fetches {c : Cache cfg} {cls : CacheClass} {addr : NewAddrType}
    {mf : Token} {time : Time} {status : CacheRequestStatus} {s' : Core cfg}
    (hcase : AccessCase c cls addr mf time status s') :
    s'.lines = c.core.lines ∧ s'.extra = c.core.extra ∨
      ∃ p line, c.Probes addr (c.mfs mf) p ∧ LineAfter c cls addr mf time p line ∧
        (s'.lines = Function.update c.tagArray.lines p.idx line ∨
          s'.lines = Function.update c.tagArray.lines p.idx line.pin) ∧
        ∀ t e, s'.extra.lookup t = some e → c.core.extra.lookup t = some e ∨
          e.cacheIndex = p.idx := by
  have hfetch : ∀ {p}, c.Probes addr (c.mfs mf) p → ∀ t e, s'.extra.lookup t = some e →
      c.core.extra.lookup t = some e ∨ e.cacheIndex = p.idx := by
    intro p hp t e he
    rcases hcase.extra_origin he with he | ⟨q, hq, -, ad, size, rfl⟩
    · exact Or.inl he
    · exact Or.inr (congrArg ProbeResult.idx (Except.ok.inj (hq.symm.trans hp)))
  cases hcase with
  | refused => exact Or.inl ⟨rfl, rfl⟩
  | hit p hp hs _ line forward heffect =>
      refine Or.inr ⟨p, line, hp, .hit hs line forward heffect, ?_, hfetch hp⟩
      by_cases hdefer : cfg.deferHitResponse = true
      · exact Or.inr (by simp [Core.respond, hdefer, Core.pin, Core.setLine, Cache.core])
      · exact Or.inl (by simp [Core.respond, hdefer, Core.setLine, Cache.core])
  | forward => exact Or.inl ⟨rfl, rfl⟩
  | write p hp hs hwrite _ _ _ line forward heffect =>
      refine Or.inr ⟨p, line, hp, .write hs hwrite line forward heffect, Or.inl ?_, hfetch hp⟩
      simp [Core.setLine, Cache.core]
  | fetch p hp hs _ reader s written hfetcher =>
      exact Or.inr ⟨p, _, hp, .fetch hs reader s written hfetcher,
        fetched_line hfetcher _ _ _ _, hfetch hp⟩

namespace Placed

variable {P : ℕ → NewAddrType → Prop} {s s' : Core cfg}

/-- The return of a request leaves the states of the lines. -/
theorem isInvalidLine_unpin (s : Core cfg) (mf : Token) (i : ℕ) :
    ((s.unpin mf).lines i).isInvalidLine = (s.lines i).isInvalidLine := by
  refine CacheBlock.isInvalidLine_congr fun j => ?_
  rw [CacheBlock.getStatus, CacheBlock.sectorAt, (Resident.unpin_line s mf i).2]
  rfl

/-- The lines keep their tags, no line comes to life, and no fetch is made. -/
theorem of_lines (h : Placed P s) (htagged : Tagged s')
    (htag : ∀ i, (s'.lines i).tag = (s.lines i).tag)
    (hlive : ∀ i, (s'.lines i).isInvalidLine = false → (s.lines i).isInvalidLine = false)
    (hextra : ∀ t e, s'.extra.lookup t = some e →
      ∃ e₀, s.extra.lookup t = some e₀ ∧ e.cacheIndex = e₀.cacheIndex) : Placed P s' where
  tagged := htagged
  live i hi := htag i ▸ h.live i (hlive i hi)
  fetched t e he := by
    obtain ⟨e₀, he₀, hidx⟩ := hextra t e he
    rw [htag, hidx]
    exact h.fetched t e₀ he₀

/-- One line changes: its block may be there. -/
theorem of_line (h : Placed P s) {idx : ℕ} {b : CacheBlock cfg.cacheType} {block : NewAddrType}
    (hlines : s'.lines = Function.update s.lines idx b) (hb : b.BelongsTo block)
    (hplace : P idx block)
    (hextra : ∀ t e, s'.extra.lookup t = some e → e.cacheIndex = idx ∨
      ∃ e₀, s.extra.lookup t = some e₀ ∧ e.cacheIndex = e₀.cacheIndex) : Placed P s' := by
  have hself : (s'.lines idx).BelongsTo block := by rwa [hlines, Function.update_self]
  have hother : ∀ i ≠ idx, s'.lines i = s.lines i := fun i hi => by
    rw [hlines, Function.update_of_ne hi]
  refine ⟨h.tagged.of_line hother hself, fun i hi => ?_, fun t e he => ?_⟩
  · by_cases hidx : i = idx
    · rw [hidx, hself.1]
      exact hplace
    · rw [hother i hidx] at hi ⊢
      exact h.live i hi
  · by_cases hidx : e.cacheIndex = idx
    · rw [hidx, hself.1]
      exact hplace
    · obtain ⟨e₀, he₀, hsame⟩ := (hextra t e he).resolve_left hidx
      rw [hother _ hidx, hsame]
      exact h.fetched t e₀ he₀

variable {sys sys' : System cfg} {cls : CacheClass} {o : Op} {b : Obs}

/-- **One step keeps the blocks where they may be**, when a block may be in every way of its set. -/
theorem step (h : Placed P sys.core) (hon : cfg.allocPolicy = .onMiss)
    (hplace : ∀ a setIndex i, cfg.setIndex (cfg.blockAddr a) = .ok setIndex →
      i ∈ TagArray.waysOf cfg setIndex → P i (cfg.blockAddr a))
    (hpromise : sys.Promise o) (hperform : sys.perform cls o = .ok (sys', b)) :
    Placed P sys'.core := by
  have hsame : ∀ {s' : Core cfg}, s'.lines = sys.core.lines → s'.extra = sys.core.extra →
      Placed P s' := by
    intro s' hlines hextra
    refine h.of_lines (fun i => ?_) (fun i => ?_) (fun i hi => ?_) fun t e he => ?_
    · rw [hlines]
      exact h.tagged i
    · rw [hlines]
    · rwa [hlines] at hi
    · rw [hextra] at he
      exact ⟨e, he, rfl⟩
  have hunpin : ∀ {s₁ : Core cfg} (mf : Token), Placed P s₁ → Placed P (s₁.unpin mf) := by
    intro s₁ mf hs₁
    have htags : ∀ i, ((s₁.unpin mf).lines i).BelongsTo (s₁.lines i).tag := fun i =>
      (Resident.unpin_line s₁ mf i).1 _ (hs₁.tagged i)
    refine hs₁.of_lines (fun i => ?_) (fun i => (htags i).1) (fun i hi => ?_) fun t e he => ?_
    · rw [(htags i).1]
      exact htags i
    · rwa [isInvalidLine_unpin] at hi
    · rw [(Core.unpin_frame _ _).2.2.2.1] at he
      exact ⟨e, he, rfl⟩
  cases System.step_cases hpromise.suits hperform with
  | access n m time events status hcase hbelow =>
      rcases hcase.line_and_fetches with ⟨hlines, hextra⟩ | ⟨p, line, hp, hline, hlines, hfetches⟩
      · exact hsame hlines hextra
      -- the access takes a way of the set that it has probed, or leaves a way where it was found
      · have htagged : Tagged (sys.build n m).core := h.tagged
        obtain ⟨b, hb, -, hlines⟩ := hline.exists_line hon htagged hp hlines
        obtain ⟨setIndex, hset, hprobed⟩ := TagArray.probed_of_probe hp
        have hway : p.idx ∈ TagArray.waysOf cfg setIndex := by
          by_cases hmiss : p.status = .miss
          · exact (hprobed.miss hmiss).1
          · exact (hprobed.found (hline.found hmiss)).1
        refine h.of_line hlines hb (hplace m.addr setIndex p.idx hset hway) fun t e he => ?_
        exact (hfetches t e he).symm.imp id fun he => ⟨e, he, rfl⟩
  | tick _ _ _ _ hcore =>
      rw [hcore]
      exact hsame rfl rfl
  | push _ _ _ _ _ _ _ hcore =>
      rw [hcore]
      exact hsame rfl rfl
  | wait n m time original horiginal e pendingRead he hcore =>
      rw [hcore]
      refine h.of_lines h.tagged (fun _ => rfl) (fun _ hi => hi) fun t e' he' => ?_
      by_cases ht : t = original
      · subst ht
        cases (AList.lookup_insert _).symm.trans he'
        exact ⟨e, he, rfl⟩
      · exact ⟨e', (AList.lookup_insert_ne ht).symm.trans he', rfl⟩
  | complete o c mf time horigin e he _ lines hfill hcore =>
      have hc : c.core.extra = sys.core.extra ∧ c.tagArray.lines = sys.core.lines := by
        rcases horigin with ⟨-, rfl⟩ | ⟨_, _, -, -, rfl⟩ <;> exact ⟨rfl, rfl⟩
      cases hfill with
      | onMiss hpolicy hi =>
          have hlines : sys'.core.lines = Function.update sys.core.lines e.cacheIndex
              ((sys.core.lines e.cacheIndex).fill (cfg.sectorIndex (c.mfs mf).accessSectorMask)
                (c.mfs mf).accessByteMask) := by
            rw [hcore, hc.2]
          have hb := (SameTenant.fill (sys.core.lines e.cacheIndex)
            (cfg.sectorIndex (c.mfs mf).accessSectorMask)
            (c.mfs mf).accessByteMask).belongsTo (h.tagged e.cacheIndex)
          refine h.of_line hlines hb (h.fetched mf e he) fun t e' he' => Or.inr ⟨e', ?_, rfl⟩
          rw [hcore] at he'
          change (c.core.extra.erase mf).lookup t = some e' at he'
          rw [hc.1] at he'
          by_cases ht : t = mf
          · rw [ht, AList.lookup_erase] at he'
            cases he'
          · rwa [AList.lookup_erase_ne ht] at he'
      -- only allocation on fills lets a fill choose its line
      | onFill hpolicy => cases hon.symm.trans hpolicy
  | ready mf rest _ _ hcore =>
      rw [hcore]
      exact hunpin mf (hsame rfl rfl)
  | deliver mf a rest _ _ _ _ _ hcore =>
      have hdeliver : (sys.core.deliver a rest).lines = sys.core.lines ∧
          (sys.core.deliver a rest).extra = sys.core.extra := by
        unfold Core.deliver
        split <;> exact ⟨rfl, rfl⟩
      rw [hcore]
      exact hunpin mf (hsame hdeliver.1 hdeliver.2)
  | flush hcore =>
      rw [hcore]
      have hflush := SameTenant.flush sys.cache.tagArray
      exact h.of_lines (h.tagged.of_sameTenant hflush) (fun i => (hflush i).tag)
        (fun i => sys.cache.tagArray.isInvalidLine_of_flush) fun t e he => ⟨e, he, rfl⟩
  | invalidate hcore =>
      rw [hcore]
      have hinvalidate := SameTenant.invalidate sys.cache.tagArray
      exact h.of_lines (h.tagged.of_sameTenant hinvalidate) (fun i => (hinvalidate i).tag)
        (fun i => sys.cache.tagArray.isInvalidLine_of_invalidate) fun t e he => ⟨e, he, rfl⟩
  | retire _ hcore =>
      rw [hcore]
      exact hsame rfl rfl

end Placed

/-! ### Lines that the tags find -/

/-- **The tags find a block that a way of its set holds.** -/
theorem TagArray.probe_finds {ta : TagArray cfg} {addr : NewAddrType} {mask : MemAccessSectorMask}
    {setIndex i : ℕ} {j : Fin 4} (hset : cfg.setIndex addr = .ok setIndex)
    (hi : i ∈ waysOf cfg setIndex) (hmask : cfg.getSectorIndex mask = .ok j)
    (hholds : Holds ta.lines i (cfg.tag addr)) (idx : ℕ) (isWrite : Bool) :
    ∃ p, ta.probe addr idx mask isWrite = .ok p ∧
      ¬(p.status = .miss ∨ p.status = .reservationFail) := by
  obtain ⟨p, hprobe⟩ := probe_of_holds hset hmask hi hholds idx isWrite
  refine ⟨p, hprobe, fun habsent => ?_⟩
  obtain ⟨setIndex', hset', hprobed⟩ := probed_of_probe hprobe
  obtain rfl : setIndex' = setIndex := Except.ok.inj (hset'.symm.trans hset)
  exact hprobed.absent habsent i hi hholds

/-- A read of one sector passes its mask. -/
theorem getSectorIndex_load (cfg : CacheConfig) (addr : NewAddrType) :
    ∃ j, cfg.getSectorIndex (MemFetch.load addr).accessSectorMask = .ok j := by
  unfold CacheConfig.getSectorIndex
  split
  · exact ⟨0, rfl⟩
  · have hcard : ∀ j : Fin 4, (memAccessSectorMask {j}).card = 1 := by decide
    exact ⟨_, if_pos (hcard _)⟩

/-! ### Lines that stay invalid -/

/-- The calls that may allocate a line: accesses and fills. -/
def Op.mayAllocate : Op → Bool
  | .access _ _ _ _ => true
  | .fill _ _ => true
  | .fillChild _ _ _ => true
  | _ => false

/-- No line comes to life without an access or a fill. -/
theorem System.invalid_stays {sys sys' : System cfg} {cls : CacheClass} {o : Op} {b : Obs}
    (h : ∀ i, (sys.core.lines i).isInvalidLine = true) (hmay : o.mayAllocate = false)
    (hpromise : sys.Promise o) (hperform : sys.perform cls o = .ok (sys', b)) (i : ℕ) :
    (sys'.core.lines i).isInvalidLine = true := by
  cases System.step_cases hpromise.suits hperform with
  | access => cases hmay
  | wait => cases hmay
  | complete _ _ _ _ horigin => rcases horigin with ⟨rfl, -⟩ | ⟨_, _, rfl, -, -⟩ <;> cases hmay
  | tick _ _ _ _ hcore =>
      rw [hcore]
      exact h i
  | push _ _ _ _ _ _ _ hcore =>
      rw [hcore]
      exact h i
  | ready mf rest _ _ hcore =>
      rw [hcore, Placed.isInvalidLine_unpin]
      exact h i
  | deliver mf a rest _ _ _ _ _ hcore =>
      rw [hcore, Placed.isInvalidLine_unpin, Core.deliver]
      split <;> exact h i
  | flush hcore =>
      by_contra hlive
      rw [hcore, Bool.not_eq_true] at hlive
      cases (h i).symm.trans (sys.cache.tagArray.isInvalidLine_of_flush hlive)
  | invalidate hcore =>
      by_contra hlive
      rw [hcore, Bool.not_eq_true] at hlive
      cases (h i).symm.trans (sys.cache.tagArray.isInvalidLine_of_invalidate hlive)
  | retire _ hcore =>
      rw [hcore]
      exact h i

/-! ### The change of associativity -/

/-- `set_assoc`. -/
def CacheConfig.setAssoc (cfg : CacheConfig) (n : ℕ) : CacheConfig := { cfg with assoc := n }

/-- The constructor of the tags and the sets start from the same associativity. -/
theorem CacheConfig.Accepted.assoc_eq (h : cfg.Accepted) : cfg.assoc = cfg.originalAssoc := by
  obtain ⟨old, t, c, wrPercent, defer, size, hinit, rfl⟩ := h
  obtain ⟨_, _, _, _, _, _, _, -, -, -, -, -, -, -, -, -, -, -, rfl⟩ := init_eq_ok.1 hinit
  rfl

/-- `get_max_assoc`, where `multiplier` is what the virtual `get_max_cache_multiplier` returns. -/
def CacheConfig.getMaxAssoc (cfg : CacheConfig) (multiplier : ℕ) : ℕ :=
  multiplier * cfg.originalAssoc

/-- The tag array looks at the associativity in its configuration. -/
def TagArray.setAssoc {a : ℕ} (ta : TagArray (cfg.setAssoc a)) (n : ℕ) :
    TagArray (cfg.setAssoc n) where
  lines := ta.lines
  accesses := ta.accesses
  misses := ta.misses
  pendingHit := ta.pendingHit
  resFail := ta.resFail
  sectorMiss := ta.sectorMiss
  dirty := ta.dirty
  lastFailReason := ta.lastFailReason
  isUsed := ta.isUsed

/-- All the other members of a cache stay as they are. -/
def Cache.setAssoc {a : ℕ} (c : Cache (cfg.setAssoc a)) (n : ℕ) : Cache (cfg.setAssoc n) where
  tagArray := c.tagArray.setAssoc n
  mshrs := c.mshrs
  missQueue := c.missQueue
  extraMfFields := c.extraMfFields
  hitResponseQueue := c.hitResponseQueue
  readyResponseQueue := c.readyResponseQueue
  pendingResponseIndices := c.pendingResponseIndices
  stats := c.stats
  dataPortOccupiedCycles := c.dataPortOccupiedCycles
  fillPortOccupiedCycles := c.fillPortOccupiedCycles
  mfs := c.mfs
  created := c.created

/-- A cache whose associativity changes. -/
structure Resizable (cfg : CacheConfig) where
  assoc : ℕ
  sys : System (cfg.setAssoc assoc)

/-- A call of a method of the cache, or a change of its associativity. -/
inductive ResizeOp
  | call (o : Op)
  | setAssoc (n : ℕ)

/-- A change of the associativity allocates no line. -/
def ResizeOp.mayAllocate : ResizeOp → Bool
  | .call o => o.mayAllocate
  | .setAssoc _ => false

namespace Resizable

/-- The constructor. -/
def init (cfg : CacheConfig) (mfs : Token → MemFetch) : Resizable cfg :=
  ⟨cfg.assoc, System.init (cfg.setAssoc cfg.assoc) mfs⟩

/-- The lines, all of those that the constructor has made. -/
def lines (s : Resizable cfg) : ℕ → CacheBlock cfg.cacheType := s.sys.core.lines

/-- One call. -/
def perform (cls : CacheClass) (s : Resizable cfg) : ResizeOp → Step (Resizable cfg × Option Obs)
  | .call o => do
      let (sys, b) ← s.sys.perform cls o
      return (⟨s.assoc, sys⟩, some b)
  | .setAssoc n => return (⟨n, ⟨s.sys.cache.setAssoc n, s.sys.below⟩⟩, none)

/-- The state after a call that leaves the cache `c`. -/
def after (s : Resizable cfg) (c : Cache (cfg.setAssoc s.assoc)) : Resizable cfg :=
  ⟨s.assoc, ⟨c, s.sys.below⟩⟩

/-- What the environment promises: about its calls what it promises to any cache, and that the array
of lines is large enough for a new associativity. -/
def Promise (multiplier : ℕ) (s : Resizable cfg) : ResizeOp → Prop
  | .call o => s.sys.Promise o
  | .setAssoc n => 1 ≤ n ∧ n ≤ cfg.getMaxAssoc multiplier

/-- The runs of a cache whose associativity changes. -/
abbrev Run (cls : CacheClass) (multiplier : ℕ) (mfs : Token → MemFetch) :
    List (Option Obs) → Resizable cfg → Prop :=
  Runs.Run (perform cls) (Promise multiplier) (init cfg mfs)

/-! ### Where the blocks are -/

/-- A block may be in the lines that its set has under some associativity. -/
def Place (cfg : CacheConfig) (multiplier i : ℕ) (block : NewAddrType) : Prop :=
  cfg.blockAddr block = block ∧ ∃ n setIndex, 1 ≤ n ∧ n ≤ cfg.getMaxAssoc multiplier ∧
    cfg.setIndex block = .ok setIndex ∧ i ∈ TagArray.waysOf (cfg.setAssoc n) setIndex

/-- **The invariant**: the associativity is not too large, and the blocks are in lines that their
sets have had. -/
structure Settled (multiplier : ℕ) (s : Resizable cfg) : Prop where
  assoc_le : s.assoc ≤ cfg.getMaxAssoc multiplier
  placed : Placed (Place cfg multiplier) s.sys.core

variable {multiplier : ℕ} {s s' : Resizable cfg} {cls : CacheClass}

/-- A set that has a way has an associativity. -/
theorem assoc_pos_of_mem {setIndex i : ℕ} (h : i ∈ TagArray.waysOf cfg setIndex) :
    1 ≤ cfg.assoc := by
  obtain ⟨way, hway, -⟩ := List.mem_map.1 h
  exact Nat.one_le_iff_ne_zero.2 fun hzero => by simp [hzero] at hway

theorem Settled.step (h : s.Settled multiplier) (hon : cfg.allocPolicy = .onMiss) {o : ResizeOp}
    {b : Option Obs} (hpromise : s.Promise multiplier o)
    (hperform : s.perform cls o = .ok (s', b)) : s'.Settled multiplier := by
  cases o with
  | call o =>
      obtain ⟨⟨sys, b'⟩, hcall, hperform⟩ := bind_eq_ok.1 hperform
      cases hperform
      refine ⟨h.assoc_le, h.placed.step hon ?_ hpromise hcall⟩
      intro a setIndex i hset hway
      exact ⟨CacheConfig.blockAddr_blockAddr _ _, s.assoc, setIndex, assoc_pos_of_mem hway,
        h.assoc_le, hset, hway⟩
  | setAssoc n =>
      cases hperform
      exact ⟨hpromise.2, ⟨h.placed.tagged, h.placed.live, h.placed.fetched⟩⟩

/-- **The blocks are in lines of their sets in every run.** -/
theorem settled_of_run (hon : cfg.allocPolicy = .onMiss)
    (hassoc : cfg.assoc ≤ cfg.getMaxAssoc multiplier) {mfs : Token → MemFetch}
    {trace : List (Option Obs)} (hrun : Run cls multiplier mfs trace s) :
    s.Settled multiplier := by
  refine hrun.state_invariant (Settled multiplier) ⟨hassoc, ?_⟩ fun _ _ _ _ h => h.step hon
  refine ⟨(Resident.init mfs).tagged, fun i hi => ?_, fun t e he => ?_⟩
  · have hinvalid : ((init cfg mfs).sys.core.lines i).isInvalidLine = true :=
      (CacheBlock.isInvalidLine_iff _).2 fun j =>
        congrArg SectorState.status (CacheBlock.sectorAt_init j)
    cases hinvalid.symm.trans hi
  · cases he

/-- A line outside the array is invalid. -/
theorem Settled.invalid_of_le (h : s.Settled multiplier) {i : ℕ}
    (hi : cfg.nset * cfg.getMaxAssoc multiplier ≤ i) : (s.lines i).isInvalidLine = true := by
  by_contra hlive
  rw [Bool.not_eq_true] at hlive
  obtain ⟨-, n, setIndex, -, hle, hset, hway⟩ := h.placed.live i hlive
  have hlt : i < cfg.nset * n := @TagArray.lt_of_mem_waysOf (cfg.setAssoc n) _ _ _ hset hway
  have hmul : cfg.nset * n ≤ cfg.nset * cfg.getMaxAssoc multiplier := Nat.mul_le_mul_left _ hle
  omega

/-! ### After an invalidation -/

/-- All the lines are invalid, those included that the cache does not have at the moment. -/
def AllInvalid (s : Resizable cfg) : Prop := ∀ i, (s.lines i).isInvalidLine = true

/-- The calls that allocate no line: an access or a fill among them brings no line to life. -/
def Quiet (cls : CacheClass) (multiplier : ℕ) (s : Resizable cfg) (o : ResizeOp) : Prop :=
  s.Promise multiplier o ∧ (o.mayAllocate = true → ∀ s' b, s.perform cls o = .ok (s', b) →
    ∀ i, (s.lines i).isInvalidLine = true → (s'.lines i).isInvalidLine = true)

/-- No line comes to life without an access or a fill. -/
theorem AllInvalid.step (h : s.AllInvalid) {o : ResizeOp} {b : Option Obs}
    (hquiet : s.Quiet cls multiplier o) (hperform : s.perform cls o = .ok (s', b)) :
    s'.AllInvalid := by
  obtain ⟨hpromise, hallocates⟩ := hquiet
  by_cases hmay : o.mayAllocate = true
  · exact fun i => hallocates hmay s' b hperform i (h i)
  · cases o with
    | setAssoc n =>
        cases hperform
        exact h
    | call o =>
        obtain ⟨⟨sys, b'⟩, hcall, hperform⟩ := bind_eq_ok.1 hperform
        cases hperform
        exact System.invalid_stays h (by simpa [ResizeOp.mayAllocate] using hmay) hpromise hcall

/-- A change of the associativity is a quiet run. -/
theorem run_setAssoc {n : ℕ} (hpos : 1 ≤ n) (hle : n ≤ cfg.getMaxAssoc multiplier) :
    Runs.Run (perform cls) (Quiet cls multiplier) s [none]
      ⟨n, ⟨s.sys.cache.setAssoc n, s.sys.below⟩⟩ := by
  have hquiet : s.Quiet cls multiplier (.setAssoc n) := ⟨⟨hpos, hle⟩, fun hmay => by cases hmay⟩
  exact @Runs.Run.snoc _ _ _ _ _ _ _ [] _ _ _ _ .nil hquiet rfl

/-- Where all the lines are invalid, the tags find nothing. -/
theorem AllInvalid.answer (h : s.AllInvalid) {m : MemFetch} {p : ProbeResult}
    (hp : s.sys.answer m = some p) : p.status = .miss ∨ p.status = .reservationFail := by
  have hprobes := (System.answer_eq_some 0).1 hp
  by_contra hfound
  have hs : p.status = .hit ∨ p.status = .hitReserved ∨ p.status = .sectorMiss := by
    obtain ⟨setIndex, -, hprobed⟩ := TagArray.probed_of_probe hprobes
    have hne := hprobed.ne_mshrHit
    cases hst : p.status <;> simp_all
  cases (h p.idx).symm.trans (hprobes.holds hs).2

end Resizable

/-- **An invalidation hides all the lines when it reaches them**: after an invalidation with nothing
outstanding no probe finds anything, whatever the associativity becomes, until a line is allocated —
exactly when the lines that the cache does not have at the moment are invalid. -/
theorem invalidate_hides_lines_iff {cls : CacheClass} {multiplier : ℕ} {mfs : Token → MemFetch}
    {trace : List (Option Obs)} {s : Resizable cfg} (haccepted : cfg.Accepted)
    (hon : cfg.allocPolicy = .onMiss) (hmultiplier : 1 ≤ multiplier)
    (hrun : Resizable.Run cls multiplier mfs trace s)
    (_hidle : s.sys.core.extra.entries = [] ∧ s.sys.core.entries.entries = []) :
    (∀ s₁ b trace' s₂ m p, s.perform cls (.call .invalidate) = .ok (s₁, b) →
        Runs.Run (Resizable.perform cls) (Resizable.Quiet cls multiplier) s₁ trace' s₂ →
        s₂.sys.answer m = some p → p.status = .miss ∨ p.status = .reservationFail) ↔
      ∀ i, cfg.nset * s.assoc ≤ i → (s.lines i).isInvalidLine = true := by
  have hassoc : cfg.assoc ≤ cfg.getMaxAssoc multiplier := by
    rw [haccepted.assoc_eq]
    exact Nat.le_mul_of_pos_left _ hmultiplier
  have hsettled := Resizable.settled_of_run hon hassoc hrun
  constructor
  · intro hhidden i hi
    by_contra hlive
    rw [Bool.not_eq_true] at hlive
    obtain ⟨haligned, n, setIndex, hpos, hle, hset, hway⟩ := hsettled.placed.live i hlive
    -- the cache grows back to the associativity under which the set has had the line
    have hgrow : Runs.Run (Resizable.perform cls) (Resizable.Quiet cls multiplier)
        (s.after s.sys.cache.invalidate) [none]
        ⟨n, ⟨s.sys.cache.invalidate.setAssoc n, s.sys.below⟩⟩ := Resizable.run_setAssoc hpos hle
    -- the loop of `invalidate` stops at the associativity of the moment, so it has missed the line
    have hline : (s.sys.cache.invalidate.setAssoc n).tagArray.lines i = s.lines i :=
      if_neg (Nat.not_lt.2 hi)
    obtain ⟨j, hmask⟩ := getSectorIndex_load (cfg.setAssoc n) (s.lines i).tag
    have hholds : TagArray.Holds (s.sys.cache.invalidate.setAssoc n).tagArray.lines i
        ((cfg.setAssoc n).tag ((cfg.setAssoc n).blockAddr (s.lines i).tag)) := by
      rw [TagArray.Holds, hline, CacheConfig.tag_eq_blockAddr, CacheConfig.blockAddr_blockAddr]
      exact ⟨haligned.symm, hlive⟩
    have hset' : (cfg.setAssoc n).setIndex ((cfg.setAssoc n).blockAddr (s.lines i).tag) =
        .ok setIndex := (congrArg cfg.setIndex haligned).trans hset
    obtain ⟨p, hp, hfound⟩ := TagArray.probe_finds hset' hway hmask hholds Cache.noIndex
       (MemFetch.load (s.lines i).tag).isWrite
    refine hfound (hhidden _ _ _ _ (MemFetch.load (s.lines i).tag) p rfl hgrow ?_)
    exact (System.answer_eq_some 0).2 hp
  -- the lines beyond the loop are invalid already, and quiet calls bring none to life
  · intro hinvalid s₁ b trace' s₂ m p hinvalidate hquiet hp
    cases hinvalidate
    have hstart : (s.after s.sys.cache.invalidate).AllInvalid := by
      intro i
      change ((if i < cfg.nset * s.assoc then TagArray.invalidateLine (s.lines i)
        else s.lines i) : CacheBlock cfg.cacheType).isInvalidLine = true
      split
      · exact (CacheBlock.isInvalidLine_iff _).2 fun j => @TagArray.getStatus_invalidateLine cfg _ j
      · next hi => exact hinvalid i (Nat.le_of_not_lt hi)
    have hend : s₂.AllInvalid :=
      hquiet.state_invariant Resizable.AllInvalid hstart fun _ _ _ _ h => h.step
    exact hend.answer hp

instance (multiplier : ℕ) (s : Resizable cfg) (o : ResizeOp) :
    Decidable (s.Promise multiplier o) := by
  cases o with
  | call o => exact inferInstanceAs (Decidable (s.sys.Promise o))
  | setAssoc n => exact inferInstanceAs (Decidable (1 ≤ n ∧ n ≤ cfg.getMaxAssoc multiplier))

/-- A cache of one line that has grown to two: an invalidation hides the line that it has filled,
and the cache may grow further. -/
theorem invalidate_hides_lines_iff_grown :
    ∃ trace, ∃ s : Resizable (CacheConfig.small 'N' 'R' 'm' 'N' 1 false),
      Resizable.Run .readOnlyCache 4 (fun _ => MemFetch.load 0) trace s ∧
      (s.sys.answer (MemFetch.load 0)).map (fun p => p.status) = some .hit ∧
      ∀ p, System.answer ⟨s.sys.cache.invalidate.setAssoc 4, s.sys.below⟩ (MemFetch.load 0) =
        some p → p.status = .miss ∨ p.status = .reservationFail := by
  obtain ⟨trace, s, hrun, hidle, hassoc, hunused, hhit⟩ : ∃ trace,
      ∃ s : Resizable (CacheConfig.small 'N' 'R' 'm' 'N' 1 false),
        Resizable.Run .readOnlyCache 4 (fun _ => MemFetch.load 0) trace s ∧
        (s.sys.core.extra.entries = [] ∧ s.sys.core.entries.entries = []) ∧ s.assoc = 2 ∧
        ((s.lines 2).isInvalidLine = true ∧ (s.lines 3).isInvalidLine = true) ∧
        (s.sys.answer (MemFetch.load 0)).map (fun p => p.status) = some .hit :=
    Runs.exists_run_of_exec [.setAssoc 2, .call (.access 0 (MemFetch.load 0) 0 []),
      .call (.cycle false), .call (.fill (.caller 0) 2), .call .nextAccess] (by decide)
  refine ⟨trace, s, hrun, hhit, fun p hp => ?_⟩
  have haccepted : (CacheConfig.small 'N' 'R' 'm' 'N' 1 false).Accepted :=
    CacheConfig.small_accepted (by decide) false
  refine (invalidate_hides_lines_iff haccepted rfl (by decide) hrun hidle).2 (fun i hi => ?_)
    _ _ _ _ _ p rfl (Resizable.run_setAssoc (by decide) (by decide)) hp
  rw [hassoc] at hi
  have hcases : i = 2 ∨ i = 3 ∨ 4 ≤ i := by
    have : 1 * 2 ≤ i := hi
    omega
  rcases hcases with rfl | rfl | hle
  · exact hunused.1
  · exact hunused.2
  · exact (Resizable.settled_of_run rfl (by decide) hrun).invalid_of_le hle

/-- Two ways, a fill of the second one, one way, an invalidation, two ways: the line is hit. -/
theorem grown_cache_hits_invalidated_line :
    (CacheConfig.small 'N' 'R' 'm' 'N' 1 false).Accepted ∧
      ∃ trace, ∃ s : Resizable (CacheConfig.small 'N' 'R' 'm' 'N' 1 false),
        Resizable.Run .readOnlyCache 4 (fun _ => MemFetch.load 0) trace s ∧
        (s.sys.core.extra.entries = [] ∧ s.sys.core.entries.entries = []) ∧
        ∃ s₁ b trace' s₂, s.perform .readOnlyCache (.call .invalidate) = .ok (s₁, b) ∧
          Runs.Run (Resizable.perform .readOnlyCache) (Resizable.Quiet .readOnlyCache 4) s₁ trace'
            s₂ ∧
          (s₂.sys.answer (MemFetch.load 0)).map (fun p => p.status) = some .hit := by
  obtain ⟨trace, s, hrun, hidle, hhit⟩ : ∃ trace,
      ∃ s : Resizable (CacheConfig.small 'N' 'R' 'm' 'N' 1 false),
        Resizable.Run .readOnlyCache 4 (fun _ => MemFetch.load 0) trace s ∧
        (s.sys.core.extra.entries = [] ∧ s.sys.core.entries.entries = []) ∧
        ((System.answer ⟨s.sys.cache.invalidate.setAssoc 2, s.sys.below⟩ (MemFetch.load 0)).map
          fun p => p.status) = some .hit :=
    Runs.exists_run_of_exec [.setAssoc 2, .call (.access 0 (MemFetch.load 0) 0 []),
      .call (.cycle false), .call (.fill (.caller 0) 2), .call .nextAccess, .setAssoc 1]
      (by decide)
  exact ⟨CacheConfig.small_accepted (by decide) false, trace, s, hrun, hidle, _, _, [none], _, rfl,
    Resizable.run_setAssoc (by decide) (by decide), hhit⟩

end OpenCache
