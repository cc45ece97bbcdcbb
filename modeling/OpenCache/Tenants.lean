/-
A pinned line keeps its block.

In a cache that allocates on misses, a request is pinned on the line that holds its block, or was
given to its block when the request was accepted.  No victim is ever pinned, so that the line keeps
its tag until the request is returned.

* `OpenCache.Homed` — the invariant: the line a request is pinned on has the tag of its block;
* `OpenCache.Homed.access` — an access pins a request on a line of its own block;
* `OpenCache.Homed.step` — one step leaves every pinned line to its block, and every request that is
  not returned on its line;
* `OpenCache.pinned_line_keeps_block` — **a pinned line is never reallocated**.
-/

import OpenCache.Deliveries

set_option relaxedAutoImplicit false
set_option autoImplicit false

namespace OpenCache

variable {cfg : CacheConfig}

/-- A line that belongs to a block. -/
def CacheBlock.BelongsTo {k : CacheType} (b : CacheBlock k) (block : NewAddrType) : Prop :=
  b.tag = block ∧ b.blockAddr = block

theorem SameTenant.belongsTo {k : CacheType} {b b' : CacheBlock k} (h : SameTenant b b')
    {block : NewAddrType} (hb : b.BelongsTo block) : b'.BelongsTo block :=
  ⟨h.tag.trans hb.1, h.blockAddr.trans hb.2⟩

/-- The two addresses that a line keeps agree. -/
def Tagged (s : Core cfg) : Prop := ∀ i, (s.lines i).BelongsTo (s.lines i).tag

/-- Every request that is owed is pinned on a line of its block. -/
def Homed (l : List Debt) (s : Core cfg) : Prop :=
  ∀ p ∈ l, ∃ i, s.pending.lookup p.token = some i ∧
    (s.lines i).BelongsTo (cfg.blockAddr p.value.1)

/-- Pinned lines stay with their blocks from one state to another. -/
def TenantsStay (s s' : Core cfg) : Prop :=
  ∀ i, (s.lines i).pendingResponseCount ≠ 0 →
    ∀ block, (s.lines i).BelongsTo block → (s'.lines i).BelongsTo block

namespace TenantsStay

variable {s s' : Core cfg}

/-- One line changes: it keeps its block, or it was not pinned. -/
theorem of_line {idx : ℕ} (hother : ∀ i ≠ idx, s'.lines i = s.lines i)
    (hline : (s.lines idx).pendingResponseCount ≠ 0 →
      ∀ block, (s.lines idx).BelongsTo block → (s'.lines idx).BelongsTo block) :
    TenantsStay s s' := by
  intro i hcount block hb
  by_cases hi : i = idx
  · subst hi
    exact hline hcount block hb
  · rw [hother i hi]
    exact hb

end TenantsStay

namespace Tagged

variable {s s' : Core cfg}

theorem of_sameTenant (h : Tagged s) (hsame : ∀ i, SameTenant (s.lines i) (s'.lines i)) :
    Tagged s' := by
  intro i
  have hline := (hsame i).belongsTo (h i)
  rwa [← (hsame i).tag] at hline

/-- One line changes. -/
theorem of_line (h : Tagged s) {idx : ℕ} (hother : ∀ i ≠ idx, s'.lines i = s.lines i)
    {block : NewAddrType} (hline : (s'.lines idx).BelongsTo block) : Tagged s' := by
  intro i
  by_cases hi : i = idx
  · subst hi
    rwa [hline.1]
  · rw [hother i hi]
    exact h i

end Tagged

/-! ### The line of an access -/

section Access

variable {c : Cache cfg} {addr : NewAddrType} {mf : Token} {p : ProbeResult}

/-- A line that is found has the tag of the block. -/
theorem Tagged.found (h : Tagged c.core) (hp : c.Probes addr (c.mfs mf) p)
    (hs : p.status = .hit ∨ p.status = .hitReserved ∨ p.status = .sectorMiss) :
    (c.tagArray.lines p.idx).BelongsTo (cfg.blockAddr addr) := by
  obtain ⟨setIndex, -, hprobed⟩ := TagArray.probed_of_probe hp
  obtain ⟨-, htag, -⟩ := hprobed.found hs
  rw [CacheConfig.tag_eq_blockAddr, CacheConfig.blockAddr_blockAddr] at htag
  rw [← htag]
  exact h p.idx

/-- The line that a miss has found or taken belongs to the block of the request. -/
theorem Tagged.touched (hon : cfg.allocPolicy = .onMiss) (h : Tagged c.core)
    (hp : c.Probes addr (c.mfs mf) p)
    (hs : p.status = .hitReserved ∨ p.status = .miss ∨ p.status = .sectorMiss) (time : Time) :
    (c.touched addr (c.mfs mf) time p).BelongsTo (cfg.blockAddr addr) := by
  by_cases hmiss : p.status = .miss
  · rw [Cache.touched, hmiss]
    simp only [TagArray.touchedLine, if_pos hon]
    obtain ⟨htag, hblock, -⟩ := CacheBlock.allocate_tenant (c.tagArray.lines p.idx)
      (cfg.tag (cfg.blockAddr addr)) (cfg.blockAddr (cfg.blockAddr addr)) time
      (cfg.sectorIndex (c.mfs mf).accessSectorMask)
    refine ⟨htag.trans ?_, hblock.trans ?_⟩ <;> simp
  · refine (SameTenant.touchedLine (Or.inl hmiss) _).belongsTo (h.found hp ?_)
    rcases hs with hs | hs | hs
    · exact Or.inr (Or.inl hs)
    · exact absurd hs hmiss
    · exact Or.inr (Or.inr hs)

/-- The line that a miss has found or taken stays with its block if it is pinned. -/
theorem TenantsStay.touched (hp : c.Probes addr (c.mfs mf) p) (time : Time) (block : NewAddrType)
    (hcount : (c.tagArray.lines p.idx).pendingResponseCount ≠ 0)
    (hb : (c.tagArray.lines p.idx).BelongsTo block) :
    (c.touched addr (c.mfs mf) time p).BelongsTo block := by
  have hmiss : p.status ≠ .miss := fun hs => hcount (TagArray.count_of_miss hp hs)
  exact (SameTenant.touchedLine (Or.inl hmiss) _).belongsTo hb

end Access

theorem CacheBlock.BelongsTo.pin {k : CacheType} {b : CacheBlock k} {block : NewAddrType}
    (h : b.BelongsTo block) : b.pin.BelongsTo block := h

/-- What a step does to the tenants and the pins: pinned lines stay with their blocks, and requests
that wait stay on their lines, except the one that is returned. -/
structure PinsStay (s s' : Core cfg) (gone : Option Token) : Prop where
  tagged : Tagged s'
  stay : TenantsStay s s'
  kept : ∀ t ∈ s.waiting, gone ≠ some t → s'.pending.lookup t = s.pending.lookup t

/-- Nothing changes but the states of sectors and the counts. -/
theorem PinsStay.of_belongsTo {s s' : Core cfg} {gone : Option Token} (htagged : Tagged s)
    (hlines : ∀ i block, (s.lines i).BelongsTo block → (s'.lines i).BelongsTo block)
    (hkept : ∀ t ∈ s.waiting, gone ≠ some t → s'.pending.lookup t = s.pending.lookup t) :
    PinsStay s s' gone := by
  refine ⟨fun i => ?_, fun i _ block hb => hlines i block hb, hkept⟩
  have hline := hlines i _ (htagged i)
  rwa [← hline.1] at hline

/-- One line changes. -/
theorem PinsStay.of_update {s s' : Core cfg} {gone : Option Token} {idx : ℕ}
    {b : CacheBlock cfg.cacheType} {block : NewAddrType} (htagged : Tagged s)
    (hlines : s'.lines = Function.update s.lines idx b) (hb : b.BelongsTo block)
    (hstay : (s.lines idx).pendingResponseCount ≠ 0 →
      ∀ block, (s.lines idx).BelongsTo block → b.BelongsTo block)
    (hkept : ∀ t ∈ s.waiting, gone ≠ some t → s'.pending.lookup t = s.pending.lookup t) :
    PinsStay s s' gone := by
  have hother : ∀ i ≠ idx, s'.lines i = s.lines i := fun i hi => by
    rw [hlines, Function.update_of_ne hi]
  have hself : s'.lines idx = b := by rw [hlines, Function.update_self]
  exact ⟨htagged.of_line hother (hself.symm ▸ hb),
    .of_line hother fun hcount block h => hself.symm ▸ hstay hcount block h, hkept⟩

namespace Homed

variable {l l' : List Debt} {s s' : Core cfg}

/-- What was owed before is still pinned, on a line of its block. -/
theorem of_kept (h : Homed l s) (hacc : Accounted s) (hsub : ∀ p ∈ l', p ∈ l)
    (hstay : TenantsStay s s')
    (hkept : ∀ p ∈ l', s'.pending.lookup p.token = s.pending.lookup p.token) : Homed l' s' := by
  intro p hp
  obtain ⟨i, hi, hline⟩ := h p (hsub p hp)
  exact ⟨i, (hkept p hp).trans hi, hstay i (hacc.count_ne_zero hi) _ hline⟩

/-- What is accepted is pinned on a line of its block. -/
theorem post (h : Homed l s') {p : Debt} {i : ℕ} (hi : s'.pending.lookup p.token = some i)
    (hline : (s'.lines i).BelongsTo (cfg.blockAddr p.value.1)) : Homed (l ++ [p]) s' := by
  intro q hq
  rcases List.mem_append.1 hq with hq | hq
  · exact h q hq
  · rw [List.mem_singleton.1 hq]
    exact ⟨i, hi, hline⟩

/-- An access leaves the pins in place, and pins what it accepts on a line of its block. -/
theorem access {c : Cache cfg} {cls : CacheClass} {mf : Token} {time : Time}
    {status : CacheRequestStatus} (hon : cfg.allocPolicy = .onMiss)
    (hdefer : cfg.deferHitResponse = true) (hacc : Accounted c.core) (htagged : Tagged c.core)
    (hwaits : ∀ p ∈ l, p.token ∈ c.core.waiting) (h : Homed l c.core)
    (hnew : mf ∉ c.core.waiting) (hcaller : ∀ n, mf ≠ .created n)
    (hcase : AccessCase c cls (c.mfs mf).addr mf time status s') :
    PinsStay c.core s' none ∧ Homed (owedAfter cfg l (.access mf (c.mfs mf) status
      (System.joined c.core s' (cfg.mshrAddr (c.mfs mf).addr)))) s' := by
  have hsame : ∀ {s₁ : Core cfg}, PinsStay c.core s₁ none → Homed l s₁ := fun hpins =>
    h.of_kept hacc (fun _ hp => hp) hpins.stay fun p hp =>
      hpins.kept p.token (hwaits p hp) (by simp)
  cases hcase with
  | refused =>
      rw [Delivered.joined_of_same rfl, owedAfter_of_none (by simp)]
      exact ⟨⟨htagged, fun _ _ _ hb => hb, fun _ _ _ => rfl⟩, h⟩
  | hit p hp hs _ line forward heffect =>
      have hline := SameTenant.hitEffect heffect
      have hfound := hline.belongsTo (htagged.found hp (Or.inl hs))
      generalize hs' : ((c.core.setLine p.idx line).enqueueIf forward mf).respond mf p.idx = s'
      have hlines : s'.lines = Function.update c.core.lines p.idx line.pin := by
        rw [← hs']
        simp [Core.respond, hdefer, Core.pin, Core.setLine]
      have hpending : s'.pending = c.core.pending.insert mf p.idx := by
        rw [← hs']
        simp [Core.respond, hdefer, Core.pin, Core.setLine]
      have hpins : PinsStay c.core s' none := by
        refine .of_update htagged hlines hfound.pin (fun _ block hb => (hline.belongsTo hb).pin) ?_
        intro t ht _
        have hne : t ≠ mf := by
          rintro rfl
          exact hnew ht
        rw [hpending, AList.lookup_insert_ne hne]
      refine ⟨hpins, (hsame hpins).post (hpending ▸ AList.lookup_insert _) ?_⟩
      rw [hlines, Function.update_self]
      exact hfound.pin
  | forward p hp =>
      have hpins : PinsStay c.core (c.core.enqueue mf) none :=
        ⟨htagged, fun _ _ _ hb => hb, fun _ _ _ => rfl⟩
      have hjoined : System.joined c.core (c.core.enqueue mf) (cfg.mshrAddr (c.mfs mf).addr) =
          none := Delivered.joined_of_same rfl _
      rw [hjoined, owedAfter_of_none (by simp)]
      exact ⟨hpins, hsame hpins⟩
  | write p hp hs _ _ _ _ line forward heffect =>
      have htouched := htagged.touched hon hp hs time
      have hline := SameTenant.writeEffect heffect
      rw [Delivered.joined_of_same (by simp [Core.setLine]), owedAfter_of_none (by simp)]
      generalize hs' : ((c.core.enqueueIf forward mf).setLine p.idx line).sendOwn _ = s'
      have hlines : s'.lines = Function.update c.core.lines p.idx line := by
        rw [← hs']
        simp [Core.setLine]
      have hpending : s'.pending = c.core.pending := by
        rw [← hs']
        simp [Core.setLine]
      have hpins : PinsStay c.core s' none :=
        .of_update htagged hlines (hline.belongsTo htouched)
          (fun hcount block hb => hline.belongsTo (TenantsStay.touched hp time block hcount hb))
          fun t _ _ => by rw [hpending]
      exact ⟨hpins, hsame hpins⟩
  | fetch p hp hs _ reader s written hfetcher =>
      have htouched := htagged.touched hon hp hs time
      obtain ⟨hslines, hentries, -, -, hhit, hready, hspending⟩ := hfetcher.frame
      obtain ⟨-, -, hreader, -⟩ := hacc.fetcher hnew hcaller hfetcher
      have hjoin : ∀ (s₁ : Core cfg), s₁.entries =
          (c.core.join (cfg.mshrAddr (c.mfs mf).addr) reader).entries →
          System.joined c.core s₁ (cfg.mshrAddr (c.mfs mf).addr) = some reader :=
        fun _ => Delivered.joined_of_join
      rw [hjoin _ (by simp [Core.setLine, Core.join, hentries])]
      generalize htouch : c.touched (c.mfs mf).addr (c.mfs mf) time p = touched at htouched
      dsimp only
      generalize hs' : Core.sendOwn _ _ = s'
      have hwritten := SameTenant.fetcher hfetcher touched.pin
      have hlines : s'.lines = Function.update c.core.lines p.idx (written touched.pin) := by
        rw [← hs']
        simp [Core.setLine, Core.pinMiss, hdefer, Core.pin, hslines]
      have hpending : s'.pending = c.core.pending.insert reader p.idx := by
        rw [← hs']
        simp [Core.setLine, Core.pinMiss, hdefer, Core.pin, hspending]
      have hpins : PinsStay c.core s' none := by
        refine .of_update htagged hlines (hwritten.belongsTo htouched.pin)
          (fun hcount block hb => hwritten.belongsTo ?_) fun t ht _ => ?_
        · rw [← htouch]
          exact (TenantsStay.touched hp time block hcount hb).pin
        · have hne : t ≠ reader := by
            rintro rfl
            exact hreader (by rwa [Core.waiting, Core.hitTokens, hhit, hready, hentries])
          rw [hpending, AList.lookup_insert_ne hne]
      refine ⟨hpins, (hsame hpins).post (hpending ▸ AList.lookup_insert _) ?_⟩
      rw [hlines, Function.update_self]
      exact hwritten.belongsTo htouched.pin

/-- A request is returned: its line loses a pin, and stays with its block. -/
theorem unpin {s₁ : Core cfg} (htagged : Tagged s) (hlines : s₁.lines = s.lines)
    (hpending : s₁.pending = s.pending) (t : Token) : PinsStay s (s₁.unpin t) (some t) := by
  refine .of_belongsTo htagged (fun i block hb => ?_) fun t' _ ht' => ?_
  · rw [← hlines] at hb
    unfold Core.unpin
    split
    · exact hb
    · next idx _ =>
        by_cases hi : i = idx
        · subst hi
          simpa [Core.setLine, CacheBlock.BelongsTo] using hb
        · simpa [Core.setLine, hi] using hb
  · have hne : t' ≠ t := fun heq => ht' (heq ▸ rfl)
    rw [Core.unpin_pending, hpending, AList.lookup_erase_ne hne]

/-- **One step leaves the pins in place**, and pins what it accepts on a line of its block. -/
theorem step {sys sys' : System cfg} {cls : CacheClass} {o : Op} {b : Obs}
    (hon : cfg.allocPolicy = .onMiss) (hdefer : cfg.deferHitResponse = true)
    (hacc : Accounted sys.core) (htagged : Tagged sys.core)
    (hwaits : ∀ p ∈ l, p.token ∈ sys.core.waiting) (h : Homed l sys.core)
    (hpromise : sys.Promise o) (hperform : sys.perform cls o = .ok (sys', b)) :
    PinsStay sys.core sys'.core (b.returned.map Prod.fst) ∧
      Homed (owedAfter cfg l b) sys'.core := by
  have hnothing : ∀ {b : Obs}, (∀ mf m a, b ≠ .nextAccess mf m a) → b.accepted cfg = none →
      PinsStay sys.core sys'.core none → Homed (owedAfter cfg l b) sys'.core := by
    intro b hreturn haccept hpins
    rw [owedAfter_nothing hreturn haccept]
    exact h.of_kept hacc (fun _ hp => hp) hpins.stay fun p hp =>
      hpins.kept p.token (hwaits p hp) (by simp)
  -- a request that is returned takes its debt with it
  have hsettle : ∀ {mf : Token}, PinsStay sys.core sys'.core (some mf) →
      Homed (Ledger.settle l mf) sys'.core := by
    intro mf hpins
    refine h.of_kept hacc (fun _ hp => (Ledger.mem_settle.1 hp).1) hpins.stay fun p hp => ?_
    obtain ⟨hp, hne⟩ := Ledger.mem_settle.1 hp
    exact hpins.kept p.token (hwaits p hp) fun heq => hne (Option.some_inj.1 heq).symm
  cases System.step_cases hpromise.suits hperform with
  | access n m time events status hcase hbelow =>
      have hm : (sys.build n m).mfs (.caller n) = m := Function.update_self _ _ _
      have hbuilt : Accounted (sys.build n m).core :=
        hacc.of_same (List.Perm.refl _) rfl (fun _ => rfl) le_rfl
      have hcase' := System.access_of_build hcase
      have hbuild : Homed l (sys.build n m).core := h
      have hstep := hbuild.access hon hdefer hbuilt htagged hwaits
        (fun hmem => hpromise (List.mem_append_left _ hmem)) (by simp) hcase'
      rw [hm] at hstep
      exact ⟨⟨hstep.1.tagged, hstep.1.stay, hstep.1.kept⟩, hstep.2⟩
  | tick memportFull waiting done htick hcore hbelow =>
      have hpins : PinsStay sys.core sys'.core none := by
        rw [hcore]
        exact .of_belongsTo htagged (fun _ _ hb => hb) fun _ _ _ => rfl
      exact ⟨hpins, hnothing (by simp) rfl hpins⟩
  | push memportFull waiting done htick mf rest hqueue hcore hbelow =>
      have hpins : PinsStay sys.core sys'.core none := by
        rw [hcore]
        exact .of_belongsTo htagged (fun _ _ hb => hb) fun _ _ _ => rfl
      exact ⟨hpins, hnothing (by simp) rfl hpins⟩
  | wait n m time original horiginal e pendingRead he hcore hbelow =>
      have hpins : PinsStay sys.core sys'.core none := by
        rw [hcore]
        exact .of_belongsTo htagged (fun _ _ hb => hb) fun _ _ _ => rfl
      exact ⟨hpins, hnothing (by simp) rfl hpins⟩
  | complete o c mf time horigin e he hentry lines hfill hcore hbelow =>
      have hpins : PinsStay sys.core sys'.core none := by
        have hc : c.tagArray.lines = sys.core.lines ∧ c.core.pending = sys.core.pending := by
          rcases horigin with ⟨-, rfl⟩ | ⟨n, m, -, -, rfl⟩ <;> exact ⟨rfl, rfl⟩
        rw [hcore]
        refine .of_belongsTo htagged (fun i block hb => ?_) fun t _ _ => ?_
        · rw [← hc.1] at hb
          cases hfill with
          | onMiss _ hi =>
              by_cases hidx : i = e.cacheIndex
              · subst hidx
                simpa using (SameTenant.fill _ _ _).belongsTo hb
              · simpa [hidx] using hb
          | onFill hpolicy =>
              rw [hon] at hpolicy
              cases hpolicy
        · exact congrArg (AList.lookup t) hc.2
      exact ⟨hpins, hnothing (by simp) rfl hpins⟩
  | ready mf rest hqueue hpinned hcore hbelow =>
      have hpins : PinsStay sys.core sys'.core (some mf) := by
        rw [hcore]
        refine unpin htagged ?_ ?_ mf <;> rfl
      exact ⟨hpins, hsettle hpins⟩
  | deliver mf a rest addresses hready hanswered hentry hpinned hcore hbelow =>
      have hpins : PinsStay sys.core sys'.core (some mf) := by
        rw [hcore]
        refine unpin htagged ?_ ?_ mf <;>
          · unfold Core.deliver
            split <;> rfl
      exact ⟨hpins, hsettle hpins⟩
  | flush hcore hbelow =>
      have hpins : PinsStay sys.core sys'.core none := by
        rw [hcore]
        exact .of_belongsTo htagged (fun i _ hb => (SameTenant.flush _ i).belongsTo hb)
          fun _ _ _ => rfl
      exact ⟨hpins, hnothing (by simp) rfl hpins⟩
  | invalidate hcore hbelow =>
      have hpins : PinsStay sys.core sys'.core none := by
        rw [hcore]
        exact .of_belongsTo htagged (fun i _ hb => (SameTenant.invalidate _ i).belongsTo hb)
          fun _ _ _ => rfl
      exact ⟨hpins, hnothing (by simp) rfl hpins⟩
  | retire mf hcore hbelow =>
      have hpins : PinsStay sys.core sys'.core none := by
        rw [hcore]
        exact .of_belongsTo htagged (fun _ _ hb => hb) fun _ _ _ => rfl
      exact ⟨hpins, hnothing (by simp) rfl hpins⟩

end Homed

/-! ### Counts -/

/-- A line loses a pin only when a request that is pinned on it is returned. -/
theorem count_le_of_kept {s s' : Core cfg} {gone : Option Token} (hacc : Accounted s)
    (hacc' : Accounted s')
    (hkept : ∀ t ∈ s.waiting, gone ≠ some t → s'.pending.lookup t = s.pending.lookup t) (i : ℕ) :
    (s.lines i).pendingResponseCount ≤ (s'.lines i).pendingResponseCount +
      if gone.bind s.pending.lookup = some i then 1 else 0 := by
  have hwaits : ∀ t j, s.pending.lookup t = some j → t ∈ s.waiting := fun t j ht =>
    hacc.mem_pending.1 (AList.lookup_isSome.1 (by rw [ht]; rfl))
  rw [hacc.count, hacc'.count, Core.pinsOn, Core.pinsOn]
  cases gone with
  | none =>
      refine Nat.le_add_right_of_le (AList.countP_le_of_lookup _ fun t j ht => ?_)
      exact (hkept t (hwaits t j ht) (by simp)).trans ht
  | some r =>
      have hothers : (s.pending.erase r).entries.countP (fun e => e.2 = i) ≤
          s'.pending.entries.countP fun e => e.2 = i := by
        refine AList.countP_le_of_lookup _ fun t j ht => ?_
        have hne : t ≠ r := by
          rintro rfl
          rw [AList.lookup_erase] at ht
          cases ht
        rw [AList.lookup_erase_ne hne] at ht
        exact (hkept t (hwaits t j ht) fun heq => hne (Option.some_inj.1 heq).symm).trans ht
      cases hr : s.pending.lookup r with
      | none =>
          rw [AList.erase_of_notMem (AList.lookup_eq_none.1 hr)] at hothers
          exact Nat.le_add_right_of_le hothers
      | some j =>
          rw [AList.countP_of_lookup _ hr]
          simpa [hr] using hothers

/-! ### Whole runs -/

section Run

variable {cls : CacheClass} {mfs : Token → MemFetch} {trace : List Obs} {sys : System cfg}

theorem homed_of_run (hon : cfg.allocPolicy = .onMiss) (hdefer : cfg.deferHitResponse = true)
    (h : System.Run cls System.Promise (System.init cfg mfs) trace sys) :
    (Accounted sys.core ∧ Tracked sys.core sys.sent ∧ Delivered cls (owed cfg trace) sys.core) ∧
      Tagged sys.core ∧ Homed (owed cfg trace) sys.core := by
  refine Runs.Run.invariant (fun trace sys => (Accounted sys.core ∧ Tracked sys.core sys.sent ∧
    Delivered cls (owed cfg trace) sys.core) ∧ Tagged sys.core ∧ Homed (owed cfg trace) sys.core)
    ?_ ?_ h
  · obtain ⟨hacc, htracked, hdelivered, -⟩ :=
      @delivered_of_run cfg cls mfs [] (System.init cfg mfs) hdefer .nil
    exact ⟨⟨hacc, htracked, hdelivered⟩, fun i => ⟨rfl, rfl⟩, fun p hp => by cases hp⟩
  · rintro trace s o s' b ⟨⟨hacc, htracked, hdelivered⟩, htagged, hhomed⟩ hpromise hperform
    obtain ⟨hpins, hhomed'⟩ := hhomed.step hon hdefer hacc htagged (fun p hp => hdelivered.waits hp)
      hpromise hperform
    rw [owed_snoc]
    exact ⟨⟨hacc.step hdefer hpromise.distinct hperform,
      htracked.step hpromise.answers hperform,
      hdelivered.step hdefer hacc htracked hpromise hperform⟩, hpins.tagged, hhomed'⟩

/-- **A pinned line is never reallocated.**  In every state that a cache which allocates on misses
and defers its responses can reach, each request that is owed is pinned on a line with the tag and
the block address of its block; the tag array takes no line with a pin as the victim of a miss; and
in every step, a pinned line keeps its tag and its block address, a request that is not returned
stays on its line, and a count goes down only by the return of a request that is pinned there. -/
theorem pinned_line_keeps_block (hon : cfg.allocPolicy = .onMiss)
    (hdefer : cfg.deferHitResponse = true)
    (h : System.Run cls System.Promise (System.init cfg mfs) trace sys) :
    (∀ p ∈ owed cfg trace, ∃ i, sys.core.pending.lookup p.token = some i ∧
        (sys.core.lines i).tag = cfg.tag p.value.1 ∧
        (sys.core.lines i).blockAddr = cfg.blockAddr p.value.1) ∧
      (∀ addr time idx m ta r, sys.cache.tagArray.access addr time idx m = .ok (ta, r) →
        r.status = .miss → (sys.core.lines r.idx).pendingResponseCount = 0) ∧
      ∀ o sys' b, sys.Promise o → sys.perform cls o = .ok (sys', b) →
        (∀ i, (sys.core.lines i).pendingResponseCount ≠ 0 →
          (sys'.core.lines i).tag = (sys.core.lines i).tag ∧
            (sys'.core.lines i).blockAddr = (sys.core.lines i).blockAddr) ∧
        (∀ t ∈ sys.core.waiting, b.returned.map Prod.fst ≠ some t →
          sys'.core.pending.lookup t = sys.core.pending.lookup t) ∧
        ∀ i, (sys.core.lines i).pendingResponseCount ≤ (sys'.core.lines i).pendingResponseCount +
          if (b.returned.map Prod.fst).bind sys.core.pending.lookup = some i then 1 else 0 := by
  obtain ⟨⟨hacc, htracked, hdelivered⟩, htagged, hhomed⟩ := homed_of_run hon hdefer h
  refine ⟨fun p hp => ?_, fun addr time idx m ta r hta hr => ?_,
    fun o sys' b hpromise hperform => ?_⟩
  · obtain ⟨i, hi, hline⟩ := hhomed p hp
    exact ⟨i, hi, hline.1.trans (CacheConfig.tag_eq_blockAddr _ _).symm, hline.2⟩
  · obtain ⟨p, hp, -, hstatus, hidx, -⟩ := TagArray.access_eq_ok hta
    rw [hidx]
    exact TagArray.count_of_miss hp (hstatus.symm.trans hr)
  · obtain ⟨hpins, -⟩ := hhomed.step hon hdefer hacc htagged (fun p hp => hdelivered.waits hp)
      hpromise hperform
    refine ⟨fun i hi => ?_, hpins.kept, fun i => ?_⟩
    · have hline := hpins.stay i hi _ (htagged i)
      exact ⟨hline.1, hline.2.trans (htagged i).2.symm⟩
    · exact count_le_of_kept hacc (hacc.step hdefer hpromise.distinct hperform) hpins.kept i

/-- A line whose write-evict left it invalid keeps the tag of the read that is still to be
returned. -/
theorem pinned_line_keeps_evicted_block :
    ∃ trace sys, System.Run (.dataCache .l1) System.Promise
      (System.init (CacheConfig.small 'S' 'E' 'm' 'N' 2 true) fun _ => MemFetch.load 0) trace sys ∧
      (sys.core.lines 1).isInvalidLine = true ∧ sys.core.pending.lookup (.caller 0) = some 1 ∧
      ∃ p ∈ owed (CacheConfig.small 'S' 'E' 'm' 'N' 2 true) trace, ∃ i,
        sys.core.pending.lookup p.token = some i ∧
          (sys.core.lines i).tag =
            (CacheConfig.small 'S' 'E' 'm' 'N' 2 true).tag p.value.1 := by
  obtain ⟨trace, sys, hrun, hinvalid, hpending, howed⟩ :
      ∃ trace sys, System.Run (.dataCache .l1) System.Promise
        (System.init (CacheConfig.small 'S' 'E' 'm' 'N' 2 true) fun _ => MemFetch.load 0)
          trace sys ∧
        (sys.core.lines 1).isInvalidLine = true ∧ sys.core.pending.lookup (.caller 0) = some 1 ∧
        owed (CacheConfig.small 'S' 'E' 'm' 'N' 2 true) trace ≠ [] :=
    Runs.exists_run_of_exec [.access 0 (MemFetch.load 0) 0 [], .cycle false, .fill (.caller 0) 1,
      .access 1 (MemFetch.store 0 (sectorBytes 0)) 2 []] (by decide)
  obtain ⟨p, hp⟩ := List.exists_mem_of_ne_nil _ howed
  obtain ⟨i, hi, htag, -⟩ := (pinned_line_keeps_block (by decide) (by decide) hrun).1 p hp
  exact ⟨trace, sys, hrun, hinvalid, hpending, p, hp, i, hi, htag⟩

end Run

end OpenCache
