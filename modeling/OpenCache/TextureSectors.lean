/-
Texture caches with sector lines.

`tex_cache::access` marks the block of a request as valid when the tags answer `MISS`.  When they
answer `SECTOR_MISS`, they have reserved the sector, but nothing fills it and no request is sent to
memory: the sector stays `RESERVED`, and the next access to it fails on
`assert(status != HIT_RESERVED)`.

* `OpenCache.TexSystem.Loads` — the promise of a caller that reads inside one sector at a time;
* `OpenCache.TexSystem.SectorThere` — an access does not find its line without its sector;
* `OpenCache.TexSystem.steady_step` — what a step does to the tags under that condition;
* `OpenCache.texture_sectors_settle` — **no sector is left reserved exactly when every access meets
  it**, and no access fails on the answer of the tags;
* `OpenCache.texture_sector_miss_never_filled` — a run of two reads of one line in which it is not.
-/

import OpenCache.TextureTags
import OpenCache.TextureOrder

set_option relaxedAutoImplicit false
set_option autoImplicit false

namespace OpenCache

variable {cfg : CacheConfig}

/-- No sector of any line is reserved. -/
def TagArray.Settled (ta : TagArray cfg) : Prop := ∀ j i, (ta.lines j).getStatus i ≠ .reserved

theorem TagArray.Steady.settled {ta : TagArray cfg} (h : ta.Steady) : ta.Settled := by
  intro j i hi
  rcases (h j).status i with hs | hs
  · exact absurd (hi.symm.trans hs) (by decide)
  · exact absurd (hi.symm.trans hs) (by decide)

/-- A sector miss leaves its sector reserved. -/
theorem TagArray.not_settled_of_sectorMiss {ta tags : TagArray cfg} {idx : ℕ} {i : Fin 4}
    {time : Time}
    (hlines : tags.lines = Function.update ta.lines idx
      { (ta.lines idx).modifySector i CacheBlock.reserveSectorAgain with lastAccessTime := time }) :
    ¬tags.Settled := by
  intro hsettled
  refine hsettled idx i ?_
  rw [hlines, Function.update_self]
  change ((ta.lines idx).modifySector i CacheBlock.reserveSectorAgain).getStatus i = .reserved
  rw [CacheBlock.getStatus, CacheBlock.sectorAt_modifySector_self]
  rfl

namespace TexSystem

variable {sys sys' : TexSystem cfg} {o : TexOp} {b : TexObs}

/-- What a caller of a texture cache with sector lines promises: besides `Promise`, an access reads
inside one sector, and its time compares with the initial value of `valid_timestamp`. -/
def Loads (sys : TexSystem cfg) (o : TexOp) : Prop :=
  sys.Promise o ∧
    match o with
    | .access _ m time _ => m.isWrite = false ∧
        m.accessSectorMask = {CacheConfig.sectorOf m.addr} ∧ time.toNat < 2 ^ 32 - 1
    | _ => True

instance (sys : TexSystem cfg) (o : TexOp) : Decidable (sys.Loads o) := by
  induction o using TexOp.casesOn <;> unfold Loads <;> infer_instance

/-- An access does not find its line without its sector: `probe` does not answer `SECTOR_MISS`. -/
def SectorThere (sys : TexSystem cfg) (o : TexOp) : Prop :=
  match o with
  | .access _ m _ _ => ∀ p, sys.cache.tags.probe (cfg.blockAddr m.addr) Cache.noIndex
      m.accessSectorMask m.isWrite = .ok p → p.status ≠ .sectorMiss
  | _ => True

instance (sys : TexSystem cfg) (o : TexOp) : Decidable (sys.SectorThere o) :=
  match o with
  | .access _ m _ _ =>
      match hprobe : sys.cache.tags.probe (cfg.blockAddr m.addr) Cache.noIndex m.accessSectorMask
          m.isWrite with
      | .ok p => decidable_of_iff (p.status ≠ .sectorMiss)
          ⟨fun hne p' hp' => by rw [hprobe] at hp'; cases hp'; exact hne, fun hall => hall p hprobe⟩
      | .error _ => .isTrue fun p hp => by rw [hprobe] at hp; cases hp
  | .cycle _ | .fill _ _ | .fillChild _ _ _ | .nextAccess | .invalidate => .isTrue trivial

/-- The tags report the status of their probe. -/
theorem probe_of_accessNoWriteback {ta tags : TagArray cfg} {addr : NewAddrType} {time : Time}
    {idx : ℕ} {mf : MemFetch} {r : AccessResult}
    (h : ta.accessNoWriteback addr time idx mf = .ok (tags, r)) :
    ∃ p, ta.probe addr idx mf.accessSectorMask mf.isWrite = .ok p ∧ r.status = p.status := by
  obtain ⟨p, hp, -, hstatus, -⟩ := TagArray.access_eq_ok (TagArray.accessNoWriteback_eq_ok h)
  exact ⟨p, hp, hstatus⟩

/-- **An accepted access leaves no sector reserved exactly when its sector is there**, or its line
is not. -/
theorem settled_access (hon : cfg.allocPolicy = .onMiss) (h : sys.cache.tags.Steady) {n : ℕ}
    {m : MemFetch} {time : Time} {events : List CacheEvent} {status : CacheRequestStatus}
    (htime : time.toNat < 2 ^ 32 - 1)
    (hstep : sys.perform (.access n m time events) = .ok (sys', .access (.caller n) status))
    (haccept : status ≠ .reservationFail) :
    (sys.SectorThere (.access n m time events) ∧ sys'.cache.tags.Steady) ∨
      ¬sys.SectorThere (.access n m time events) ∧ ¬sys'.cache.tags.Settled := by
  obtain ⟨⟨c, status', events'⟩, haccess, hstep⟩ := bind_eq_ok.1 hstep
  cases hstep
  have hm : (sys.build n m).mfs (.caller n) = m := by simp [TexSystem.build]
  -- the answer of the tags decides
  have hthere : ∀ {tags : TagArray cfg} {r : AccessResult},
      sys.cache.tags.accessNoWriteback (cfg.blockAddr m.addr) time Cache.noIndex m =
        .ok (tags, r) → (sys.SectorThere (.access n m time events) ↔ r.status ≠ .sectorMiss) := by
    intro tags r htags
    obtain ⟨p, hp, hstatus⟩ := probe_of_accessNoWriteback htags
    rw [hstatus]
    refine ⟨fun hall => hall p hp, fun hne p' hp' => ?_⟩
    rw [hp] at hp'
    cases hp'
    exact hne
  cases TexCache.accessed_of_access haccess with
  | refused => exact absurd rfl haccept
  | hit _ tags r _ htags hfail _ hmiss _ hothers =>
      rw [hm] at htags
      obtain ⟨htags', -⟩ := hothers
      rw [hthere htags, htags']
      cases h.found hon htags with
      | hit hstatus _ _ hlines =>
          exact Or.inl ⟨by rw [hstatus]; decide, h.hit htime hlines⟩
      | miss hstatus _ => exact absurd hstatus hmiss
      | sectorMiss hstatus _ _ _ hlines =>
          exact Or.inr ⟨fun hne => hne hstatus, TagArray.not_settled_of_sectorMiss hlines⟩
      | noWays hstatus _ => exact absurd hstatus hfail
  | miss _ tags r _ htags hmiss hfill _ _ _ _ _ _ _ =>
      rw [hm] at htags hfill
      rw [hthere htags]
      refine Or.inl ⟨by rw [hmiss]; decide, ?_⟩
      cases h.found hon htags with
      | hit hstatus _ _ _ => exact absurd (hmiss.symm.trans hstatus) (by decide)
      | miss _ hlines => exact h.miss htime (TagArray.Steady.miss_lines hlines hfill rfl)
      | sectorMiss hstatus _ _ _ _ => exact absurd (hmiss.symm.trans hstatus) (by decide)
      | noWays hstatus _ => exact absurd (hmiss.symm.trans hstatus) (by decide)

open Raises in
/-- An access of steady lines is not hit on a reserved sector, and is refused only without ways. -/
theorem access_answer_only (hon : cfg.allocPolicy = .onMiss) (h : sys.cache.tags.Steady) {n : ℕ}
    {m : MemFetch} {time : Time} {events : List CacheEvent} :
    Only (fun e => e ≠ .texAccessHitReserved ∧ (e = .texAccessReservationFail → cfg.assoc = 0))
      (sys.perform (.access n m time events)) := by
  have hP : ∀ e : Abort, e.plain = true →
      e ≠ .texAccessHitReserved ∧ (e = .texAccessReservationFail → cfg.assoc = 0) := by
    intro e he
    refine ⟨?_, ?_⟩
    · rintro rfl
      cases he
    · rintro rfl
      cases he
  refine .bind (TexCache.access_only (P := fun e => e ≠ .texAccessHitReserved ∧
    (e = .texAccessReservationFail → cfg.assoc = 0)) (fun _ => ⟨by simp, by simp⟩) ?_ ?_ events)
      fun _ _ => .ok _
  · exact .bind (TagArray.access_only_of_probe hP
      (TagArray.probe_only hP ⟨by simp, by simp⟩ _ _ _ _ _)
      (fun _ _ => .of ⟨by simp, by simp⟩ _) time) fun _ _ =>
        .bind (assertThat_only fun _ => ⟨by simp, by simp⟩) fun _ _ => .ok _
  · intro tags r htags
    have hsteady : (sys.build n m).tags.Steady := h
    have hfound := hsteady.found hon htags
    exact ⟨fun hs => ⟨by simp, fun _ => hfound.assoc_of_fail hs⟩,
      fun hs => absurd hs hfound.ne_hitReserved, TagArray.fillIndex_only hP _ _ _⟩

/-- A response does not touch the tags. -/
theorem tags_fill {c c' : TexCache cfg} {mf : Token} {time : Time}
    (hfill : c.fill mf time = .ok c') : c'.tags = c.tags := by
  unfold TexCache.fill at hfill
  split at hfill
  · split at hfill
    · cases hfill
    · split at hfill
      · cases hfill
      · dsimp only at hfill
        split at hfill
        · cases hfill
          rfl
        · obtain ⟨e, -, rfl⟩ := TexCache.fillComplete_eq_ok hfill
          rfl
  · obtain ⟨e, -, rfl⟩ := TexCache.fillComplete_eq_ok hfill
    rfl

/-- The tags change in an access and in an invalidation only. -/
theorem tags_step (hstep : sys.perform o = .ok (sys', b)) :
    sys'.cache.tags = sys.cache.tags ∨ (∃ n m time events, o = .access n m time events) ∨
      sys'.cache.tags = sys.cache.tags.invalidate := by
  cases o with
  | access n m time events => exact Or.inr (Or.inl ⟨n, m, time, events, rfl⟩)
  | cycle memportFull =>
      obtain ⟨⟨c, pushed⟩, hcycle, hstep⟩ := bind_eq_ok.1 hstep
      cases hstep
      obtain ⟨⟨c₁, pushed₁⟩, hsend, hcycle⟩ := bind_eq_ok.1 hcycle
      obtain ⟨c₂, hretire, hcycle⟩ := bind_eq_ok.1 hcycle
      cases hcycle
      refine Or.inl ?_
      rw [← (TexCache.sendToMemory_eq_ok hsend).2.1]
      cases TexCache.retired_of_retireFragment hretire with
      | waits => rfl
      | miss _ _ _ _ _ _ _ _ _ _ _ _ hothers => exact hothers.1
      | hit _ _ _ _ _ hothers => exact hothers.1
  | fill mf time =>
      obtain ⟨c, hfill, hstep⟩ := bind_eq_ok.1 hstep
      cases hstep
      exact Or.inl (tags_fill hfill)
  | fillChild n m time =>
      obtain ⟨c, hfill, hstep⟩ := bind_eq_ok.1 hstep
      have htags := tags_fill hfill
      split at hstep
      · cases hstep
      · cases hstep
        exact Or.inl htags
  | nextAccess =>
      obtain ⟨⟨c, mf⟩, hnext, hstep⟩ := bind_eq_ok.1 hstep
      obtain ⟨⟨resultFifo, mf'⟩, -, hnext⟩ := bind_eq_ok.1 hnext
      cases hnext
      cases hstep
      exact Or.inl rfl
  | invalidate =>
      cases hstep
      exact Or.inr (Or.inr rfl)

/-- **A step whose access finds its sector keeps the lines steady.** -/
theorem steady_step (hon : cfg.allocPolicy = .onMiss) (h : sys.cache.tags.Steady)
    (hloads : sys.Loads o) (hthere : sys.SectorThere o)
    (hstep : sys.perform o = .ok (sys', b)) : sys'.cache.tags.Steady := by
  rcases tags_step hstep with htags | ⟨n, m, time, events, rfl⟩ | htags
  · rw [htags]
    exact h
  · obtain ⟨-, -, -, htime⟩ := hloads
    obtain ⟨⟨c, status, events'⟩, haccess, hdone⟩ := bind_eq_ok.1 hstep
    cases hdone
    by_cases hfail : status = .reservationFail
    · subst hfail
      obtain ⟨rfl, -⟩ := TexCache.access_refused haccess
      exact h
    · rcases settled_access hon h htime hstep hfail with ⟨-, hsteady⟩ | ⟨hnot, -⟩
      · exact hsteady
      · exact absurd hthere hnot
  · rw [htags]
    exact h.invalidate

end TexSystem

/-- **A sector texture cache leaves no sector reserved exactly when no access finds its line without
its sector.**  In every run whose accesses find their sector, or not even their line, no sector of
the tags is reserved, and no further access fails because the tags report a reservation fail or a
hit on a reserved sector, if the cache has a way at all; and an accepted access after such a run
leaves a sector reserved when it does find its line without its sector. -/
theorem texture_sectors_settle (hcfg : cfg.Texture) {mfs : Token → MemFetch}
    {trace : List TexObs} {sys : TexSystem cfg}
    (h : TexSystem.Run (fun s o => s.Loads o ∧ s.SectorThere o) (TexSystem.init cfg mfs)
      trace sys) :
    sys.cache.tags.Settled ∧
      (∀ n m time events e, sys.perform (.access n m time events) = .error e →
        e ≠ .texAccessHitReserved ∧ (e = .texAccessReservationFail → cfg.assoc = 0)) ∧
      ∀ n m time events sys' status, sys.Loads (.access n m time events) →
        sys.perform (.access n m time events) = .ok (sys', .access (.caller n) status) →
        status ≠ .reservationFail →
        (sys'.cache.tags.Settled ↔ sys.SectorThere (.access n m time events)) := by
  have hsteady : sys.cache.tags.Steady := by
    refine h.state_invariant (fun s => s.cache.tags.Steady) (TagArray.Steady.init cfg) ?_
    rintro s o s' b hs ⟨hloads, hthere⟩ hstep
    exact TexSystem.steady_step hcfg.allocPolicy hs hloads hthere hstep
  refine ⟨hsteady.settled, fun n m time events e herr => ?_, ?_⟩
  · exact TexSystem.access_answer_only hcfg.allocPolicy hsteady e herr
  · intro n m time events sys' status hloads hstep haccept
    obtain ⟨-, -, -, htime⟩ := hloads
    rcases TexSystem.settled_access hcfg.allocPolicy hsteady htime hstep haccept with
      ⟨hthere, hsettled⟩ | ⟨hnot, hunsettled⟩
    · exact ⟨fun _ => hthere, fun _ => hsettled.settled⟩
    · exact ⟨fun hsettled => absurd hsettled hunsettled, fun hthere => absurd hthere hnot⟩

/-- Two reads of one sector: the second finds it. -/
theorem texture_sectors_settle_read_twice :
    ∃ trace sys, TexSystem.Run (fun s o => s.Loads o ∧ s.SectorThere o)
      (TexSystem.init (CacheConfig.smallTexture 'S' 'm' 'T' 2) fun _ => MemFetch.load 0) trace sys ∧
      trace.filterMap TexObs.accepted = [.caller 0, .caller 1] ∧ sys.cache.tags.Settled := by
  obtain ⟨trace, sys, hrun, haccepted⟩ :
      ∃ trace sys, TexSystem.Run (fun s o => s.Loads o ∧ s.SectorThere o)
        (TexSystem.init (CacheConfig.smallTexture 'S' 'm' 'T' 2) fun _ => MemFetch.load 0)
          trace sys ∧
        trace.filterMap TexObs.accepted = [.caller 0, .caller 1] :=
    Runs.exists_run_of_exec [.access 0 (MemFetch.load 32) 0 [], .access 1 (MemFetch.load 32) 1 []]
      (by decide)
  exact ⟨trace, sys, hrun, haccepted,
    (texture_sectors_settle ⟨by decide, by decide, by decide⟩ hrun).1⟩

/-- After two reads of different sectors of a line, the second sector is reserved, and reading it
again fails. -/
theorem texture_sector_miss_never_filled :
    (CacheConfig.smallTexture 'S' 'm' 'T' 2).Accepted ∧
      (CacheConfig.smallTexture 'S' 'm' 'T' 2).Texture ∧
      (CacheConfig.smallTexture 'S' 'm' 'T' 2).cacheType = .sector ∧
      ∃ trace sys, TexSystem.Run TexSystem.Loads
        (TexSystem.init (CacheConfig.smallTexture 'S' 'm' 'T' 2) fun _ => MemFetch.load 0)
          trace sys ∧
        ¬sys.cache.tags.Settled ∧ sys.Loads (.access 2 (MemFetch.load 32) 2 []) ∧
        sys.perform (.access 2 (MemFetch.load 32) 2 []) = .error .texAccessHitReserved := by
  refine ⟨CacheConfig.smallTexture_accepted (by decide), ⟨by decide, by decide, by decide⟩,
    by decide, ?_⟩
  obtain ⟨trace, sys, hrun, hreserved, hloads, hfail⟩ :
      ∃ trace sys, TexSystem.Run TexSystem.Loads
        (TexSystem.init (CacheConfig.smallTexture 'S' 'm' 'T' 2) fun _ => MemFetch.load 0)
          trace sys ∧
        (sys.cache.tags.lines 1).getStatus 1 = .reserved ∧
        sys.Loads (.access 2 (MemFetch.load 32) 2 []) ∧
        Runs.failure (sys.perform (.access 2 (MemFetch.load 32) 2 [])) =
          some .texAccessHitReserved :=
    Runs.exists_run_of_exec [.access 0 (MemFetch.load 0) 0 [], .access 1 (MemFetch.load 32) 1 []]
      (by decide)
  exact ⟨trace, sys, hrun, fun hsettled => hsettled 1 1 hreserved, hloads,
    Runs.failure_eq_some.1 hfail⟩

end OpenCache
