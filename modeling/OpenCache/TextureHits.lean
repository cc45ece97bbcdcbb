/-
The data of a texture cache.

The tags run ahead of the data: a line has its new tag at once, while the data array gets the block
when the fragment of the miss reaches the head of the fragment FIFO.  In between, the line may be
allocated again, more than once.  The fragments are deferred reads and writes of the data array, and
the tags say what the array will hold when they have all been carried out.

* `OpenCache.FragmentEntry.action` — what a fragment does to the data;
* `OpenCache.TexCache.Consistent` — the fragments are sound, and lead to the tags;
* `OpenCache.TexSystem.Reads` — the promise of a caller that reads at most a line at a time;
* `OpenCache.texture_data_follow_tags` — **a hit finds its block**, a miss finds its entry of the
  reorder buffer, and no call fails on an assertion of the cache.
-/

import OpenCache.DeferredQueue
import OpenCache.TextureTags
import OpenCache.TextureOrder

set_option relaxedAutoImplicit false
set_option autoImplicit false

namespace OpenCache

variable {cfg : CacheConfig}

/-! ### The fragments as deferred actions -/

/-- What a fragment does to the data when it leaves the fragment FIFO: a miss writes its block, and
a hit reads it. -/
def FragmentEntry.action (cfg : CacheConfig) (mfs : Token → MemFetch) (e : FragmentEntry) :
    Deferred.Action ℕ DataBlock :=
  if e.miss then .write e.cacheIndex ⟨true, cfg.blockAddr (mfs e.request).addr⟩
  else .read e.cacheIndex ⟨true, cfg.blockAddr (mfs e.request).addr⟩

namespace TexCache

/-- The actions of the fragments, in the order in which they are carried out. -/
def actions (c : TexCache cfg) : List (Deferred.Action ℕ DataBlock) :=
  c.fragmentFifo.toList.map (FragmentEntry.action cfg c.mfs)

/-- **The tags say what the data will be.** -/
structure Consistent (c : TexCache cfg) : Prop where
  steady : c.tags.Steady
  sound : Deferred.Sound c.cache c.actions
  settled : ∀ j i, (c.tags.lines j).getStatus i = .valid →
    Deferred.settle c.cache c.actions j = ⟨true, (c.tags.lines j).tag⟩

namespace Consistent

variable {c c' : TexCache cfg} {below : List Token}

theorem init (mfs : Token → MemFetch) : Consistent (TexCache.init cfg mfs) where
  steady := TagArray.Steady.init cfg
  sound := trivial
  settled := by
    intro j i hvalid
    change (CacheBlock.init cfg.cacheType).getStatus i = .valid at hvalid
    rw [CacheBlock.getStatus, CacheBlock.sectorAt_init] at hvalid
    cases hvalid

/-- The requests of the fragments determine their actions. -/
theorem actions_congr (hfragments : c'.fragmentFifo.toList = c.fragmentFifo.toList)
    (hmfs : ∀ t ∈ c.fragmentFifo.toList.map FragmentEntry.request,
      (c'.mfs t).addr = (c.mfs t).addr) : c'.actions = c.actions := by
  rw [actions, actions, hfragments]
  refine List.map_congr_left fun e he => ?_
  rw [FragmentEntry.action, FragmentEntry.action, hmfs _ (List.mem_map_of_mem he)]

/-- What does not concern the tags, the fragments and the data does not matter. -/
theorem of_eq (h : c.Consistent) (htags : c'.tags = c.tags) (hcache : c'.cache = c.cache)
    (hactions : c'.actions = c.actions) : c'.Consistent := by
  refine ⟨by rw [htags]; exact h.steady, ?_, ?_⟩
  · rw [hcache, hactions]
    exact h.sound
  · rw [htags, hcache, hactions]
    exact h.settled

/-- A fragment is appended to the actions. -/
theorem actions_append {e : FragmentEntry}
    (hfragments : c'.fragmentFifo.toList = c.fragmentFifo.toList ++ [e])
    (hmfs : ∀ t, (c'.mfs t).addr = (c.mfs t).addr) :
    c'.actions = c.actions ++ [e.action cfg c.mfs] := by
  have haction : ∀ e', FragmentEntry.action cfg c'.mfs e' = FragmentEntry.action cfg c.mfs e' := by
    intro e'
    rw [FragmentEntry.action, FragmentEntry.action, hmfs]
  rw [actions, actions, hfragments, List.map_append, funext haction]
  rfl

/-- A tag that has matched stays, and the fragment reads what the data will be; a tag that is
replaced comes with a fragment that writes the data. -/
theorem access (h : c.Consistent) (hn : cfg.cacheType = .normal) (hon : cfg.allocPolicy = .onMiss)
    {addr : NewAddrType} {mf : Token} {time : Time} {status : CacheRequestStatus}
    (haddr : addr = (c.mfs mf).addr) (htime : time.toNat < 2 ^ 32 - 1)
    (hcase : c.Accessed addr mf time status c') : c'.Consistent := by
  cases hcase with
  | refused => exact h
  | hit _ tags r _ htags hfail _ hmiss hfragments hothers =>
      obtain ⟨htags', -, -, hcache, -, -, hmfs⟩ := hothers
      have hactions := actions_append hfragments fun t => by rw [hmfs]
      have haction : FragmentEntry.action cfg c.mfs ⟨mf, r.idx, false, (c.mfs mf).dataSize⟩ =
          .read r.idx ⟨true, cfg.blockAddr addr⟩ := by
        rw [FragmentEntry.action, if_neg Bool.false_ne_true, haddr]
      rw [haction] at hactions
      cases h.steady.found hon htags with
      | hit _ htag hvalid hlines =>
          rw [CacheConfig.blockAddr_blockAddr] at htag
          have hnow := h.settled _ _ hvalid
          rw [htag] at hnow
          have hset : ∀ j, ((tags.lines j).tag = (c.tags.lines j).tag) ∧
              ∀ i, (tags.lines j).getStatus i = (c.tags.lines j).getStatus i := by
            intro j
            rw [hlines]
            by_cases hj : j = r.idx
            · subst hj
              rw [Function.update_self]
              exact ⟨rfl, fun _ => rfl⟩
            · rw [Function.update_of_ne hj]
              exact ⟨rfl, fun _ => rfl⟩
          refine ⟨by rw [htags']; exact h.steady.hit htime hlines, ?_, ?_⟩
          · rw [hcache, hactions]
            exact Deferred.sound_queue_read h.sound hnow
          · intro j i hj
            rw [htags', (hset j).2] at hj
            rw [hcache, hactions, Deferred.settle_queue_read, htags', (hset j).1]
            exact h.settled j i hj
      | miss hstatus _ => exact absurd hstatus hmiss
      | sectorMiss _ _ hinvalid hlive _ =>
          rw [Bool.eq_false_iff, Ne, CacheBlock.isInvalidLine_iff] at hlive
          refine absurd (fun j => ?_) hlive
          rw [← hinvalid]
          exact congrArg SectorState.status (CacheBlock.sectorAt_of_normal _ hn _ _)
      | noWays hstatus _ => exact absurd hstatus hfail
  | miss _ tags r _ htags hmiss hfill hfragments _ _ _ _ hmfs hothers =>
      obtain ⟨hcache, -⟩ := hothers
      have haddr' : ∀ t, (c'.mfs t).addr = (c.mfs t).addr := by
        intro t
        rw [hmfs]
        by_cases ht : t = mf
        · subst ht
          rw [Function.update_self]
        · rw [Function.update_of_ne ht]
      have hactions := actions_append hfragments haddr'
      have haction : FragmentEntry.action cfg c.mfs ⟨mf, r.idx, true, (c.mfs mf).dataSize⟩ =
          .write r.idx ⟨true, cfg.blockAddr addr⟩ := by
        rw [FragmentEntry.action, if_pos rfl, haddr]
      rw [haction] at hactions
      cases h.steady.found hon htags with
      | hit hstatus _ _ _ => exact absurd (hmiss.symm.trans hstatus) (by decide)
      | miss _ hlines =>
          rw [CacheConfig.blockAddr_blockAddr] at hlines
          have hlines' := TagArray.Steady.miss_lines hlines hfill rfl
          refine ⟨h.steady.miss htime hlines', ?_, ?_⟩
          · rw [hcache, hactions]
            exact Deferred.sound_queue_write h.sound _ _
          · intro j i hj
            rw [hlines'] at hj
            rw [hcache, hactions, Deferred.settle_queue_write, hlines']
            by_cases hidx : j = r.idx
            · subst hidx
              rw [Function.update_self, Function.update_self,
                (CacheBlock.fill_allocate_tenant _ _ _ _ _ _).1]
            · rw [Function.update_of_ne hidx] at hj ⊢
              rw [Function.update_of_ne hidx]
              exact h.settled j i hj
      | sectorMiss hstatus _ _ _ _ => exact absurd (hmiss.symm.trans hstatus) (by decide)
      | noWays hstatus _ => exact absurd (hmiss.symm.trans hstatus) (by decide)

theorem sendToMemory (h : c.Consistent) {memportFull : Bool} {pushed : Option Token}
    (hsend : c.sendToMemory memportFull = .ok (c', pushed)) : c'.Consistent := by
  obtain ⟨-, htags, hfragments, -, hcache, -, -, hmfs⟩ := sendToMemory_eq_ok hsend
  exact h.of_eq htags hcache (actions_congr (by rw [hfragments]) fun t _ => by rw [hmfs])

/-- The action of the fragment that leaves is carried out. -/
theorem retireFragment (h : c.Consistent) (hordered : Ordered c below) (hcase : c.Retired c') :
    c'.Consistent := by
  cases hcase with
  | waits => exact h
  | miss _ e r hmiss _ hrequest hindex hfragments hrob _ _ hcache hothers =>
      obtain ⟨htags, -, -, hmfs⟩ := hothers
      have hblock := hordered.block r (by rw [hrob]; exact List.mem_cons_self)
      rw [hrequest] at hblock
      have hactions : c.actions =
          .write e.cacheIndex ⟨true, cfg.blockAddr (c.mfs e.request).addr⟩ :: c'.actions := by
        rw [actions, actions, hfragments, List.map_cons, hmfs, FragmentEntry.action, if_pos hmiss]
      rw [hindex, hblock] at hcache
      have hsound := h.sound
      have hsettled := h.settled
      rw [hactions] at hsound hsettled
      refine ⟨by rw [htags]; exact h.steady, ?_, ?_⟩
      · rw [hcache]
        exact hsound
      · rw [hcache, htags]
        exact hsettled
  | hit _ e hmiss hfragments _ hothers =>
      obtain ⟨htags, -, -, hcache, -, hmfs⟩ := hothers
      have hactions : c.actions =
          .read e.cacheIndex ⟨true, cfg.blockAddr (c.mfs e.request).addr⟩ :: c'.actions := by
        rw [actions, actions, hfragments, List.map_cons, hmfs, FragmentEntry.action,
          if_neg (by simp [hmiss])]
      have hsound := h.sound
      have hsettled := h.settled
      rw [hactions] at hsound hsettled
      refine ⟨by rw [htags]; exact h.steady, ?_, ?_⟩
      · rw [hcache]
        exact hsound.2
      · rw [hcache, htags]
        exact hsettled

/-- **The fragment at the head finds what it was queued for**: the data of a hit are its block. -/
theorem head_hit (h : c.Consistent) {e : FragmentEntry} {l : List FragmentEntry}
    (hfragments : c.fragmentFifo.toList = e :: l) (hmiss : e.miss = false) :
    c.cache e.cacheIndex = ⟨true, cfg.blockAddr (c.mfs e.request).addr⟩ := by
  have hsound := h.sound
  rw [actions, hfragments, List.map_cons, FragmentEntry.action, if_neg (by simp [hmiss])] at hsound
  exact hsound.1

/-- Without fragments the tags and the data can be invalidated. -/
theorem invalidate (h : c.Consistent) (hempty : c.fragmentFifo.toList = []) :
    c.invalidate.Consistent := by
  have hactions : c.invalidate.actions = [] := by
    change c.fragmentFifo.toList.map _ = []
    rw [hempty, List.map_nil]
  refine ⟨h.steady.invalidate, by rw [hactions]; trivial, ?_⟩
  intro j i hvalid
  rw [hactions, Deferred.settle_nil]
  change (if j < cfg.getNumLines then TagArray.invalidateLine (c.tags.lines j)
    else c.tags.lines j).getStatus i = .valid at hvalid
  change (if j < cfg.getNumLines then (⟨false, 0⟩ : DataBlock) else c.cache j) =
    ⟨true, (if j < cfg.getNumLines then TagArray.invalidateLine (c.tags.lines j)
      else c.tags.lines j).tag⟩
  split at hvalid
  · rw [TagArray.getStatus_invalidateLine] at hvalid
    cases hvalid
  · next hj =>
      rw [if_neg hj, if_neg hj]
      have hold := h.settled j i hvalid
      rw [actions, hempty, List.map_nil, Deferred.settle_nil] at hold
      exact hold

end Consistent

end TexCache

/-! ### Runs -/

namespace TexSystem

open Raises

variable {sys sys' : TexSystem cfg} {o : TexOp} {b : TexObs}

/-- What a caller of a texture cache promises: besides `Promise`, an access asks for at most a line,
its time compares with the initial value of `valid_timestamp`, and the cache is invalidated only
when no fragment is in flight. -/
def Reads (sys : TexSystem cfg) (o : TexOp) : Prop :=
  sys.Promise o ∧
    match o with
    | .access _ m time _ => m.isWrite = false ∧ m.dataSize ≤ cfg.lineSz ∧ time.toNat < 2 ^ 32 - 1
    | .invalidate => sys.cache.fragmentFifo.isEmpty = true
    | _ => True

instance (sys : TexSystem cfg) (o : TexOp) : Decidable (sys.Reads o) := by
  induction o using TexOp.casesOn <;> unfold Reads <;> infer_instance

/-- An object that is not in flight can be built. -/
theorem consistent_build (h : sys.cache.Consistent) {n : ℕ} (hnew : .caller n ∉ sys.inFlight)
    (m : MemFetch) : (sys.build n m).Consistent := by
  refine h.of_eq rfl rfl (TexCache.Consistent.actions_congr rfl fun t ht => ?_)
  have hne : t ≠ .caller n := fun heq => hnew (heq ▸ List.mem_append_right _ ht)
  change (Function.update sys.cache.mfs (.caller n) m t).addr = _
  rw [Function.update_of_ne hne]

/-- A response changes neither the tags nor the data nor the fragments. -/
theorem consistent_fill {c c' : TexCache cfg} (h : c.Consistent) {mf : Token} {time : Time}
    (hfill : c.fill mf time = .ok c') : c'.Consistent := by
  unfold TexCache.fill at hfill
  split at hfill
  · split at hfill
    · cases hfill
    · split at hfill
      · cases hfill
      · dsimp only at hfill
        split at hfill
        · cases hfill
          exact h.of_eq rfl rfl rfl
        · obtain ⟨e, -, rfl⟩ := TexCache.fillComplete_eq_ok hfill
          exact h.of_eq rfl rfl rfl
  · obtain ⟨e, -, rfl⟩ := TexCache.fillComplete_eq_ok hfill
    exact h.of_eq rfl rfl rfl

/-- **No step breaks the agreement of the tags and the data.** -/
theorem consistent_step (hn : cfg.cacheType = .normal) (hon : cfg.allocPolicy = .onMiss)
    (h : sys.cache.Consistent) (hordered : sys.Ordered) (hreads : sys.Reads o)
    (hstep : sys.perform o = .ok (sys', b)) : sys'.cache.Consistent := by
  cases o with
  | access n m time events =>
      obtain ⟨hnew, -, -, htime⟩ := hreads
      obtain ⟨⟨c, status, events'⟩, haccess, hstep⟩ := bind_eq_ok.1 hstep
      cases hstep
      have hm : (sys.build n m).mfs (.caller n) = m := by simp [TexSystem.build]
      exact (consistent_build h hnew m).access hn hon (by rw [hm]) htime
        (TexCache.accessed_of_access haccess)
  | cycle memportFull =>
      obtain ⟨⟨c, pushed⟩, hcycle, hstep⟩ := bind_eq_ok.1 hstep
      cases hstep
      obtain ⟨⟨c₁, pushed₁⟩, hsend, hcycle⟩ := bind_eq_ok.1 hcycle
      obtain ⟨c₂, hretire, hcycle⟩ := bind_eq_ok.1 hcycle
      cases hcycle
      exact (h.sendToMemory hsend).retireFragment
        (TexCache.Ordered.sendToMemory hordered hsend) (TexCache.retired_of_retireFragment hretire)
  | fill mf time =>
      obtain ⟨c, hfill, hstep⟩ := bind_eq_ok.1 hstep
      cases hstep
      exact consistent_fill h hfill
  | fillChild n m time =>
      obtain ⟨c, hfill, hstep⟩ := bind_eq_ok.1 hstep
      obtain ⟨⟨-, hnew, -⟩, -⟩ := hreads
      have hfilled := consistent_fill (consistent_build h hnew m) hfill
      split at hstep
      · cases hstep
      · cases hstep
        exact hfilled
  | nextAccess =>
      obtain ⟨⟨c, mf⟩, hnext, hstep⟩ := bind_eq_ok.1 hstep
      obtain ⟨⟨resultFifo, mf'⟩, -, hnext⟩ := bind_eq_ok.1 hnext
      cases hnext
      cases hstep
      exact h.of_eq rfl rfl rfl
  | invalidate =>
      cases hstep
      have hempty : sys.cache.fragmentFifo.isEmpty = true := hreads.2
      rw [RingBuffer.isEmpty, decide_eq_true_eq, ← RingBuffer.toList_eq_nil] at hempty
      exact h.invalidate hempty

/-- What every run keeps. -/
theorem consistent_of_run (hn : cfg.cacheType = .normal) (hon : cfg.allocPolicy = .onMiss)
    {mfs : Token → MemFetch} {trace : List TexObs} (h : Run Reads (init cfg mfs) trace sys) :
    sys.Ordered ∧ sys.cache.Consistent := by
  refine h.state_invariant (fun s => s.Ordered ∧ s.cache.Consistent)
    ⟨TexCache.Ordered.init mfs, TexCache.Consistent.init mfs⟩ ?_
  rintro s o s' b ⟨hordered, hconsistent⟩ hreads hstep
  exact ⟨hordered.step hreads.1 hstep, consistent_step hn hon hconsistent hordered hreads hstep⟩

/-- **A call fails only on the set index.** -/
theorem perform_only (hn : cfg.cacheType = .normal) (hon : cfg.allocPolicy = .onMiss)
    (hassoc : 0 < cfg.assoc) (h : sys.cache.Consistent) (hordered : sys.Ordered)
    (hreads : sys.Reads o) :
    Only (fun e => e = .fermiNset ∨ e = .setIndexOutOfBounds) (sys.perform o) := by
  refine hordered.perform_only_of hreads.1 ?_ fun e he hmiss => ?_
  · rintro n m time events rfl
    obtain ⟨hnew, -, hsize, -⟩ := hreads
    have hm : (sys.build n m).mfs (.caller n) = m := by simp [TexSystem.build]
    have hbuilt := consistent_build h hnew m
    refine TexCache.access_only (P := fun e => e = .fermiNset ∨ e = .setIndexOutOfBounds)
      ?_ ?_ ?_ events
    · rw [hm]
      exact fun hlt => absurd hsize (not_le.2 hlt)
    · exact hbuilt.steady.access_only hon hn ⟨Or.inl rfl, Or.inr rfl⟩
    · intro tags r htags
      have hfound := hbuilt.steady.found hon htags
      refine ⟨fun hs => ?_, fun hs => absurd hs hfound.ne_hitReserved, ?_⟩
      · exact absurd (hfound.assoc_of_fail hs) hassoc.ne'
      · refine .bind (assertThat_only fun hne => absurd hon hne) fun _ _ =>
          .bind ?_ fun _ _ => .ok _
        rw [CacheConfig.getSectorIndex, hn]
        exact .ok _
  · obtain ⟨l, hl⟩ := List.head?_eq_some_iff.1 he
    rw [h.head_hit hl hmiss]
    exact ⟨fun hf => absurd hf (by simp), fun hne => absurd rfl hne⟩

end TexSystem

/-- **The data follow the tags.**  When the fragment of a hit reaches the head of the fragment
FIFO, the data block at its index is valid and is the block of its request, however often the line
has been allocated again since; when the fragment of a miss does, the oldest entry of the reorder
buffer belongs to its request, its line and its block.  A cache with at least one way fails at most
on the set index. -/
theorem texture_data_follow_tags (hcfg : cfg.Texture) (hn : cfg.cacheType = .normal)
    {mfs : Token → MemFetch} {trace : List TexObs} {sys : TexSystem cfg}
    (h : TexSystem.Run TexSystem.Reads (TexSystem.init cfg mfs) trace sys) :
    (∀ e l, sys.cache.fragmentFifo.toList = e :: l → e.miss = false →
      sys.cache.cache e.cacheIndex = ⟨true, cfg.blockAddr (sys.cache.mfs e.request).addr⟩) ∧
    (∀ e l, sys.cache.fragmentFifo.toList = e :: l → e.miss = true →
      ∃ r rest, sys.cache.rob.toList = r :: rest ∧ r.request = e.request ∧
        r.index = e.cacheIndex ∧ r.blockAddr = cfg.blockAddr (sys.cache.mfs e.request).addr) ∧
    (0 < cfg.assoc → ∀ o e, sys.Reads o → sys.perform o = .error e →
      e = .fermiNset ∨ e = .setIndexOutOfBounds) := by
  obtain ⟨hordered, hconsistent⟩ := TexSystem.consistent_of_run hn hcfg.allocPolicy h
  refine ⟨fun e l hl hmiss => hconsistent.head_hit hl hmiss, fun e l hl hmiss => ?_,
    fun hassoc o e hreads herr => ?_⟩
  · obtain ⟨r, rest, hrob, hrequest, hindex⟩ := TexCache.Ordered.rob_of_miss hordered hl hmiss
    have hblock := hordered.block r (by rw [hrob]; exact List.mem_cons_self)
    rw [hrequest] at hblock
    exact ⟨r, rest, hrob, hrequest, hindex, hblock⟩
  · exact TexSystem.perform_only hn hcfg.allocPolicy hassoc hconsistent hordered hreads e herr

/-- A hit waits in the fragment FIFO while the line it has found is allocated to another block. -/
theorem texture_data_follow_tags_line_allocated_again :
    ∃ trace sys, TexSystem.Run TexSystem.Reads
      (TexSystem.init (CacheConfig.smallTexture 'N' 'm' 'F' 1) fun _ => MemFetch.load 0) trace sys ∧
      (sys.cache.tags.lines 0).tag = 128 ∧
      (∀ e l, sys.cache.fragmentFifo.toList = e :: l → e.miss = false →
        sys.cache.cache e.cacheIndex = ⟨true, (CacheConfig.smallTexture 'N' 'm' 'F' 1).blockAddr
          (sys.cache.mfs e.request).addr⟩) ∧
      sys.cache.cache 0 = ⟨true, 0⟩ ∧
      (sys.cache.fragmentFifo.toList.head?.map FragmentEntry.request) = some (.caller 1) := by
  obtain ⟨trace, sys, hrun, htag, hcache, hhead⟩ :
      ∃ trace sys, TexSystem.Run TexSystem.Reads
        (TexSystem.init (CacheConfig.smallTexture 'N' 'm' 'F' 1) fun _ => MemFetch.load 0)
          trace sys ∧
        (sys.cache.tags.lines 0).tag = 128 ∧ sys.cache.cache 0 = ⟨true, 0⟩ ∧
        (sys.cache.fragmentFifo.toList.head?.map FragmentEntry.request) = some (.caller 1) :=
    Runs.exists_run_of_exec [.access 0 (MemFetch.load 0) 0 [], .access 1 (MemFetch.load 32) 1 [],
      .access 2 (MemFetch.load 128) 2 [], .cycle false, .cycle false, .fill (.caller 2) 3,
      .fill (.caller 0) 4, .cycle false] (by decide)
  exact ⟨trace, sys, hrun, htag,
    (texture_data_follow_tags ⟨by decide, by decide, by decide⟩ (by decide) hrun).1, hcache, hhead⟩

/-- Without ways the first access fails, and so does an access for more than a line. -/
theorem texture_access_can_fail :
    ((CacheConfig.smallTexture 'N' 'm' 'F' 0).Accepted ∧
      (CacheConfig.smallTexture 'N' 'm' 'F' 0).Texture ∧
      (TexSystem.init (CacheConfig.smallTexture 'N' 'm' 'F' 0) fun _ => MemFetch.load 0).Reads
        (.access 0 (MemFetch.load 0) 0 []) ∧
      (TexSystem.init (CacheConfig.smallTexture 'N' 'm' 'F' 0) fun _ => MemFetch.load 0).perform
        (.access 0 (MemFetch.load 0) 0 []) = .error .texAccessReservationFail) ∧
    (CacheConfig.smallTexture 'N' 'm' 'F' 1).Accepted ∧
      (CacheConfig.smallTexture 'N' 'm' 'F' 1).Texture ∧
      (TexSystem.init (CacheConfig.smallTexture 'N' 'm' 'F' 1) fun _ => MemFetch.load 0).perform
        (.access 0 { MemFetch.load 0 with dataSize := 256 } 0 []) = .error .texAccessDataSize :=
  ⟨⟨CacheConfig.smallTexture_accepted (by decide), ⟨by decide, by decide, by decide⟩, by decide,
      rfl⟩,
    CacheConfig.smallTexture_accepted (by decide), ⟨by decide, by decide, by decide⟩, rfl⟩

end OpenCache
