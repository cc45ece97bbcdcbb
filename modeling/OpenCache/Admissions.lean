/-
The misses that get in.

An access that misses is accepted when the miss queue has room for all that its handler may put
there, and the MSHR table for the fetch.  In a cache with no MSHR entry and an empty miss queue,
what is left to ask for is a matter of the configuration: the sizes of the queue, of the table
and of its entries.

* `OpenCache.RoomFor` — what the configuration has to provide for a miss;
* `OpenCache.Cache.Idle` — no MSHR entry, and an empty miss queue;
* `OpenCache.AccessCase.roomFor` — an accepted miss has had its room;
* `OpenCache.Cache.access_yields` — **a miss that has its room is accepted**, and fails on no
  assertion.
-/

import OpenCache.System
import OpenCache.Raises

set_option relaxedAutoImplicit false
set_option autoImplicit false

namespace OpenCache

open Raises

variable {cfg : CacheConfig}

/-- What a configuration provides for a fetch: an MSHR entry, and room in it for one request. -/
def RoomForFetch (cfg : CacheConfig) : Prop := 0 < cfg.mshrEntries ∧ 0 < cfg.mshrMaxMerge

instance (cfg : CacheConfig) : Decidable (RoomForFetch cfg) := by
  unfold RoomForFetch
  infer_instance

/-- What a configuration has to provide for a request that misses.  The handlers look for more slots
of the miss queue than the requests they send: `miss_queue_full(n)` leaves one slot unused. -/
def RoomFor (cfg : CacheConfig) (m : MemFetch) : Prop :=
  if m.isWrite then
    match cfg.writeAllocPolicy with
    | .noWriteAllocate | .lazyFetchOnRead => 0 < cfg.missQueueSize
    | .writeAllocate => 2 < cfg.missQueueSize ∧ RoomForFetch cfg
    | .fetchOnWrite =>
        if m.accessByteMask.card = cfg.atomSz then 0 < cfg.missQueueSize
        else 1 < cfg.missQueueSize ∧ RoomForFetch cfg
  else 1 < cfg.missQueueSize ∧ RoomForFetch cfg

instance (cfg : CacheConfig) (m : MemFetch) : Decidable (RoomFor cfg m) := by
  unfold RoomFor
  split
  · split <;> infer_instance
  · infer_instance

/-- No fetch is under way, and nothing waits to be sent. -/
structure Cache.Idle (c : Cache cfg) : Prop where
  entries : c.mshrs.data.entries = []
  missQueue : c.missQueue = []

theorem Cache.Idle.missQueueFull_iff {c : Cache cfg} (h : c.Idle) (numMiss : ℕ) :
    c.missQueueFull numMiss = true ↔ cfg.missQueueSize ≤ numMiss := by
  rw [missQueueFull, h.missQueue, decide_eq_true_eq, List.length_nil, Nat.zero_add]

/-! ### A table without entries -/

namespace MshrTable

variable {numEntries maxMerged : ℕ} {t : MshrTable numEntries maxMerged}
  (h : t.data.entries = [])

include h

theorem lookup_of_empty (a : NewAddrType) : t.data.lookup a = none := by
  rw [show t.data = ∅ from AList.ext h]
  exact AList.lookup_empty a

theorem probe_of_empty (a : NewAddrType) : t.probe a = false := by
  rw [probe, lookup_of_empty h]
  rfl

theorem full_of_empty (hentries : 0 < numEntries) (a : NewAddrType) : t.full a = false := by
  rw [full, lookup_of_empty h, h]
  exact decide_eq_false (Nat.not_le.2 hentries)

/-- It takes a request, if it can take one at all. -/
theorem add_yields (hentries : 0 < numEntries) (hmerged : 0 < maxMerged) (a : NewAddrType)
    (mf : Token) : Yields (fun _ => True) (t.add a mf) := by
  unfold add
  rw [show t.data = ∅ from AList.ext h]
  refine .bind ⟨(), assertThat_of _ ?_, trivial⟩ fun _ (_ : True) =>
    .bind ⟨(), assertThat_of _ ?_, trivial⟩ fun _ (_ : True) => .ok trivial
  · simpa using Nat.succ_le_of_lt hentries
  · simpa using Nat.succ_le_of_lt hmerged

end MshrTable

/-! ### What an accepted miss has had -/

/-- An access to the tags that misses takes its victim. -/
theorem TagArray.access_yields {ta : TagArray cfg} {addr : NewAddrType} {idx : ℕ} {mf : MemFetch}
    {p : ProbeResult} {i : Fin 4} (hp : ta.probe addr idx mf.accessSectorMask mf.isWrite = .ok p)
    (hmiss : p.status = .miss) (hi : cfg.getSectorIndex mf.accessSectorMask = .ok i) (time : Time) :
    Yields (fun r => r.2.status = .miss) (ta.access addr time idx mf) := by
  have hprobe : ({ ta with accesses := ta.accesses + 1, isUsed := true } : TagArray cfg).probe addr
      idx mf.accessSectorMask mf.isWrite = .ok p := by
    refine Eq.trans (probe_congr ?_ ?_ _ _ _ _) hp <;> rfl
  unfold access
  dsimp only
  rw [hprobe]
  refine .bind ⟨p, rfl, rfl⟩ ?_
  rintro _ rfl
  rw [hmiss]
  dsimp only
  by_cases hon : cfg.allocPolicy = .onMiss
  · rw [if_pos hon, hi]
    refine .bind ⟨i, rfl, trivial⟩ fun _ (_ : True) => ?_
    split
    · exact .ok rfl
    · exact .ok rfl
  · rw [if_neg hon]
    exact .ok rfl

namespace Cache

variable {c : Cache cfg} {addr : NewAddrType} {mf : Token} {p : ProbeResult} {i : Fin 4}

theorem markModified_yields {m : MemFetch} (hi : cfg.getSectorIndex m.accessSectorMask = .ok i)
    (c : Cache cfg) (idx : ℕ) : Yields (fun _ => True) (c.markModified m idx) := by
  unfold markModified
  rw [hi]
  exact .ok trivial

theorem updateMReadable_yields {m : MemFetch} (hi : cfg.getSectorIndex m.accessSectorMask = .ok i)
    (c : Cache cfg) (idx : ℕ) : Yields (fun _ => True) (c.updateMReadable m idx) := by
  unfold updateMReadable
  induction List.finRange 4 generalizing c with
  | nil => exact .ok trivial
  | cons j rest ih =>
      rw [List.foldlM_cons]
      refine .bind (Q := fun _ => True) ?_ fun c' _ => ih c'
      unfold updateMReadableSector
      rw [hi]
      split
      · exact .ok trivial
      · exact .ok trivial

/-- **The read miss handler sends the fetch** when no other is under way. -/
theorem sendReadRequest_yields (hentries : c.mshrs.data.entries = []) (hroom : RoomForFetch cfg)
    (hqueue : c.missQueue.length < cfg.missQueueSize) {idx : ℕ}
    (hp : c.tagArray.probe (cfg.blockAddr addr) idx (c.mfs mf).accessSectorMask
      (c.mfs mf).isWrite = .ok p) (hmiss : p.status = .miss)
    (hi : cfg.getSectorIndex (c.mfs mf).accessSectorMask = .ok i) (time : Time)
    (events : List CacheEvent) (wa : Bool) :
    Yields (fun r => r.2.doMiss = true)
      (c.sendReadRequest (cfg.blockAddr addr) idx mf time events false wa) := by
  have hprobe := MshrTable.probe_of_empty hentries (cfg.mshrAddr (c.mfs mf).addr)
  have hfull := MshrTable.full_of_empty hentries hroom.1 (cfg.mshrAddr (c.mfs mf).addr)
  have haccept : Yields (fun _ => True) (c.acceptMiss (cfg.blockAddr addr)
      (cfg.mshrAddr (c.mfs mf).addr) idx mf time false) :=
    .bind (TagArray.access_yields hp hmiss hi time) fun _ _ =>
      .bind (MshrTable.add_yields hentries hroom.1 hroom.2 _ _) fun _ _ => .ok trivial
  unfold sendReadRequest
  dsimp only
  rw [hprobe, hfull, if_neg (by simp), if_pos (by simpa using hqueue)]
  exact .bind haccept fun _ _ => .ok rfl

section Handlers

variable (hidle : c.Idle) (hp : c.Probes addr (c.mfs mf) p) (hmiss : p.status = .miss)
  (hi : cfg.getSectorIndex (c.mfs mf).accessSectorMask = .ok i)

include hidle hp hmiss hi

theorem rdMissBase_yields (types : DataCacheTypes) (hroom : 1 < cfg.missQueueSize)
    (hfetch : RoomForFetch cfg) (idx : ℕ) (time : Time) (events : List CacheEvent) :
    Yields (fun r => r.2.1 = .miss) (c.rdMissBase types addr idx mf time events) := by
  have hqueue : ¬c.missQueueFull 1 = true := by
    rw [hidle.missQueueFull_iff]
    omega
  have hprobe := TagArray.probe_idx hp (by simp [hmiss]) idx
  unfold rdMissBase
  rw [if_neg hqueue]
  refine .bind (sendReadRequest_yields hidle.entries hfetch ?_ hprobe hmiss hi time events false)
    fun r hr => ?_
  · rw [hidle.missQueue]
    exact Nat.zero_lt_one.trans hroom
  · obtain ⟨c₁, r⟩ := r
    dsimp only
    rw [if_pos hr]
    exact .ok rfl

omit hp hmiss hi in
theorem wrMissNoWa_yields (hroom : 0 < cfg.missQueueSize) (events : List CacheEvent) :
    Yields (fun r => r.2.1 = .miss) (c.wrMissNoWa mf events) := by
  have hqueue : ¬c.missQueueFull 0 = true := by
    rw [hidle.missQueueFull_iff]
    omega
  unfold wrMissNoWa
  rw [if_neg hqueue]
  exact .ok rfl

omit hp hmiss hi in
theorem fetchRefused_of_idle (hfetch : RoomForFetch cfg) {numMiss : ℕ}
    (hroom : numMiss < cfg.missQueueSize) (a : NewAddrType) : c.fetchRefused numMiss a = false := by
  have hqueue : c.missQueueFull numMiss = false := by
    rw [← Bool.not_eq_true, hidle.missQueueFull_iff]
    omega
  have hslot : c.missQueue.length < cfg.missQueueSize := by
    rw [hidle.missQueue]
    exact Nat.zero_lt_of_lt hroom
  simp [fetchRefused, hqueue, hslot, MshrTable.probe_of_empty hidle.entries,
    MshrTable.full_of_empty hidle.entries hfetch.1]

variable (hwrite : (c.mfs mf).isWrite = true)

include hwrite

/-- The read miss handler, for a read that a write has allocated. -/
theorem sendAllocated_yields (hfetch : RoomForFetch cfg) {c' : Cache cfg} {n : Token}
    (hta : c'.tagArray = c.tagArray) (hmshrs : c'.mshrs = c.mshrs)
    (hread : (c'.mfs n).isWrite = false)
    (hmask : (c'.mfs n).accessSectorMask = (c.mfs mf).accessSectorMask)
    (hqueue : c'.missQueue.length < cfg.missQueueSize) (idx : ℕ) (time : Time)
    (events : List CacheEvent) :
    Yields (fun r => r.2.doMiss = true)
      (c'.sendReadRequest (cfg.blockAddr addr) idx n time events false true) := by
  rw [Probes, hwrite] at hp
  have hprobe : c.tagArray.probe (cfg.blockAddr addr) idx (c.mfs mf).accessSectorMask false =
      .ok p :=
    TagArray.probe_idx (TagArray.probe_read_of_write hp (by simp [hmiss])) (by simp [hmiss]) idx
  rw [← hta, ← hmask, ← hread] at hprobe
  exact sendReadRequest_yields (by rw [hmshrs]; exact hidle.entries) hfetch hqueue hprobe hmiss
    (by rw [hmask]; exact hi) time events true

theorem wrMissWaNaive_yields (types : DataCacheTypes) (hroom : 2 < cfg.missQueueSize)
    (hfetch : RoomForFetch cfg) (idx : ℕ) (time : Time) (events : List CacheEvent) :
    Yields (fun r => r.2.1 = .miss) (c.wrMissWaNaive types addr idx mf time events .miss) := by
  have hgo := fetchRefused_of_idle hidle hfetch hroom (cfg.mshrAddr (c.mfs mf).addr)
  refine .ite_neg (by rw [hgo]; simp) (.bind (Q := fun r => r.2.doMiss = true) ?_ fun r hr => ?_)
  · refine sendAllocated_yields hidle hp hmiss hi hwrite hfetch ?_ ?_ ?_ ?_ ?_ idx time _
    · rfl
    · rfl
    · simp [MemFetch.new]
    · simp [MemFetch.new, MemFetch.memAccessSectorMask_self]
    · change (c.missQueue ++ [mf]).length < cfg.missQueueSize
      rw [hidle.missQueue]
      exact Nat.lt_of_succ_lt hroom
  · obtain ⟨c₁, r⟩ := r
    dsimp only
    rw [if_pos hr]
    exact .bind ⟨(), assertThat_of _ fun _ _ => rfl, trivial⟩ fun _ (_ : True) => .ok rfl

theorem wrMissWaFetchOnWritePartial_yields (types : DataCacheTypes)
    (hroom : 1 < cfg.missQueueSize) (hfetch : RoomForFetch cfg) (idx : ℕ) (time : Time)
    (events : List CacheEvent) :
    Yields (fun r => r.2.1 = .miss)
      (c.wrMissWaFetchOnWritePartial types addr idx mf time events) := by
  have hgo := fetchRefused_of_idle hidle hfetch hroom (cfg.mshrAddr (c.mfs mf).addr)
  have hprobe := MshrTable.probe_of_empty hidle.entries (cfg.mshrAddr (c.mfs mf).addr)
  refine .ite_neg (by rw [hgo]; simp) (.ite_neg (by rw [hprobe]; simp)
    (.bind (Q := fun r => r.2.doMiss = true) ?_ fun r hr => ?_))
  · refine sendAllocated_yields hidle hp hmiss hi hwrite hfetch ?_ ?_ ?_ ?_ ?_ idx time _
    · rfl
    · rfl
    · simp [MemFetch.new]
    · simp [MemFetch.new, MemFetch.memAccessSectorMask_self]
    · change c.missQueue.length < cfg.missQueueSize
      rw [hidle.missQueue]
      exact Nat.zero_lt_of_lt hroom
  · obtain ⟨c₁, r⟩ := r
    rw [hi]
    refine .bind ⟨i, rfl, trivial⟩ fun _ (_ : True) => ?_
    dsimp only
    rw [if_pos hr]
    exact .ok rfl

omit hwrite in
theorem wrMissWaFetchOnWriteFull_yields (types : DataCacheTypes) (hroom : 0 < cfg.missQueueSize)
    (idx : ℕ) (time : Time) (events : List CacheEvent) :
    Yields (fun r => r.2.1 = .miss) (c.wrMissWaFetchOnWriteFull types addr idx mf time events) := by
  have hqueue : ¬c.missQueueFull 0 = true := by
    rw [hidle.missQueueFull_iff]
    omega
  have hprobe := TagArray.probe_idx hp (by simp [hmiss]) idx
  unfold wrMissWaFetchOnWriteFull
  rw [if_neg hqueue]
  refine .bind (TagArray.access_yields hprobe hmiss hi time) fun r hr => ?_
  obtain ⟨ta, r⟩ := r
  have hr : r.status = .miss := hr
  refine .bind ⟨(), assertThat_of _ (by simp [hr]), trivial⟩ fun _ (_ : True) =>
    .bind (markModified_yields hi _ _) fun c₁ _ => ?_
  rw [ignoreOnFillIfReserved, hr, if_neg (by simp)]
  exact .ok rfl

omit hwrite in
theorem wrMissWaLazyFetchOnRead_yields (types : DataCacheTypes) (hroom : 0 < cfg.missQueueSize)
    (idx : ℕ) (time : Time) (events : List CacheEvent) :
    Yields (fun r => r.2.1 = .miss) (c.wrMissWaLazyFetchOnRead types addr idx mf time events) := by
  have hqueue : ¬c.missQueueFull 0 = true := by
    rw [hidle.missQueueFull_iff]
    omega
  have hprobe := TagArray.probe_idx hp (by simp [hmiss]) idx
  unfold wrMissWaLazyFetchOnRead
  refine .ite_neg hqueue ?_
  split
  next c₁ events₁ hc₁ =>
  have hta : c₁.tagArray = c.tagArray := by
    split at hc₁ <;> cases hc₁ <;> rfl
  rw [hta]
  refine .bind (TagArray.access_yields hprobe hmiss hi time) fun r hr => ?_
  obtain ⟨ta, r⟩ := r
  have hr : r.status = .miss := hr
  refine .bind ⟨(), assertThat_of _ (by simp [hr]), trivial⟩ fun _ (_ : True) =>
    .bind (markModified_yields hi _ _) fun c₂ _ => ?_
  rw [hi, hr]
  refine .bind ⟨i, rfl, trivial⟩ fun _ (_ : True) =>
    .bind (updateMReadable_yields hi _ _) fun c₃ _ => ?_
  exact .ok rfl

/-- A write that misses is taken by the handler of its policy. -/
theorem wrMiss_yields (types : DataCacheTypes) (hroom : RoomFor cfg (c.mfs mf)) (idx : ℕ)
    (time : Time) (events : List CacheEvent) :
    Yields (fun r => r.2.1 = .miss) (c.wrMiss types addr idx mf time events .miss) := by
  rw [RoomFor, if_pos hwrite] at hroom
  unfold wrMiss
  cases hpolicy : cfg.writeAllocPolicy with
  | noWriteAllocate =>
      rw [hpolicy] at hroom
      exact wrMissNoWa_yields hidle hroom events
  | writeAllocate =>
      rw [hpolicy] at hroom
      exact wrMissWaNaive_yields hidle hp hmiss hi hwrite types hroom.1 hroom.2 idx time events
  | fetchOnWrite =>
      rw [hpolicy] at hroom
      dsimp only at hroom ⊢
      unfold wrMissWaFetchOnWrite
      by_cases hfull : (c.mfs mf).accessByteMask.card = cfg.atomSz
      · rw [if_pos hfull] at hroom ⊢
        exact wrMissWaFetchOnWriteFull_yields hidle hp hmiss hi types hroom idx time events
      · rw [if_neg hfull] at hroom ⊢
        exact wrMissWaFetchOnWritePartial_yields hidle hp hmiss hi hwrite types hroom.1 hroom.2 idx
          time events
  | lazyFetchOnRead =>
      rw [hpolicy] at hroom
      exact wrMissWaLazyFetchOnRead_yields hidle hp hmiss hi types hroom idx time events

end Handlers

/-- The tags' answer goes to a handler that takes it. -/
theorem processTagProbe_yields (hidle : c.Idle) (hp : c.Probes addr (c.mfs mf) p)
    (hmiss : p.status = .miss) (hi : cfg.getSectorIndex (c.mfs mf).accessSectorMask = .ok i)
    (types : DataCacheTypes) (hroom : RoomFor cfg (c.mfs mf)) (time : Time)
    (events : List CacheEvent) :
    Yields (fun r => r.2.1 = .miss)
      (c.processTagProbe types (c.mfs mf).isWrite .miss addr p.idx mf time events) := by
  have hhandler : Yields (fun r => r.2.1 = .miss)
      (c.callHandler types (c.mfs mf).isWrite .miss addr p.idx mf time events) := by
    unfold callHandler
    by_cases hwrite : (c.mfs mf).isWrite = true
    · rw [if_pos hwrite, if_neg (by simp), if_pos (by simp)]
      exact wrMiss_yields hidle hp hmiss hi hwrite types hroom p.idx time events
    · rw [RoomFor, if_neg hwrite] at hroom
      rw [if_neg hwrite, if_neg (by simp), if_pos (by simp)]
      exact rdMissBase_yields hidle hp hmiss hi types hroom.1 hroom.2 p.idx time events
  unfold processTagProbe
  dsimp only
  rw [if_neg (by simp)]
  refine .bind hhandler fun r hr => ?_
  obtain ⟨c₁, status, events₁⟩ := r
  obtain rfl : status = .miss := hr
  have hport : ∀ c₂ : Cache cfg, ∀ m, Yields (fun _ => True) (c₂.useDataPort m .miss events₁) := by
    intro c₂ m
    unfold useDataPort
    dsimp only
    split
    · exact .ok trivial
    · exact .ok trivial
  exact .bind (hport _ _) fun _ _ => .ok rfl

/-- **A miss that has its room is accepted**, in a data cache with nothing under way. -/
theorem access_yields (hidle : c.Idle) (hp : c.Probes addr (c.mfs mf) p) (hmiss : p.status = .miss)
    (hi : cfg.getSectorIndex (c.mfs mf).accessSectorMask = .ok i)
    (hsize : (c.mfs mf).dataSize ≤ cfg.atomSz) (hpolicy : cfg.writePolicy ≠ .readOnly)
    (hroom : RoomFor cfg (c.mfs mf)) (types : DataCacheTypes) (time : Time)
    (events : List CacheEvent) :
    Yields (fun r => r.2.1 = .miss) (c.access (.dataCache types) addr mf time events) := by
  refine .bind ⟨(), assertThat_of _ hsize, trivial⟩ fun _ (_ : True) =>
    .bind ⟨(), assertThat_of _ hpolicy, trivial⟩ fun _ (_ : True) => ?_
  have hprobe : c.probeTags addr (c.mfs mf) =
      .ok ({ c with tagArray := { c.tagArray with lastFailReason := p.failReason } }, p) :=
    bind_eq_ok.2 ⟨p, hp, rfl⟩
  rw [hprobe]
  refine .bind ⟨_, rfl, rfl⟩ ?_
  rintro _ rfl
  dsimp only
  rw [hmiss]
  have hp₁ := (probeTags_eq_ok hprobe).2
  refine .bind (processTagProbe_yields (c := { c with
    tagArray := { c.tagArray with lastFailReason := p.failReason } })
    ⟨hidle.entries, hidle.missQueue⟩ hp₁ hmiss hi types hroom time events) fun r hr => ?_
  exact .ok hr

end Cache

end OpenCache
