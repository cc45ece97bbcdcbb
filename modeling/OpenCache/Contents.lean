/-
The bytes behind a data cache.

The source models no data: a write leaves its byte mask, a fill the state of a sector, and a
write-back a number of bytes.  The history variable below gives the bytes to them.  An accepted
write sets the bytes of its byte mask in the line, a fill those of its sector that are not dirty,
and a write-back carries the bytes that its line has then; the lower level applies the requests, and
answers the reads, in the order in which the miss queue gives them to it.  The miss queue is
therefore a queue in front of a memory: what it will leave in the lower level, and what each of its
fetches will bring, is settled when a request is queued.

* `OpenCache.Contents`, `OpenCache.Contents.note` — the bytes, and what each call does to them;
* `OpenCache.Contents.drained` — the lower level after all that waits in the miss queue;
* `OpenCache.Contents.response` — what a fetch under way brings;
* `OpenCache.Contents.drained_access`, `OpenCache.Contents.response_access` — an access adds the
  bytes of a write that is sent through and of a write-back, and **changes nothing for the fetches
  that were there**;
* `OpenCache.Contents.drained_pushed`, `OpenCache.Contents.response_pushed` — a push
  changes nothing.
-/

import OpenCache.MemoryQueue
import OpenCache.LazyWrites
import OpenCache.StaleHits

set_option relaxedAutoImplicit false
set_option autoImplicit false

namespace OpenCache

variable {cfg : CacheConfig} {V : Type*}

/-! ### The history variable -/

/-- The bytes behind the state of a cache, which the source does not model: for each byte of each
block the value of the last accepted write to it, and the value that the lower level holds; the
values in the lines; and the values that a request carries down, or that the answer to it carries
up. -/
structure Contents (V : Type*) where
  latest : NewAddrType → Fin 128 → V
  lower : NewAddrType → Fin 128 → V
  lines : ℕ → Fin 128 → V
  carried : Token → Fin 128 → V
  accepted : ℕ

/-- A write or a write-back is for a byte of a block: one of its byte mask, inside the sectors of
its sector mask. -/
def Core.Writes (s : Core cfg) (t : Token) (a : NewAddrType) (x : Fin 128) : Prop :=
  (s.mfs t).isWrite = true ∧ a = cfg.blockAddr (s.mfs t).addr ∧ x ∈ cfg.writtenBytes (s.mfs t)

instance (s : Core cfg) (t : Token) (a : NewAddrType) (x : Fin 128) :
    Decidable (s.Writes t a x) := by
  unfold Core.Writes
  infer_instance

namespace Contents

/-- Nothing has been written yet, and the lower level holds the initial values. -/
def init (memory : NewAddrType → Fin 128 → V) (lines : ℕ → Fin 128 → V)
    (carried : Token → Fin 128 → V) : Contents V :=
  ⟨memory, memory, lines, carried, 0⟩

/-- What the lower level makes of a request: a write or a write-back sets the bytes that it
carries. -/
def effect (h : Contents V) (s : Core cfg) (t : Token) (mem : NewAddrType → Fin 128 → V)
    (a : NewAddrType) (x : Fin 128) : V :=
  if s.Writes t a x then h.carried t x else mem a x

/-- An accepted access: a write sets its bytes in the line that the tags have answered with, and if
it is sent down it carries them; a write-back carries the bytes of the line that is taken. -/
def accessed (h : Contents V) (cfg : CacheConfig) (bytes : Fin 128 → V) (mf : Token) (m : MemFetch)
    (p : ProbeResult) (queued : List Token) : Contents V where
  latest a x :=
    if m.isWrite = true ∧ a = cfg.blockAddr m.addr ∧ x ∈ m.accessByteMask then bytes x
    else h.latest a x
  lower := h.lower
  lines i x :=
    if m.isWrite = true ∧ i = p.idx ∧ x ∈ m.accessByteMask then bytes x else h.lines i x
  carried t := if t = mf then bytes else if t ∈ queued then h.lines p.idx else h.carried t
  accepted := h.accepted + 1

/-- The same for the access of `mf` to `c`, which has left `s'`. -/
abbrev afterAccess (h : Contents V) (c : Cache cfg) (bytes : Fin 128 → V) (mf : Token)
    (p : ProbeResult) (s' : Core cfg) : Contents V :=
  h.accessed cfg bytes mf (c.mfs mf) p (s'.missQueue.drop c.missQueue.length)

/-- A request that is pushed: a write changes the lower level, and a read is answered with what it
finds there. -/
def pushed (h : Contents V) (s : Core cfg) (t : Token) : Contents V :=
  { h with
    lower := h.effect s t h.lower
    carried := fun t' => if t' = t ∧ (s.mfs t).isWrite = false
      then h.lower (cfg.blockAddr (s.mfs t).addr) else h.carried t' }

/-- A fill sets the bytes of its sector that are not dirty. -/
def filled (h : Contents V) (s : Core cfg) (t : Token) (e : ExtraMfFields) : Contents V :=
  { h with
    lines := fun i x => if i = e.cacheIndex ∧
        x ∈ cfg.bytesOf (cfg.sectorIndex (s.mfs t).accessSectorMask) ∧
        x ∉ (s.lines i).dirtyByteMask then h.carried t x else h.lines i x }

/-- The bytes after a call; `data` are those that the accepted writes bring. -/
def note (data : ℕ → Fin 128 → V) (h : Contents V) (sys : System cfg) (_ : Op) (sys' : System cfg) :
    Obs → Contents V
  | .access mf m status _ =>
      match sys.answer m with
      | some p =>
          if status = .reservationFail then h
          else h.accessed cfg (data h.accepted) mf m p
            (sys'.core.missQueue.drop sys.core.missQueue.length)
      | none => h
  | .cycle (some t) => h.pushed sys.core t
  | .fill t =>
      match sys.core.extra.lookup t, sys'.core.extra.lookup t with
      | some e, none => h.filled sys.core t e
      | _, _ => h
  | _ => h

end Contents

/-- The runs of a data cache with the bytes behind it. -/
abbrev System.ContentsRun (types : DataCacheTypes) (data : ℕ → Fin 128 → V)
    (promise : System cfg → Op → Prop) :
    System cfg × Contents V → List Obs → System cfg × Contents V → Prop :=
  Runs.Run (Runs.withHistory (System.perform (.dataCache types)) (Contents.note data))
    fun s => promise s.1

/-! ### The bytes of a request -/

/-- In a sector cache a write changes the bytes of its byte mask that lie in its sectors. -/
theorem CacheConfig.mem_writtenBytes (hk : cfg.cacheType = .sector) {m : MemFetch} {x : Fin 128} :
    x ∈ cfg.writtenBytes m ↔ x ∈ m.accessByteMask ∧ byteSector x ∈ m.accessSectorMask := by
  unfold writtenBytes
  rw [hk]
  dsimp only
  rw [Finset.mem_filter]
  refine and_congr_right fun _ => ⟨?_, fun h => ⟨_, h, mem_sectorBytes_byteSector x⟩⟩
  rintro ⟨i, hi, hx⟩
  rwa [eq_of_mem_sectorBytes (mem_sectorBytes_byteSector x) hx]

theorem CacheConfig.InSector.writtenBytes {m : MemFetch} (h : cfg.InSector m)
    (hk : cfg.cacheType = .sector) : cfg.writtenBytes m = m.accessByteMask := by
  ext x
  rw [CacheConfig.mem_writtenBytes hk, and_iff_left_iff_imp]
  intro hx
  rw [h.mask, Finset.mem_singleton]
  exact h.byteSector hx

namespace Contents

variable {h : Contents V} {s : Core cfg}

/-- The lower level, after all that waits in the miss queue. -/
def drained (h : Contents V) (s : Core cfg) : NewAddrType → Fin 128 → V :=
  MemoryQueue.drain (h.effect s) s.missQueue h.lower

/-- What the lower level will hold in a byte is what it holds, if no request in the miss queue
writes the byte, and what the last of those requests carries else. -/
theorem drained_cases (h : Contents V) (s : Core cfg) (a : NewAddrType) (x : Fin 128) :
    (∀ t ∈ s.missQueue, ¬s.Writes t a x) ∧ h.drained s a x = h.lower a x ∨
      ∃ before t after, s.missQueue = before ++ t :: after ∧ s.Writes t a x ∧
        (∀ t' ∈ after, ¬s.Writes t' a x) ∧ h.drained s a x = h.carried t x :=
  @MemoryQueue.drain_cases Token _ (h.effect s) s.missQueue h.lower V (fun mem => mem a x)
    (s.Writes · a x) (h.carried · x) (fun _ _ hset => if_pos hset) fun _ _ hset => if_neg hset

/-- What a fetch under way brings: what it finds when its turn comes, or what it has found. -/
def response (h : Contents V) (s : Core cfg) (t : Token) (x : Fin 128) : V :=
  if t ∈ s.missQueue
  then MemoryQueue.turn (h.effect s) s.missQueue h.lower t (cfg.blockAddr (s.mfs t).addr) x
  else h.carried t x

/-- Only the request, and what it carries, matter for the effect of a request. -/
theorem effect_congr {h' : Contents V} {s' : Core cfg} {t : Token} (hmf : s'.mfs t = s.mfs t)
    (hcarried : (s.mfs t).isWrite = true → h'.carried t = h.carried t) :
    h'.effect s' t = h.effect s t := by
  funext mem a x
  have hwrites : s'.Writes t a x ↔ s.Writes t a x := by
    unfold Core.Writes
    rw [hmf]
  by_cases hw : s.Writes t a x
  · refine (if_pos (hwrites.2 hw)).trans (Eq.trans ?_ (if_pos hw).symm)
    rw [hcarried hw.1]
  · exact (if_neg fun hw' => hw (hwrites.1 hw')).trans (if_neg hw).symm

/-- A read changes nothing. -/
theorem effect_of_read {t : Token} (hread : (s.mfs t).isWrite = false)
    (mem : NewAddrType → Fin 128 → V) : h.effect s t mem = mem := by
  funext a x
  exact if_neg fun hw => by simp [Core.Writes, hread] at hw

/-! ### Accesses -/

section Access

variable {c : Cache cfg} {types : DataCacheTypes} {mf : Token} {p : ProbeResult} {sends : Bool}
  {s' : Core cfg} {bytes : Fin 128 → V} {t : Token} {a : NewAddrType} {x : Fin 128}

/-- What an access has queued is the request and the write-back of its victim. -/
theorem mem_queued (hq : LazyQueue c (.dataCache types) mf p sends s')
    (ht : t ∈ s'.missQueue.drop c.missQueue.length) : t = mf ∨ t = .created c.created := by
  rw [hq.queue, List.drop_left, List.mem_append] at ht
  rcases ht with ht | ht
  · left
    split at ht
    · exact List.mem_singleton.1 ht
    · cases ht
  · right
    obtain ⟨w, -, hw⟩ := Option.map_eq_some_iff.1 (Option.mem_toList.1 ht)
    exact hw.symm

/-- The requests that were there have the same effect. -/
theorem effect_access (hq : LazyQueue c (.dataCache types) mf p sends s') (ht : t ≠ mf)
    (hcreated : t ≠ .created c.created) :
    (h.afterAccess c bytes mf p s').effect s' t = h.effect c.core t := by
  refine effect_congr (hq.others t ht hcreated) fun _ => ?_
  have hnot : t ∉ s'.missQueue.drop c.missQueue.length := fun hmem =>
    (mem_queued hq hmem).elim ht hcreated
  simp only [afterAccess, accessed, if_neg ht, if_neg hnot]

/-- And the fetches that were there find the same bytes. -/
theorem response_access (hq : LazyQueue c (.dataCache types) mf p sends s')
    (hnew : mf ∉ c.missQueue) (hfresh : .created c.created ∉ c.missQueue) (ht : t ≠ mf)
    (hcreated : t ≠ .created c.created) :
    (h.afterAccess c bytes mf p s').response s' t x = h.response c.core t x := by
  have hnot : t ∉ s'.missQueue.drop c.missQueue.length := fun hmem =>
    (mem_queued hq hmem).elim ht hcreated
  have hqueue : s'.missQueue = c.missQueue ++ s'.missQueue.drop c.missQueue.length := by
    rw [hq.queue, List.drop_left]
  have hsame : ∀ t' ∈ c.missQueue,
      (h.afterAccess c bytes mf p s').effect s' t' = h.effect c.core t' := fun t' ht' =>
    effect_access hq (fun heq => hnew (heq ▸ ht')) fun heq => hfresh (heq ▸ ht')
  unfold response
  by_cases hmem : t ∈ c.core.missQueue
  · have hmem' : t ∈ s'.missQueue := by
      rw [hqueue]
      exact List.mem_append_left _ hmem
    rw [if_pos hmem', if_pos hmem, hq.others t ht hcreated]
    have hturn : ∀ {e : Token → (NewAddrType → Fin 128 → V) → NewAddrType → Fin 128 → V} {mem},
        MemoryQueue.turn e s'.missQueue mem t = MemoryQueue.turn e c.missQueue mem t := by
      intro e mem
      rw [hqueue]
      exact MemoryQueue.turn_append_of_mem hmem
    rw [hturn, MemoryQueue.turn_congr hsame]
    rfl
  · have hmem' : t ∉ s'.missQueue := by
      rw [hqueue, List.mem_append]
      exact fun hor => hor.elim hmem hnot
    rw [if_neg hmem', if_neg hmem]
    simp only [afterAccess, accessed, if_neg ht, if_neg hnot]

/-- An access takes the line, and the write-back of its block has the byte. -/
def WritesBack (cfg : CacheConfig) (p : ProbeResult) (b : CacheBlock cfg.cacheType)
    (a : NewAddrType) (x : Fin 128) : Prop :=
  cfg.writePolicy = .writeBack ∧ p.status = .miss ∧ b.tag = a ∧
    b.getStatus (byteSector x) = .modified ∧ x ∈ b.dirtyByteMask

instance (p : ProbeResult) (b : CacheBlock cfg.cacheType) : Decidable (WritesBack cfg p b a x) := by
  unfold WritesBack
  infer_instance

/-- The write-back of a lazy cache: only a write-back cache has one, for a modified victim. -/
theorem writebackOf_eq_some_iff (hlazy : cfg.Lazy) {m w : MemFetch} {status : CacheRequestStatus}
    {b : CacheBlock cfg.cacheType} :
    writebackOf cfg (.dataCache types) m status b = some w ↔
      (cfg.writePolicy = .writeBack ∧ status = .miss ∧ b.isModifiedLine = true) ∧
        w = MemFetch.new types.wrbkType b.blockAddr b.getModifiedSize true b.dirtyByteMask
          b.getDirtySectorMask m.streamID none none := by
  unfold writebackOf TagArray.evictedBy
  rcases hlazy.policy with hback | hthrough
  · simp only [hback, reduceCtorEq, if_false, hlazy.onMiss, true_and]
    split
    · next hevicts =>
        simp only [hevicts, and_self, true_and, Option.map_some, Option.some_inj]
        exact eq_comm
    · next hkeeps => simp [hkeeps]
  · simp [hthrough]

/-- The lower level after the request itself, if it is sent down: a write has set its bytes. -/
theorem drain_own (hlazy : cfg.Lazy) (hq : LazyQueue c (.dataCache types) mf p sends s')
    (hm : cfg.InSector (c.mfs mf)) (mem : NewAddrType → Fin 128 → V) :
    MemoryQueue.drain ((h.afterAccess c bytes mf p s').effect s') (if sends then [mf] else [])
        mem a x =
      if (c.mfs mf).isWrite = true ∧ cfg.writePolicy = .writeThrough ∧
        a = cfg.blockAddr (c.mfs mf).addr ∧ x ∈ (c.mfs mf).accessByteMask then bytes x
      else mem a x := by
  cases hwrite : (c.mfs mf).isWrite with
  | false =>
      have hread : (s'.mfs mf).isWrite = false := hq.isWrite.trans hwrite
      have hsame : ∀ sends : Bool, MemoryQueue.drain ((h.afterAccess c bytes mf p s').effect s')
          (if sends then [mf] else []) mem = mem := by
        rintro (_ | _)
        · rfl
        · exact effect_of_read hread mem
      rw [hsame]
      simp
  | true =>
      rw [hq.through hwrite]
      by_cases hthrough : cfg.writePolicy = .writeThrough
      · simp only [hthrough, decide_true, if_true, true_and, MemoryQueue.drain_cons,
          MemoryQueue.drain_nil]
        have hcarried : (h.afterAccess c bytes mf p s').carried mf = bytes := if_pos rfl
        refine if_congr ?_ (congrFun hcarried x) rfl
        rw [Core.Writes, hq.own hwrite, hwrite, hm.writtenBytes hlazy.sector]
        simp
      · simp [hthrough]

/-- The lower level after the write-back, if there is one: it has the bytes of the line. -/
theorem drain_writeback (hlazy : cfg.Lazy) (hq : LazyQueue c (.dataCache types) mf p sends s')
    (hmf : ∀ k, mf ≠ .created k) (htagged : Tagged c.core)
    (haligned : cfg.blockAddr (c.core.lines p.idx).tag = (c.core.lines p.idx).tag)
    (mem : NewAddrType → Fin 128 → V) :
    MemoryQueue.drain ((h.afterAccess c bytes mf p s').effect s')
        ((writebackOf cfg (.dataCache types) (c.mfs mf) p.status (c.tagArray.lines p.idx)).map
          fun _ => Token.created c.created).toList mem a x =
      if WritesBack cfg p (c.core.lines p.idx) a x then h.lines p.idx x else mem a x := by
  cases hw : writebackOf cfg (.dataCache types) (c.mfs mf) p.status (c.tagArray.lines p.idx) with
  | none =>
      rw [if_neg]
      · rfl
      · rintro ⟨hback, hmiss, -, hmodified, -⟩
        have hline := (CacheBlock.isModifiedLine_iff (c.tagArray.lines p.idx)).2 ⟨_, hmodified⟩
        rw [(writebackOf_eq_some_iff hlazy).2 ⟨⟨hback, hmiss, hline⟩, rfl⟩] at hw
        cases hw
  | some w =>
      obtain ⟨⟨hback, hmiss, hline⟩, rfl⟩ := (writebackOf_eq_some_iff hlazy).1 hw
      have hqueued : Token.created c.created ∈ s'.missQueue.drop c.missQueue.length := by
        rw [hq.queue, List.drop_left, hw]
        exact List.mem_append_right _ (List.mem_singleton_self _)
      have hmask : memAccessSectorMask (c.tagArray.lines p.idx).getDirtySectorMask =
          (c.tagArray.lines p.idx).getDirtySectorMask := by
        obtain ⟨j, hj⟩ := (CacheBlock.isModifiedLine_iff (c.tagArray.lines p.idx)).1 hline
        have hmem := (CacheBlock.mem_getDirtySectorMask (c.tagArray.lines p.idx) j).2 hj
        rw [memAccessSectorMask, if_neg (Finset.card_ne_zero_of_mem hmem)]
      have hblock : cfg.blockAddr (c.tagArray.lines p.idx).blockAddr =
          (c.tagArray.lines p.idx).tag := by
        have htag : (c.tagArray.lines p.idx).blockAddr = (c.tagArray.lines p.idx).tag :=
          (htagged p.idx).2
        rw [htag]
        exact haligned
      simp only [Option.map_some, Option.toList_some, MemoryQueue.drain_cons, MemoryQueue.drain_nil]
      have hcarried : (h.afterAccess c bytes mf p s').carried (.created c.created) =
          h.lines p.idx := by
        simp only [afterAccess, accessed, if_neg (hmf c.created).symm, if_pos hqueued]
      refine if_congr ?_ (congrFun hcarried x) rfl
      rw [Core.Writes, hq.writeback _ hw]
      constructor
      · rintro ⟨-, ha, hx⟩
        obtain ⟨hdirty, hsector⟩ := (CacheConfig.mem_writtenBytes hlazy.sector).1 hx
        refine ⟨hback, hmiss, (ha.trans hblock).symm, ?_, hdirty⟩
        exact (CacheBlock.mem_getDirtySectorMask _ _).1 (hmask ▸ hsector)
      · rintro ⟨-, -, htag, hmodified, hdirty⟩
        refine ⟨rfl, (hblock.trans htag).symm, ?_⟩
        refine (CacheConfig.mem_writtenBytes hlazy.sector).2 ⟨hdirty, ?_⟩
        have hsector : byteSector x ∈ memAccessSectorMask
            (c.tagArray.lines p.idx).getDirtySectorMask := by
          rw [hmask]
          exact (CacheBlock.mem_getDirtySectorMask _ _).2 hmodified
        exact hsector

/-- **The lower level after all that is queued then**: what it would have held before, except the
bytes that a write has sent through and those that a write-back has brought. -/
theorem drained_access (hlazy : cfg.Lazy) (hq : LazyQueue c (.dataCache types) mf p sends s')
    (hmf : ∀ k, mf ≠ .created k) (hnew : mf ∉ c.missQueue)
    (hfresh : .created c.created ∉ c.missQueue) (hm : cfg.InSector (c.mfs mf))
    (htagged : Tagged c.core)
    (haligned : cfg.blockAddr (c.core.lines p.idx).tag = (c.core.lines p.idx).tag) :
    (h.afterAccess c bytes mf p s').drained s' a x =
      if WritesBack cfg p (c.core.lines p.idx) a x then h.lines p.idx x
      else if (c.mfs mf).isWrite = true ∧ cfg.writePolicy = .writeThrough ∧
        a = cfg.blockAddr (c.mfs mf).addr ∧ x ∈ (c.mfs mf).accessByteMask then bytes x
      else h.drained c.core a x := by
  have hsplit : ∀ e : Token → (NewAddrType → Fin 128 → V) → NewAddrType → Fin 128 → V,
      ∀ mem, MemoryQueue.drain e s'.missQueue mem =
        MemoryQueue.drain e ((writebackOf cfg (.dataCache types) (c.mfs mf) p.status
          (c.tagArray.lines p.idx)).map fun _ => Token.created c.created).toList
          (MemoryQueue.drain e (if sends then [mf] else [])
            (MemoryQueue.drain e c.missQueue mem)) := by
    intro e mem
    rw [hq.queue, MemoryQueue.drain_append, MemoryQueue.drain_append]
  have hold : MemoryQueue.drain ((h.afterAccess c bytes mf p s').effect s') c.missQueue
      (h.afterAccess c bytes mf p s').lower = h.drained c.core := by
    refine MemoryQueue.drain_congr fun t ht => ?_
    exact effect_access hq (fun heq => hnew (heq ▸ ht)) fun heq => hfresh (heq ▸ ht)
  rw [drained, hsplit, hold, drain_writeback hlazy hq hmf htagged haligned, drain_own hlazy hq hm]

/-- **A fetch that is sent** finds what the lower level holds after all that was queued before. -/
theorem response_launched (hq : LazyQueue c (.dataCache types) mf p sends s')
    (hmf : ∀ k, mf ≠ .created k) (hnew : mf ∉ c.missQueue)
    (hfresh : .created c.created ∉ c.missQueue) (hqueued : mf ∈ s'.missQueue) :
    (h.afterAccess c bytes mf p s').response s' mf x =
      h.drained c.core (cfg.blockAddr (s'.mfs mf).addr) x := by
  have hsends : sends = true := by
    have hmem := hqueued
    rw [hq.queue, List.mem_append, List.mem_append, or_iff_right hnew] at hmem
    rcases hmem with hmem | hmem
    · by_contra hsends
      simp [hsends] at hmem
    · obtain ⟨w, -, hw⟩ := Option.map_eq_some_iff.1 (Option.mem_toList.1 hmem)
      exact absurd hw.symm (hmf _)
  have hqueue : s'.missQueue = c.missQueue ++ mf ::
      ((writebackOf cfg (.dataCache types) (c.mfs mf) p.status (c.tagArray.lines p.idx)).map
        fun _ => Token.created c.created).toList := by
    rw [hq.queue, hsends]
    rfl
  have hturn : ∀ {e : Token → (NewAddrType → Fin 128 → V) → NewAddrType → Fin 128 → V} {mem},
      MemoryQueue.turn e s'.missQueue mem mf = MemoryQueue.drain e c.missQueue mem := by
    intro e mem
    rw [hqueue]
    exact MemoryQueue.turn_append_of_notMem hnew
  rw [response, if_pos hqueued, hturn]
  refine congrFun (congrFun (MemoryQueue.drain_congr fun t ht => ?_) _) _
  exact effect_access hq (fun heq => hnew (heq ▸ ht)) fun heq => hfresh (heq ▸ ht)

end Access

/-! ### The other steps -/

section Steps

variable {h' : Contents V} {s' : Core cfg} {t t' : Token} {rest : List Token} {x : Fin 128}

/-- Nothing changes below the lines. -/
theorem drained_congr (hqueue : s'.missQueue = s.missQueue)
    (hmfs : ∀ t ∈ s.missQueue, s'.mfs t = s.mfs t) (hlower : h'.lower = h.lower)
    (hcarried : h'.carried = h.carried) : h'.drained s' = h.drained s := by
  rw [drained, drained, hqueue, hlower]
  exact MemoryQueue.drain_congr fun t ht => effect_congr (hmfs t ht) fun _ => by rw [hcarried]

theorem response_congr (hqueue : s'.missQueue = s.missQueue)
    (hmfs : ∀ t ∈ s.missQueue, s'.mfs t = s.mfs t) (hlower : h'.lower = h.lower)
    (hcarried : h'.carried = h.carried) : h'.response s' t x = h.response s t x := by
  rw [response, response, hqueue, hlower, hcarried]
  split
  · next ht =>
      rw [hmfs t ht]
      refine congrFun (congrFun (MemoryQueue.turn_congr fun t' ht' => ?_) _) _
      exact effect_congr (hmfs t' ht') fun _ => by rw [hcarried]
  · rfl

/-- A request that is pushed has the effect that it would have had. -/
theorem effect_pushed (hmfs : s'.mfs = s.mfs) : (h.pushed s t).effect s' t' = h.effect s t' := by
  refine effect_congr (by rw [hmfs]) fun hwrite => ?_
  refine if_neg ?_
  rintro ⟨rfl, hread⟩
  simp [hread] at hwrite

theorem drained_pushed (hqueue : s.missQueue = t :: rest) (hqueue' : s'.missQueue = rest)
    (hmfs : s'.mfs = s.mfs) : (h.pushed s t).drained s' = h.drained s := by
  rw [drained, drained, hqueue, hqueue', MemoryQueue.drain_cons]
  exact MemoryQueue.drain_congr fun t' _ => effect_pushed hmfs

/-- **A fetch that is pushed** is answered with what it would have found. -/
theorem response_pushed (hqueue : s.missQueue = t :: rest) (hqueue' : s'.missQueue = rest)
    (hmfs : s'.mfs = s.mfs) (hread : (s.mfs t').isWrite = false) (honce : t' = t → t' ∉ rest) :
    (h.pushed s t).response s' t' x = h.response s t' x := by
  rw [response, response, hqueue, hqueue', hmfs]
  by_cases ht : t' = t
  · subst ht
    rw [if_neg (honce rfl), if_pos List.mem_cons_self, MemoryQueue.turn_cons_self]
    exact congrFun (if_pos ⟨rfl, hread⟩) x
  · have hmem : t' ∈ t :: rest ↔ t' ∈ rest := by simp [ht]
    simp only [hmem]
    split
    · rw [MemoryQueue.turn_cons_of_ne (Ne.symm ht)]
      refine congrFun (congrFun (MemoryQueue.turn_congr fun t' _ => ?_) _) _
      exact effect_pushed hmfs
    · exact congrFun (if_neg fun heq => ht heq.1) x

end Steps

end Contents

end OpenCache
