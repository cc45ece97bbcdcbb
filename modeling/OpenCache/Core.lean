/-
The state that the behaviour of a cache depends on, without its bookkeeping.

A cache also counts: statistics, port occupancy, tag-array counters, watermarks.  The invariants of
the other modules do not mention these counts, so they are stated on the `Core` of a cache.  Every
access is one of five cases, each of which changes the core by a fixed sequence of small updates;
the case distinction over policies, probe answers and handlers is made once, here.

* `OpenCache.Core` — what is left of a cache without its counters;
* `OpenCache.AccessCase` — the five ways an access can end: refused, hit, forwarded write, write
  into a line, fetch;
* `OpenCache.Cache.access_cases` — **every access that returns is one of the five cases**;
* `OpenCache.Cache.cycle_core`, `fillComplete_core`, `nextAccess_core` — the other methods.
-/

import OpenCache.Access

set_option relaxedAutoImplicit false
set_option autoImplicit false

namespace OpenCache

/-! ### The core of a cache -/

/-- A cache without its counters. -/
structure Core (cfg : CacheConfig) where
  lines : ℕ → CacheBlock cfg.cacheType
  entries : MshrData
  answered : List NewAddrType
  missQueue : List Token
  extra : AList fun _ : Token => ExtraMfFields
  hitQueue : List DelayedResponseEntry
  readyQueue : List Token
  pending : AList fun _ : Token => ℕ
  mfs : Token → MemFetch
  created : ℕ

/-- The core of a cache. -/
def Cache.core {cfg : CacheConfig} (c : Cache cfg) : Core cfg where
  lines := c.tagArray.lines
  entries := c.mshrs.data
  answered := c.mshrs.currentResponse
  missQueue := c.missQueue
  extra := c.extraMfFields
  hitQueue := c.hitResponseQueue
  readyQueue := c.readyResponseQueue
  pending := c.pendingResponseIndices
  mfs := c.mfs
  created := c.created

namespace Core

variable {cfg : CacheConfig}

/-- Replace a line. -/
def setLine (s : Core cfg) (idx : ℕ) (b : CacheBlock cfg.cacheType) : Core cfg :=
  { s with lines := Function.update s.lines idx b }

/-- Put a request into the miss queue. -/
def enqueue (s : Core cfg) (mf : Token) : Core cfg :=
  { s with missQueue := s.missQueue ++ [mf] }

/-- Put a request into the miss queue in some cases only. -/
def enqueueIf (s : Core cfg) (b : Bool) (mf : Token) : Core cfg :=
  if b then s.enqueue mf else s

/-- Allocate a request. -/
def alloc (s : Core cfg) (m : MemFetch) : Core cfg :=
  { s with mfs := Function.update s.mfs (.created s.created) m, created := s.created + 1 }

/-- Allocate a request and put it into the miss queue. -/
def sendOwn (s : Core cfg) (m : Option MemFetch) : Core cfg :=
  match m with
  | none => s
  | some m => (s.alloc m).enqueue (.created s.created)

/-- Pin a line for a request. -/
def pin (s : Core cfg) (mf : Token) (idx : ℕ) : Core cfg :=
  { s.setLine idx (s.lines idx).pin with pending := s.pending.insert mf idx }

/-- With deferred responses, a hit is pinned and queued. -/
def respond (s : Core cfg) (mf : Token) (idx : ℕ) : Core cfg :=
  if cfg.deferHitResponse then
    { s.pin mf idx with
      hitQueue := s.hitQueue ++ [⟨mf, Cache.hitResponseLatency cfg (s.mfs mf)⟩] }
  else s

/-- Add a request to the MSHR entry of an address. -/
def join (s : Core cfg) (a : NewAddrType) (mf : Token) : Core cfg :=
  { s with entries := s.entries.insert a ((s.entries.lookup a).getD [] ++ [mf]) }

/-- With deferred responses, an accepted miss is pinned. -/
def pinMiss (s : Core cfg) (mf : Token) (idx : ℕ) : Core cfg :=
  if cfg.deferHitResponse then s.pin mf idx else s

/-- Send the fetch of a new MSHR entry: remember the request, rewrite it, and queue it. -/
def launch (s : Core cfg) (a : NewAddrType) (mf : Token) (idx : ℕ) : Core cfg :=
  { s with
    extra := s.extra.insert mf
      (ExtraMfFields.new cfg a (s.mfs mf).addr idx (s.mfs mf).dataSize)
    mfs := Function.update s.mfs mf { s.mfs mf with dataSize := cfg.atomSz, addr := a }
    missQueue := s.missQueue ++ [mf] }

/-- Accept a miss: join the MSHR entry and, when it is new, send its fetch. -/
def miss (s : Core cfg) (a : NewAddrType) (mf : Token) (idx : ℕ) : Core cfg :=
  let s' := (s.join a mf).pinMiss mf idx
  if (s.entries.lookup a).isSome then s' else s'.launch a mf idx

/-- The loop of `cycle` over the hit response queue. -/
def tick (s : Core cfg) (waiting : List DelayedResponseEntry) (done : List Token) : Core cfg :=
  { s with hitQueue := waiting, readyQueue := s.readyQueue ++ done }

/-- The response to a request is complete: it gets back what was rewritten in it, and its MSHR
entry is ready. -/
def complete (s : Core cfg) (mf : Token) (e : ExtraMfFields) : Core cfg :=
  { s with
    mfs := Function.update s.mfs mf { s.mfs mf with dataSize := e.dataSize, addr := e.addr }
    answered := s.answered ++ [e.blockAddr]
    extra := s.extra.erase mf }

/-- Take the first request out of an MSHR entry; the last one releases the entry. -/
def deliver (s : Core cfg) (a : NewAddrType) (rest : List Token) : Core cfg :=
  if rest = [] then { s with entries := s.entries.erase a, answered := s.answered.tail }
  else { s with entries := s.entries.insert a rest }

/-- Return a request: its line loses one pin. -/
def unpin (s : Core cfg) (mf : Token) : Core cfg :=
  match s.pending.lookup mf with
  | none => s
  | some idx =>
      { s.setLine idx { s.lines idx with
          pendingResponseCount := (s.lines idx).pendingResponseCount - 1 } with
        pending := s.pending.erase mf }

theorem miss_of_some {s : Core cfg} {a : NewAddrType} {l : List Token}
    (h : s.entries.lookup a = some l) (mf : Token) (idx : ℕ) :
    s.miss a mf idx = (s.join a mf).pinMiss mf idx := by
  rw [miss, h]
  rfl

theorem miss_of_none {s : Core cfg} {a : NewAddrType} (h : s.entries.lookup a = none)
    (mf : Token) (idx : ℕ) :
    s.miss a mf idx = ((s.join a mf).pinMiss mf idx).launch a mf idx := by
  rw [miss, h]
  rfl

/-- A miss is remembered when its entry is new. -/
theorem miss_extra (s : Core cfg) (a : NewAddrType) (mf : Token) (idx : ℕ) :
    (s.miss a mf idx).extra =
      if (s.entries.lookup a).isSome then s.extra
      else s.extra.insert mf (ExtraMfFields.new cfg a (s.mfs mf).addr idx (s.mfs mf).dataSize) := by
  have hpin : ((s.join a mf).pinMiss mf idx).extra = s.extra ∧
      ((s.join a mf).pinMiss mf idx).mfs = s.mfs := by
    unfold pinMiss
    split <;> exact ⟨rfl, rfl⟩
  cases h : s.entries.lookup a with
  | some l =>
      rw [miss_of_some h]
      exact hpin.1
  | none =>
      rw [miss_of_none h, launch, hpin.1, hpin.2]
      rfl

/-- What is remembered after a miss was remembered before, or is the request that is sent. -/
theorem extra_of_miss {s : Core cfg} {a : NewAddrType} {mf t : Token} {idx : ℕ} {e : ExtraMfFields}
    (he : (s.miss a mf idx).extra.lookup t = some e) :
    s.extra.lookup t = some e ∨ s.entries.lookup a = none ∧ t = mf ∧
      e = ExtraMfFields.new cfg a (s.mfs mf).addr idx (s.mfs mf).dataSize := by
  rw [miss_extra] at he
  split at he
  · exact Or.inl he
  · next hnone =>
      by_cases ht : t = mf
      · rw [ht, AList.lookup_insert] at he
        exact Or.inr ⟨Option.not_isSome_iff_eq_none.1 hnone, ht, (Option.some_inj.1 he).symm⟩
      · rw [AList.lookup_insert_ne ht] at he
        exact Or.inl he

/-- A response that is complete forgets how many responses were missing. -/
theorem complete_insert (s : Core cfg) (mf : Token) (e : ExtraMfFields) (pendingRead : BitVec 32) :
    ({ s with extra := s.extra.insert mf { e with pendingRead } } : Core cfg).complete mf
      { e with pendingRead } = s.complete mf e := by
  simp only [complete, AList.erase_insert]

/-! ### What the updates leave alone -/

section Frame

variable (s : Core cfg) (mf : Token) (idx : ℕ) (a : NewAddrType)

@[simp] theorem enqueueIf_frame (b : Bool) :
    (s.enqueueIf b mf).lines = s.lines ∧ (s.enqueueIf b mf).entries = s.entries ∧
      (s.enqueueIf b mf).answered = s.answered ∧ (s.enqueueIf b mf).extra = s.extra ∧
      (s.enqueueIf b mf).hitQueue = s.hitQueue ∧ (s.enqueueIf b mf).readyQueue = s.readyQueue ∧
      (s.enqueueIf b mf).pending = s.pending ∧ (s.enqueueIf b mf).mfs = s.mfs ∧
      (s.enqueueIf b mf).created = s.created := by
  cases b <;> exact ⟨rfl, rfl, rfl, rfl, rfl, rfl, rfl, rfl, rfl⟩

@[simp] theorem sendOwn_frame (m : Option MemFetch) :
    (s.sendOwn m).lines = s.lines ∧ (s.sendOwn m).entries = s.entries ∧
      (s.sendOwn m).answered = s.answered ∧ (s.sendOwn m).extra = s.extra ∧
      (s.sendOwn m).hitQueue = s.hitQueue ∧ (s.sendOwn m).readyQueue = s.readyQueue ∧
      (s.sendOwn m).pending = s.pending := by
  cases m <;> exact ⟨rfl, rfl, rfl, rfl, rfl, rfl, rfl⟩

@[simp] theorem respond_frame :
    (s.respond mf idx).entries = s.entries ∧ (s.respond mf idx).answered = s.answered ∧
      (s.respond mf idx).missQueue = s.missQueue ∧ (s.respond mf idx).extra = s.extra ∧
      (s.respond mf idx).readyQueue = s.readyQueue ∧ (s.respond mf idx).mfs = s.mfs ∧
      (s.respond mf idx).created = s.created := by
  unfold respond
  split <;> exact ⟨rfl, rfl, rfl, rfl, rfl, rfl, rfl⟩

@[simp] theorem pinMiss_frame :
    (s.pinMiss mf idx).entries = s.entries ∧ (s.pinMiss mf idx).answered = s.answered ∧
      (s.pinMiss mf idx).missQueue = s.missQueue ∧ (s.pinMiss mf idx).extra = s.extra ∧
      (s.pinMiss mf idx).hitQueue = s.hitQueue ∧ (s.pinMiss mf idx).readyQueue = s.readyQueue ∧
      (s.pinMiss mf idx).mfs = s.mfs ∧ (s.pinMiss mf idx).created = s.created := by
  unfold pinMiss
  split <;> exact ⟨rfl, rfl, rfl, rfl, rfl, rfl, rfl, rfl⟩

@[simp] theorem miss_frame :
    (s.miss a mf idx).answered = s.answered ∧ (s.miss a mf idx).hitQueue = s.hitQueue ∧
      (s.miss a mf idx).readyQueue = s.readyQueue ∧ (s.miss a mf idx).created = s.created ∧
      (s.miss a mf idx).entries = (s.join a mf).entries ∧
      (s.miss a mf idx).lines = (s.pinMiss mf idx).lines ∧
      (s.miss a mf idx).pending = (s.pinMiss mf idx).pending := by
  have hpin : ∀ s : Core cfg, (s.join a mf).pinMiss mf idx = (s.pinMiss mf idx).join a mf := by
    intro s
    unfold pinMiss
    split <;> rfl
  cases h : s.entries.lookup a with
  | none =>
      rw [miss_of_none h, hpin]
      simp [launch, join]
  | some l =>
      rw [miss_of_some h, hpin]
      simp [join]

@[simp] theorem unpin_frame :
    (s.unpin mf).entries = s.entries ∧ (s.unpin mf).answered = s.answered ∧
      (s.unpin mf).missQueue = s.missQueue ∧ (s.unpin mf).extra = s.extra ∧
      (s.unpin mf).hitQueue = s.hitQueue ∧ (s.unpin mf).readyQueue = s.readyQueue ∧
      (s.unpin mf).mfs = s.mfs ∧ (s.unpin mf).created = s.created := by
  unfold unpin
  split <;> exact ⟨rfl, rfl, rfl, rfl, rfl, rfl, rfl, rfl⟩

end Frame

theorem unpin_pending (s : Core cfg) (mf : Token) :
    (s.unpin mf).pending = s.pending.erase mf := by
  unfold unpin
  split
  · next h => exact (AList.erase_of_notMem (AList.lookup_eq_none.1 h)).symm
  · rfl

@[simp] theorem setLine_setLine (s : Core cfg) (idx : ℕ) (b b' : CacheBlock cfg.cacheType) :
    (s.setLine idx b).setLine idx b' = s.setLine idx b' := by
  simp [setLine]

@[simp] theorem setLine_self (s : Core cfg) (idx : ℕ) : s.setLine idx (s.lines idx) = s := by
  simp [setLine]

@[simp] theorem setLine_lines_self (s : Core cfg) (idx : ℕ) (b : CacheBlock cfg.cacheType) :
    (s.setLine idx b).lines idx = b := by
  simp [setLine]

end Core

/-! ### What is written into a line -/

namespace CacheBlock

variable {k : CacheType}

/-- A sector after a write: modified, with the bytes of the request dirty. -/
def marked (b : CacheBlock k) (m : MemFetch) (i : Fin 4) : CacheBlock k :=
  (b.setStatus .modified i).setByteMask m.accessByteMask

/-- The effect of `update_m_readable`. -/
def readableUpdated (b : CacheBlock k) (m : MemFetch) (i : Fin 4) : CacheBlock k :=
  if ∃ j ∈ m.accessSectorMask, sectorBytes j ⊆ b.dirtyByteMask then b.setMReadable true i else b

/-- A line after the full write of `wr_miss_wa_fetch_on_write`. -/
def fullWritten (b : CacheBlock k) (m : MemFetch) (i : Fin 4) (status : CacheRequestStatus) :
    CacheBlock k :=
  if status = .hitReserved then (b.marked m i).setIgnoreOnFill true i else b.marked m i

/-- A line after the write of `wr_miss_wa_lazy_fetch_on_read`. -/
def lazyWritten (b : CacheBlock k) (m : MemFetch) (i : Fin 4) (status : CacheRequestStatus)
    (atomSz : ℕ) : CacheBlock k :=
  let b := b.marked m i
  let b :=
    if status = .hitReserved then
      ((b.setIgnoreOnFill true i).setModifiedOnFill true i).putByteMaskOnFill true
    else b
  let b :=
    if m.accessByteMask.card = atomSz then b.setMReadable true i
    else if status = .hitReserved then (b.setMReadable false i).setReadableOnFill true i
    else b.setMReadable false i
  b.readableUpdated m i

/-- A line whose fetch was sent by `wr_miss_wa_fetch_on_write`. -/
def writtenOnFill (b : CacheBlock k) (i : Fin 4) : CacheBlock k :=
  (b.setModifiedOnFill true i).putByteMaskOnFill true

end CacheBlock

/-! ### The five cases of an access -/

/-- A write hit evicts the line: under write-evict, and for global writes under local
write-back. -/
def evictsOnWriteHit (cfg : CacheConfig) (m : MemFetch) : Prop :=
  cfg.writePolicy = .writeEvict ∨ cfg.writePolicy = .localWbGlobalWt ∧ m.accessType = .globalAccW

instance (cfg : CacheConfig) (m : MemFetch) : Decidable (evictsOnWriteHit cfg m) := by
  unfold evictsOnWriteHit
  infer_instance

/-- The line after a hit, and whether the request is forwarded. -/
inductive HitEffect (cfg : CacheConfig) (cls : CacheClass) (m : MemFetch) (time : Time)
    (i : Fin 4) (b : CacheBlock cfg.cacheType) : CacheBlock cfg.cacheType → Bool → Prop
  | read (hread : m.isWrite = false) : HitEffect cfg cls m time i b (b.setLastAccessTime time) false
  | write (hwrite : m.isWrite = true) (types : DataCacheTypes) (hcls : cls = .dataCache types)
      (hpolicy : ¬evictsOnWriteHit cfg m)
      (hi : cfg.getSectorIndex m.accessSectorMask = .ok i) :
      HitEffect cfg cls m time i b (((b.setLastAccessTime time).marked m i).readableUpdated m i)
        (decide (cfg.writePolicy = .writeThrough))
  | evict (hwrite : m.isWrite = true) (types : DataCacheTypes) (hcls : cls = .dataCache types)
      (hpolicy : evictsOnWriteHit cfg m)
      (hi : cfg.getSectorIndex m.accessSectorMask = .ok i) :
      HitEffect cfg cls m time i b (b.setStatus .invalid i) true

/-- The line after a write miss that fetches nothing. -/
inductive WriteEffect (cfg : CacheConfig) (m : MemFetch) (i : Fin 4) (status : CacheRequestStatus)
    (b : CacheBlock cfg.cacheType) : CacheBlock cfg.cacheType → Bool → Prop
  | full (hpolicy : cfg.writeAllocPolicy = .fetchOnWrite)
      (hfull : m.accessByteMask.card = cfg.atomSz) :
      WriteEffect cfg m i status b (b.fullWritten m i status) false
  | onRead (hpolicy : cfg.writeAllocPolicy = .lazyFetchOnRead) :
      WriteEffect cfg m i status b (b.lazyWritten m i status cfg.atomSz)
        (decide (cfg.writePolicy = .writeThrough))

/-- The request that fetches a block for an access, the core it starts from, and the line it
leaves. -/
inductive Fetcher (cfg : CacheConfig) (cls : CacheClass) (mf : Token) (s : Core cfg) :
    Token → Core cfg → (CacheBlock cfg.cacheType → CacheBlock cfg.cacheType) → Prop
  /-- A read fetches for itself. -/
  | read (hread : (s.mfs mf).isWrite = false) : Fetcher cfg cls mf s mf s id
  /-- `wr_miss_wa_naive` forwards the write and allocates a read. -/
  | naive (hwrite : (s.mfs mf).isWrite = true) (types : DataCacheTypes)
      (hcls : cls = .dataCache types) (hpolicy : cfg.writeAllocPolicy = .writeAllocate) :
      Fetcher cfg cls mf s (.created s.created)
        ((s.enqueue mf).alloc (MemFetch.new types.wrAllocType (s.mfs mf).addr cfg.atomSz false
          (s.mfs mf).accessByteMask (s.mfs mf).accessSectorMask (s.mfs mf).streamID none none)) id
  /-- `wr_miss_wa_fetch_on_write` allocates a read and leaves the write to the fill. -/
  | fetchOnWrite (hwrite : (s.mfs mf).isWrite = true) (types : DataCacheTypes)
      (hcls : cls = .dataCache types) (hpolicy : cfg.writeAllocPolicy = .fetchOnWrite)
      (hbytes : (s.mfs mf).accessByteMask.card ≠ cfg.atomSz)
      (hi : cfg.getSectorIndex (s.mfs mf).accessSectorMask =
        .ok (cfg.sectorIndex (s.mfs mf).accessSectorMask)) :
      Fetcher cfg cls mf s (.created s.created)
        (s.alloc (MemFetch.new types.wrAllocType (s.mfs mf).addr cfg.atomSz false
          (s.mfs mf).accessByteMask (s.mfs mf).accessSectorMask (s.mfs mf).streamID none
          (some mf)))
        (fun b => b.writtenOnFill (cfg.sectorIndex (s.mfs mf).accessSectorMask))

namespace Fetcher

variable {cfg : CacheConfig} {cls : CacheClass} {mf reader : Token} {s s' : Core cfg}
  {written : CacheBlock cfg.cacheType → CacheBlock cfg.cacheType}

/-- What a fetch does before it is sent leaves the lines, the table and the responses. -/
theorem frame (h : Fetcher cfg cls mf s reader s' written) :
    s'.lines = s.lines ∧ s'.entries = s.entries ∧ s'.answered = s.answered ∧ s'.extra = s.extra ∧
      s'.hitQueue = s.hitQueue ∧ s'.readyQueue = s.readyQueue ∧ s'.pending = s.pending := by
  cases h <;> exact ⟨rfl, rfl, rfl, rfl, rfl, rfl, rfl⟩

/-- The request that fetches is a read for the bytes and the sectors of the access. -/
theorem request (h : Fetcher cfg cls mf s reader s' written) :
    (s'.mfs reader).isWrite = false ∧ (s'.mfs reader).addr = (s.mfs mf).addr ∧
      (s'.mfs reader).accessByteMask = (s.mfs mf).accessByteMask ∧
      (s'.mfs reader).accessSectorMask = (s.mfs mf).accessSectorMask := by
  have hnew : ∀ (s₀ : Core cfg) (m : MemFetch), (s₀.alloc m).mfs (.created s₀.created) = m :=
    fun s₀ m => Function.update_self _ _ _
  cases h with
  | read hread => exact ⟨hread, rfl, rfl, rfl⟩
  | naive =>
      rw [show Token.created s.created = .created (s.enqueue mf).created from rfl, hnew]
      exact ⟨rfl, rfl, rfl, MemFetch.memAccessSectorMask_self _⟩
  | fetchOnWrite =>
      rw [hnew]
      exact ⟨rfl, rfl, rfl, MemFetch.memAccessSectorMask_self _⟩

/-- A request that the cache has created is for one atom, and of the type for write allocation. -/
theorem own (h : Fetcher cfg cls mf s reader s' written) (hne : reader ≠ mf) :
    (s'.mfs reader).dataSize = cfg.atomSz ∧
      ∃ types, cls = .dataCache types ∧ (s'.mfs reader).accessType = types.wrAllocType := by
  have hnew : ∀ (s₀ : Core cfg) (m : MemFetch), (s₀.alloc m).mfs (.created s₀.created) = m :=
    fun s₀ m => Function.update_self _ _ _
  cases h with
  | read => exact absurd rfl hne
  | naive _ types hcls =>
      rw [show Token.created s.created = .created (s.enqueue mf).created from rfl, hnew]
      exact ⟨rfl, types, hcls, rfl⟩
  | fetchOnWrite _ types hcls =>
      rw [hnew]
      exact ⟨rfl, types, hcls, rfl⟩

/-- It is the request of the access, or a new one. -/
theorem reader_eq (h : Fetcher cfg cls mf s reader s' written) :
    reader = mf ∧ s' = s ∧ (s.mfs mf).isWrite = false ∨
      reader = .created s.created ∧ s'.created = s.created + 1 ∧ (s.mfs mf).isWrite = true ∧
        ∀ t ≠ reader, s'.mfs t = s.mfs t := by
  cases h with
  | read hread => exact Or.inl ⟨rfl, rfl, hread⟩
  | naive hwrite => exact Or.inr ⟨rfl, rfl, hwrite, fun t ht => Function.update_of_ne ht _ _⟩
  | fetchOnWrite hwrite => exact Or.inr ⟨rfl, rfl, hwrite, fun t ht => Function.update_of_ne ht _ _⟩

end Fetcher

/-- The write-back request for the victim of an access. -/
def writebackOf (cfg : CacheConfig) (cls : CacheClass) (m : MemFetch)
    (status : CacheRequestStatus) (b : CacheBlock cfg.cacheType) : Option MemFetch :=
  match cls with
  | .readOnlyCache => none
  | .dataCache types =>
      if cfg.writePolicy = .writeThrough then none
      else (TagArray.evictedBy cfg status b).map fun e =>
        MemFetch.new types.wrbkType e.blockAddr e.modifiedSize true e.byteMask e.sectorMask
          m.streamID none none

/-- The answer of the tags to a request. -/
def Cache.Probes {cfg : CacheConfig} (c : Cache cfg) (addr : NewAddrType) (m : MemFetch)
    (p : ProbeResult) : Prop :=
  c.tagArray.probe (cfg.blockAddr addr) Cache.noIndex m.accessSectorMask m.isWrite = .ok p

/-- The line that an access has found or taken, after `tag_array::access`. -/
def Cache.touched {cfg : CacheConfig} (c : Cache cfg) (addr : NewAddrType) (m : MemFetch)
    (time : Time) (p : ProbeResult) : CacheBlock cfg.cacheType :=
  TagArray.touchedLine cfg (cfg.blockAddr addr) time (cfg.sectorIndex m.accessSectorMask) p.status
    (c.tagArray.lines p.idx)

/-- **The five ways an access can end**, with the core it leaves. -/
inductive AccessCase {cfg : CacheConfig} (c : Cache cfg) (cls : CacheClass) (addr : NewAddrType)
    (mf : Token) (time : Time) : CacheRequestStatus → Core cfg → Prop
  /-- There was no room for the request. -/
  | refused : AccessCase c cls addr mf time .reservationFail c.core
  /-- The block is there. -/
  | hit (p : ProbeResult) (hprobe : c.Probes addr (c.mfs mf) p) (hstatus : p.status = .hit)
      (hqueue : cfg.deferHitResponse = true → c.hitResponseQueueFull = false)
      (line : CacheBlock cfg.cacheType) (forward : Bool)
      (heffect : HitEffect cfg cls (c.mfs mf) time (cfg.sectorIndex (c.mfs mf).accessSectorMask)
        (c.tagArray.lines p.idx) line forward)
      (hroom : forward = true → c.missQueueFull 0 = false) :
      AccessCase c cls addr mf time .hit
        (((c.core.setLine p.idx line).enqueueIf forward mf).respond mf p.idx)
  /-- A write that misses is forwarded, without allocation. -/
  | forward (p : ProbeResult) (hprobe : c.Probes addr (c.mfs mf) p) (hstatus : p.status ≠ .hit)
      (hwrite : (c.mfs mf).isWrite = true) (types : DataCacheTypes) (hcls : cls = .dataCache types)
      (hpolicy : cfg.writeAllocPolicy = .noWriteAllocate) (hroom : c.missQueueFull 0 = false) :
      AccessCase c cls addr mf time .miss (c.core.enqueue mf)
  /-- A write that misses is written into the line at once. -/
  | write (p : ProbeResult) (hprobe : c.Probes addr (c.mfs mf) p)
      (hstatus : p.status = .hitReserved ∨ p.status = .miss ∨ p.status = .sectorMiss)
      (hwrite : (c.mfs mf).isWrite = true) (types : DataCacheTypes) (hcls : cls = .dataCache types)
      (hi : cfg.getSectorIndex (c.mfs mf).accessSectorMask =
        .ok (cfg.sectorIndex (c.mfs mf).accessSectorMask))
      (line : CacheBlock cfg.cacheType) (forward : Bool)
      (heffect : WriteEffect cfg (c.mfs mf) (cfg.sectorIndex (c.mfs mf).accessSectorMask) p.status
        (c.touched addr (c.mfs mf) time p) line forward)
      (hroom : c.missQueueFull 0 = false) :
      AccessCase c cls addr mf time .miss
        (((c.core.enqueueIf forward mf).setLine p.idx line).sendOwn
          (writebackOf cfg cls (c.mfs mf) p.status (c.tagArray.lines p.idx)))
  /-- The block, or the sector, is fetched, or waits for a fetch that is under way. -/
  | fetch (p : ProbeResult) (hprobe : c.Probes addr (c.mfs mf) p)
      (hstatus : p.status = .hitReserved ∨ p.status = .miss ∨ p.status = .sectorMiss)
      (hi : p.status ≠ .miss ∨ cfg.allocPolicy = .onMiss →
        cfg.getSectorIndex (c.mfs mf).accessSectorMask =
          .ok (cfg.sectorIndex (c.mfs mf).accessSectorMask))
      (reader : Token) (s : Core cfg)
      (written : CacheBlock cfg.cacheType → CacheBlock cfg.cacheType)
      (hfetcher : Fetcher cfg cls mf c.core reader s written)
      (hjoin : ∀ l, c.mshrs.data.lookup (cfg.mshrAddr (c.mfs mf).addr) = some l →
        l.length < cfg.mshrMaxMerge)
      (hnew : c.mshrs.data.lookup (cfg.mshrAddr (c.mfs mf).addr) = none →
        c.mshrs.data.entries.length < cfg.mshrEntries ∧ 0 < cfg.mshrMaxMerge ∧
          s.missQueue.length < cfg.missQueueSize)
      (hroom : ∀ types, cls = .dataCache types → s.missQueue.length + 1 < cfg.missQueueSize) :
      AccessCase c cls addr mf time .miss
        (let s' := (s.setLine p.idx (c.touched addr (c.mfs mf) time p)).miss
          (cfg.mshrAddr (c.mfs mf).addr) reader p.idx
        (s'.setLine p.idx (written (s'.lines p.idx))).sendOwn
          (writebackOf cfg cls (c.mfs mf) p.status (c.tagArray.lines p.idx)))

/-- Where the fields of a fetch come from: they were remembered before the access, or the access has
made them for the line of its probe. -/
theorem AccessCase.extra_origin {cfg : CacheConfig} {c : Cache cfg} {cls : CacheClass}
    {addr : NewAddrType} {mf t : Token} {time : Time} {status : CacheRequestStatus} {s' : Core cfg}
    {e : ExtraMfFields} (hcase : AccessCase c cls addr mf time status s')
    (he : s'.extra.lookup t = some e) :
    c.core.extra.lookup t = some e ∨ ∃ p, c.Probes addr (c.mfs mf) p ∧
      (p.status = .hitReserved ∨ p.status = .miss ∨ p.status = .sectorMiss) ∧
      ∃ ad size, e = ExtraMfFields.new cfg (cfg.mshrAddr (c.mfs mf).addr) ad p.idx size := by
  cases hcase with
  | refused => exact Or.inl he
  | hit => exact Or.inl (by simpa [Core.setLine] using he)
  | forward => exact Or.inl he
  | write => exact Or.inl (by simpa [Core.setLine] using he)
  | fetch p hp hs _ reader s written hfetcher =>
      rw [(Core.sendOwn_frame _ _).2.2.2.1] at he
      rcases Core.extra_of_miss he with he | ⟨-, -, he⟩
      · exact Or.inl (hfetcher.frame.2.2.2.1 ▸ he)
      · exact Or.inr ⟨p, hp, hs, _, _, he⟩

/-! ### The tenant of a line -/

/-- What identifies the tenant of a line and counts its pins: all that a write, a fill, a hit or a
flush leaves alone. -/
structure SameTenant {k : CacheType} (b b' : CacheBlock k) : Prop where
  tag : b'.tag = b.tag
  blockAddr : b'.blockAddr = b.blockAddr
  count : b'.pendingResponseCount = b.pendingResponseCount
  maxCount : b'.maxPendingResponseCount = b.maxPendingResponseCount

namespace SameTenant

variable {k : CacheType} {b b' b'' : CacheBlock k}

theorem refl (b : CacheBlock k) : SameTenant b b := ⟨rfl, rfl, rfl, rfl⟩

theorem trans (h : SameTenant b b') (h' : SameTenant b' b'') : SameTenant b b'' :=
  ⟨h'.tag.trans h.tag, h'.blockAddr.trans h.blockAddr, h'.count.trans h.count,
    h'.maxCount.trans h.maxCount⟩

theorem modifySector (h : SameTenant b b') (i : Fin 4) (f : SectorState → SectorState) :
    SameTenant b (b'.modifySector i f) :=
  ⟨h.tag, h.blockAddr, h.count, h.maxCount⟩

theorem putByteMaskOnFill (h : SameTenant b b') (modified : Bool) :
    SameTenant b (b'.putByteMaskOnFill modified) :=
  ⟨h.tag, h.blockAddr, h.count, h.maxCount⟩

theorem marked (h : SameTenant b b') (m : MemFetch) (i : Fin 4) : SameTenant b (b'.marked m i) :=
  ⟨h.tag, h.blockAddr, h.count, h.maxCount⟩

theorem readableUpdated (h : SameTenant b b') (m : MemFetch) (i : Fin 4) :
    SameTenant b (b'.readableUpdated m i) := by
  unfold CacheBlock.readableUpdated
  split
  · exact h.modifySector i _
  · exact h

theorem fullWritten (b : CacheBlock k) (m : MemFetch) (i : Fin 4) (status : CacheRequestStatus) :
    SameTenant b (b.fullWritten m i status) := by
  have hmark : SameTenant b (b.marked m i) := (refl b).marked m i
  unfold CacheBlock.fullWritten
  split
  · exact hmark.modifySector i _
  · exact hmark

theorem lazyWritten (b : CacheBlock k) (m : MemFetch) (i : Fin 4) (status : CacheRequestStatus)
    (atomSz : ℕ) : SameTenant b (b.lazyWritten m i status atomSz) := by
  have hmark : SameTenant b (b.marked m i) := (refl b).marked m i
  by_cases hs : status = .hitReserved
  · have hflags := ((hmark.modifySector i fun s => { s with ignoreOnFillStatus :=
      true }).modifySector
      i fun s => { s with setModifiedOnFill := true }).putByteMaskOnFill true
    simp only [CacheBlock.lazyWritten, if_pos hs]
    split
    · exact (hflags.modifySector i _).readableUpdated m i
    · exact ((hflags.modifySector i _).modifySector i _).readableUpdated m i
  · simp only [CacheBlock.lazyWritten, if_neg hs]
    split
    · exact (hmark.modifySector i _).readableUpdated m i
    · exact (hmark.modifySector i _).readableUpdated m i

theorem fill (b : CacheBlock k) (i : Fin 4) (byteMask : MemAccessByteMask) :
    SameTenant b (b.fill i byteMask) := by
  unfold CacheBlock.fill
  dsimp only
  split <;> exact ⟨rfl, rfl, rfl, rfl⟩

theorem hitEffect {cfg : CacheConfig} {cls : CacheClass} {m : MemFetch} {time : Time} {i : Fin 4}
    {b line : CacheBlock cfg.cacheType} {forward : Bool}
    (h : HitEffect cfg cls m time i b line forward) : SameTenant b line := by
  cases h with
  | read => exact ⟨rfl, rfl, rfl, rfl⟩
  | write =>
      have htime : SameTenant b (b.setLastAccessTime time) := ⟨rfl, rfl, rfl, rfl⟩
      exact (htime.marked m i).readableUpdated m i
  | evict => exact (refl b).modifySector i _

theorem writeEffect {cfg : CacheConfig} {m : MemFetch} {i : Fin 4} {status : CacheRequestStatus}
    {b line : CacheBlock cfg.cacheType} {forward : Bool}
    (h : WriteEffect cfg m i status b line forward) : SameTenant b line := by
  cases h with
  | full => exact fullWritten b m i status
  | onRead => exact lazyWritten b m i status cfg.atomSz

theorem fetcher {cfg : CacheConfig} {cls : CacheClass} {mf reader : Token} {s s' : Core cfg}
    {written : CacheBlock cfg.cacheType → CacheBlock cfg.cacheType}
    (h : Fetcher cfg cls mf s reader s' written) (b : CacheBlock cfg.cacheType) :
    SameTenant b (written b) := by
  cases h <;> exact ⟨rfl, rfl, rfl, rfl⟩

/-- An access that finds its block, or its line, leaves the tenant. -/
theorem touchedLine {cfg : CacheConfig} {addr : NewAddrType} {time : Time} {i : Fin 4}
    {status : CacheRequestStatus} (h : status ≠ .miss ∨ cfg.allocPolicy ≠ .onMiss)
    (b : CacheBlock cfg.cacheType) :
    SameTenant b (TagArray.touchedLine cfg addr time i status b) := by
  cases status with
  | miss =>
      have hon : cfg.allocPolicy ≠ .onMiss := h.resolve_left (by simp)
      rw [TagArray.touchedLine, if_neg hon]
      exact refl b
  | sectorMiss =>
      rw [TagArray.touchedLine]
      split <;> exact ⟨rfl, rfl, rfl, rfl⟩
  | hit => exact ⟨rfl, rfl, rfl, rfl⟩
  | hitReserved => exact ⟨rfl, rfl, rfl, rfl⟩
  | reservationFail => exact refl b
  | mshrHit => exact refl b

/-- A flush or an invalidation leaves the tenants. -/
theorem invalidateLine {cfg : CacheConfig} (b : CacheBlock cfg.cacheType) :
    SameTenant b (TagArray.invalidateLine b) := by
  unfold TagArray.invalidateLine
  have hfold : ∀ (js : List (Fin 4)) (b' : CacheBlock cfg.cacheType), SameTenant b b' →
      SameTenant b (js.foldl (fun b i => b.setStatus .invalid i) b') := by
    intro js
    induction js with
    | nil => exact fun _ h => h
    | cons j js ih => exact fun b' h => ih _ (h.modifySector j _)
  exact hfold _ b (refl b)

theorem flush {cfg : CacheConfig} (ta : TagArray cfg) (i : ℕ) :
    SameTenant (ta.lines i) (ta.flush.lines i) := by
  unfold TagArray.flush
  split
  · dsimp only
    split
    · exact invalidateLine _
    · exact refl _
  · exact refl _

theorem invalidate {cfg : CacheConfig} (ta : TagArray cfg) (i : ℕ) :
    SameTenant (ta.lines i) (ta.invalidate.lines i) := by
  unfold TagArray.invalidate
  dsimp only
  split
  · exact invalidateLine _
  · exact refl _

end SameTenant

/-- An allocation gives the line to the block of the request, with no pin. -/
theorem CacheBlock.allocate_tenant {k : CacheType} (b : CacheBlock k)
    (tag blockAddr : NewAddrType) (time : Time) (i : Fin 4) :
    (b.allocate tag blockAddr time i).tag = tag ∧
      (b.allocate tag blockAddr time i).blockAddr = blockAddr ∧
      (b.allocate tag blockAddr time i).pendingResponseCount = 0 := by
  rcases b with ⟨_, _, _, _, _, _, _, _, ⟨s⟩ | ⟨s⟩⟩ <;> exact ⟨rfl, rfl, rfl⟩

/-- The victim of a miss has no pin. -/
theorem TagArray.count_of_miss {cfg : CacheConfig} {ta : TagArray cfg} {addr : NewAddrType}
    {idx : ℕ} {mask : MemAccessSectorMask} {isWrite : Bool} {p : ProbeResult}
    (hp : ta.probe addr idx mask isWrite = .ok p) (hs : p.status = .miss) :
    (ta.lines p.idx).pendingResponseCount = 0 := by
  obtain ⟨setIndex, -, hprobed⟩ := TagArray.probed_of_probe hp
  have he := (hprobed.miss hs).2
  simp only [eligible, CacheBlock.isPinned, Bool.and_eq_true, Bool.not_eq_true'] at he
  simpa using he.1.1

end OpenCache
