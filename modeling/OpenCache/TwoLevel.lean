/-
`SimpleTwoLevel`: a read-only cache over a DRAM, with the bytes in two data stores.

The cache knows tags and states only.  The bytes are in `l1_data` and `dram_data`, and the answer of
the cache decides which of the two a read looks at.  A write goes to `l1_data` and leaves the tags;
a read that misses takes its line from `dram_data`, and puts it over the one in `l1_data`.

* `OpenCache.DataStore` — blocks of bytes;
* `OpenCache.SimpleTwoLevel`, `read`, `write` — the two levels;
* `OpenCache.SimpleTwoLevel.Idle` — **the cache invariant**: between two calls nothing is under way;
* `OpenCache.SimpleTwoLevel.Remembers` — **the data invariant**: the two stores show
  the last writes;
* `OpenCache.reads_return_last_writes_iff` — when an accepted read returns the last writes;
* `OpenCache.missing_read_loses_write` — a write that is lost.
-/

import OpenCache.Returns
import OpenCache.WriteHistory
import Mathlib.Data.List.GetD

set_option relaxedAutoImplicit false
set_option autoImplicit false

namespace OpenCache

/-! ### The data stores -/

/-- `DataStore`: the bytes that are kept for a block address. -/
structure DataStore where
  storage : NewAddrType → Option (List UInt8)

namespace DataStore

/-- The constructor. -/
def empty : DataStore := ⟨fun _ => none⟩

/-- `resize` of a vector that is too short. -/
def grown (v : List UInt8) (size : ℕ) : List UInt8 := v ++ List.replicate (size - v.length) 0

/-- `write`. -/
def write (d : DataStore) (blockAddr : NewAddrType) (data : List UInt8) (size : ℕ) : DataStore :=
  let entry := grown ((d.storage blockAddr).getD []) size
  ⟨Function.update d.storage blockAddr (some (data.take size ++ entry.drop size))⟩

/-- `read`. -/
def read (d : DataStore) (blockAddr : NewAddrType) (size : ℕ) : List UInt8 :=
  match d.storage blockAddr with
  | none => List.replicate size 0
  | some v => grown v size

/-- `contains`. -/
def contains (d : DataStore) (blockAddr : NewAddrType) : Bool := (d.storage blockAddr).isSome

/-- A byte of a block, which is zero where nothing is stored. -/
def byte (d : DataStore) (blockAddr : NewAddrType) (k : ℕ) : UInt8 :=
  ((d.storage blockAddr).getD []).getD k 0

variable (d : DataStore) {blockAddr : NewAddrType} {data : List UInt8} {size : ℕ}

theorem getD_grown (v : List UInt8) (size k : ℕ) : (grown v size).getD k 0 = v.getD k 0 := by
  unfold grown
  by_cases hk : k < v.length
  · rw [List.getD_append _ _ _ _ hk]
  · rw [List.getD_append_right _ _ _ _ (Nat.le_of_not_lt hk),
      List.getD_eq_default _ _ (Nat.le_of_not_lt hk)]
    by_cases hz : k - v.length < size - v.length
    · rw [List.getD_replicate _ hz]
    · exact List.getD_eq_default _ _ (by simpa using Nat.le_of_not_lt hz)

theorem length_grown (v : List UInt8) (size : ℕ) : size ≤ (grown v size).length := by
  rw [grown, List.length_append, List.length_replicate]
  omega

theorem getD_read (k : ℕ) : (d.read blockAddr size).getD k 0 = d.byte blockAddr k := by
  unfold read byte
  cases d.storage blockAddr with
  | none => exact getD_grown [] size k
  | some v => exact getD_grown v size k

theorem length_read : size ≤ (d.read blockAddr size).length := by
  unfold read
  cases d.storage blockAddr with
  | none => exact length_grown [] size
  | some v => exact length_grown v size

@[simp] theorem contains_write_self : (d.write blockAddr data size).contains blockAddr = true := by
  simp [contains, write]

theorem storage_write_of_ne {b : NewAddrType} (h : b ≠ blockAddr) :
    (d.write blockAddr data size).storage b = d.storage b :=
  Function.update_of_ne h _ _

theorem contains_write_of_ne {b : NewAddrType} (h : b ≠ blockAddr) :
    (d.write blockAddr data size).contains b = d.contains b := by
  rw [contains, storage_write_of_ne d h, contains]

theorem byte_write_of_ne {b : NewAddrType} (h : b ≠ blockAddr) (k : ℕ) :
    (d.write blockAddr data size).byte b k = d.byte b k := by
  rw [byte, storage_write_of_ne d h, byte]

/-- The first bytes of a block after a write. -/
theorem byte_write_self {k : ℕ} (hsize : size ≤ data.length) (hk : k < size) :
    (d.write blockAddr data size).byte blockAddr k = data.getD k 0 := by
  have hlength : k < (data.take size).length := by
    rw [List.length_take]
    omega
  have hentry : (d.write blockAddr data size).storage blockAddr =
      some (data.take size ++ (grown ((d.storage blockAddr).getD []) size).drop size) :=
    Function.update_self _ _ _
  rw [byte, hentry, Option.getD_some, List.getD_append _ _ _ _ hlength,
    List.getD_eq_getElem _ _ hlength, List.getElem_take, List.getD_eq_getElem]

end DataStore

/-! ### The two levels -/

/-- The members of `SimpleTwoLevel`: the two stores, the cache, the queue of `dram_if`, and the
number of requests that were built. -/
structure SimpleTwoLevel (cfg : CacheConfig) where
  l1Data : DataStore
  dramData : DataStore
  cache : Cache cfg
  dramIf : List Token
  built : ℕ

/-- The place of an address in its line. -/
def CacheConfig.offset (cfg : CacheConfig) (addr : NewAddrType) : ℕ :=
  (addr - cfg.blockAddr addr).toNat

namespace SimpleTwoLevel

variable {cfg : CacheConfig}

/-- The constructor, and the contents of the DRAM. -/
def init (cfg : CacheConfig) (mfs : Token → MemFetch) (dramData : DataStore) :
    SimpleTwoLevel cfg :=
  ⟨.empty, dramData, Cache.init cfg mfs, [], 0⟩

/-- The request that `read` builds. -/
def request (addr : NewAddrType) (size : ℕ) : MemFetch :=
  .new .globalAccR addr size false ∅ {0} 0 none none

/-- Step 2 of `read`: the request goes through the cache. -/
def submit (s : SimpleTwoLevel cfg) (addr : NewAddrType) (size : ℕ) (cycle : Time) :
    Step (Cache.Handled cfg) :=
  let mf : Token := .caller s.built
  let cache := { s.cache with mfs := Function.update s.cache.mfs mf (request addr size) }
  cache.access .readOnlyCache addr mf cycle []

/-- The loop of `read` that takes the responses from the queue. -/
def fillAll (c : Cache cfg) (cycle : Time) : List Token → Step (Cache cfg)
  | [] => .ok c
  | resp :: rest => do
      let c ← c.fill resp cycle
      fillAll c cycle rest

/-- The line that a hit is answered from: a line that was never filled into `l1_data` is read from
the DRAM. -/
def hitLine (s : SimpleTwoLevel cfg) (blockAddr : NewAddrType) : List UInt8 :=
  if s.l1Data.contains blockAddr then s.l1Data.read blockAddr cfg.lineSz
  else s.dramData.read blockAddr cfg.lineSz

/-- Step 4 of `read`: where the bytes come from. -/
def process (s : SimpleTwoLevel cfg) (status : CacheRequestStatus) (addr : NewAddrType) (size : ℕ)
    (cycle : Time) : Step (SimpleTwoLevel cfg × Bool × List UInt8) :=
  let blockAddr := cfg.blockAddr addr
  let slice := fun full : List UInt8 => (full.drop (cfg.offset addr)).take size
  if status = .hit ∨ status = .hitReserved then
    .ok (s, true, slice (s.hitLine blockAddr))
  else if status = .miss ∨ status = .sectorMiss then do
    let full := s.dramData.read blockAddr cfg.lineSz
    let cache ← fillAll s.cache cycle s.dramIf
    return ({ s with l1Data := s.l1Data.write blockAddr full full.length, cache, dramIf := [] },
      false, slice full)
  -- `RESERVATION_FAIL`
  else .ok (s, false, List.replicate size 0)

/-- Step 5 of `read`, the loop over the ready requests, for at most `n` of them. -/
def drain : ℕ → Cache cfg → Step (Cache cfg)
  | 0, c => .ok c
  | n + 1, c =>
      if c.accessReady then do
        let (c, _) ← c.nextAccess
        drain n c
      else .ok c

/-- `read`.  No more requests can be ready than wait in the cache. -/
def read (s : SimpleTwoLevel cfg) (addr : NewAddrType) (size : ℕ) (cycle : Time) :
    Step (SimpleTwoLevel cfg × Bool × List UInt8) := do
  let (cache, status, _) ← s.submit addr size cycle
  -- `dram_if` has room for 256 requests
  let (cache, pushed) ← cache.cycle (decide (256 ≤ s.dramIf.length))
  let s := { s with cache, dramIf := s.dramIf ++ pushed.toList, built := s.built + 1 }
  let (s, isHit, result) ← s.process status addr size cycle
  let cache ← drain s.cache.core.waiting.length s.cache
  return ({ s with cache }, isHit, result)

/-- The loop of `write`: the bytes of the data go into the block, as far as its line reaches. -/
def applyAt (block : List UInt8) (k lineSz : ℕ) : List UInt8 → List UInt8
  | [] => block
  | d :: data => if k < lineSz then applyAt (block.set k d) (k + 1) lineSz data else block

/-- The existing block that `write` starts from, or zeros. -/
def existing (s : SimpleTwoLevel cfg) (blockAddr : NewAddrType) : List UInt8 :=
  if s.l1Data.contains blockAddr then s.l1Data.read blockAddr cfg.lineSz
  else if s.dramData.contains blockAddr then s.dramData.read blockAddr cfg.lineSz
  else List.replicate cfg.lineSz 0

/-- `write`. -/
def write (s : SimpleTwoLevel cfg) (addr : NewAddrType) (data : List UInt8) :
    SimpleTwoLevel cfg :=
  let blockAddr := cfg.blockAddr addr
  let block := applyAt (s.existing blockAddr) (cfg.offset addr) cfg.lineSz data
  { s with l1Data := s.l1Data.write blockAddr block cfg.lineSz }

/-! ### Runs -/

/-- The calls. -/
inductive Call
  | read (addr : NewAddrType) (size : ℕ) (cycle : Time)
  | write (addr : NewAddrType) (data : List UInt8)

/-- What is seen of a call. -/
inductive Seen
  | read (isHit : Bool) (result : List UInt8)
  | write (addr : NewAddrType) (data : List UInt8)

/-- One call. -/
def perform (s : SimpleTwoLevel cfg) : Call → Step (SimpleTwoLevel cfg × Seen)
  | .read addr size cycle => do
      let (s, isHit, result) ← s.read addr size cycle
      return (s, .read isHit result)
  | .write addr data => return (s.write addr data, .write addr data)

/-- The bytes of a request are in the line of its address. -/
def Inside (cfg : CacheConfig) (addr : NewAddrType) (size : ℕ) : Prop :=
  ∀ i < size, cfg.offset addr + i < cfg.lineSz ∧
    cfg.blockAddr (addr + BitVec.ofNat 64 i) = cfg.blockAddr addr

/-- The cache accepts a read. -/
def accepts (s : SimpleTwoLevel cfg) (addr : NewAddrType) (size : ℕ) (cycle : Time) : Bool :=
  (s.submit addr size cycle).toOption.any fun r => r.2.1 ≠ .reservationFail

/-- The tags hold the block of an address. -/
def tagsHit (s : SimpleTwoLevel cfg) (addr : NewAddrType) (size : ℕ) : Bool :=
  (System.answer ⟨s.cache, s.dramIf⟩ (request addr size)).any fun p => p.status = .hit

/-- The line of a block in `l1_data`, if there is one, is the one in `dram_data`. -/
def Agrees (s : SimpleTwoLevel cfg) (blockAddr : NewAddrType) : Prop :=
  s.l1Data.contains blockAddr = true →
    ∀ k < cfg.lineSz, s.l1Data.byte blockAddr k = s.dramData.byte blockAddr k

/-- The calls stay inside a line, and a read that misses finds no line in `l1_data` that differs
from the one it puts there. -/
def Careful (s : SimpleTwoLevel cfg) : Call → Prop
  | .read addr size cycle => Inside cfg addr size ∧
      (s.accepts addr size cycle = true → s.tagsHit addr size = false →
        s.Agrees (cfg.blockAddr addr))
  | .write addr data => Inside cfg addr data.length

/-- The runs. -/
abbrev Run (mfs : Token → MemFetch) (dramData : DataStore) :
    List Seen → SimpleTwoLevel cfg → Prop :=
  Runs.Run perform Careful (init cfg mfs dramData)

/-- The byte that a write has for an address. -/
def writtenAt (addr : NewAddrType) (data : List UInt8) (a : NewAddrType) : Option UInt8 :=
  data[(a - addr).toNat]?

/-- The byte that the last write to an address has written. -/
def lastWrite (trace : List Seen) (a : NewAddrType) : Option UInt8 :=
  trace.foldl (fun last seen =>
    match seen with
    | .read _ _ => last
    | .write addr data => (writtenAt addr data a).or last) none

/-- What a read of an address should return: the last byte written there, or the one in the DRAM. -/
def expected (cfg : CacheConfig) (dramData : DataStore) (trace : List Seen) (a : NewAddrType) :
    UInt8 :=
  (lastWrite trace a).getD (dramData.byte (cfg.blockAddr a) (cfg.offset a))

/-! ### The cache between two calls -/

/-- The cache has been called as its environment promises. -/
def Reached (mfs : Token → MemFetch) (c : Cache cfg) (below : List Token) : Prop :=
  ∃ trace, System.Run .readOnlyCache System.Promise (System.init cfg mfs) trace ⟨c, below⟩

/-- A response that is taken waits no longer. -/
theorem nextAccess_waiting {c c' : Cache cfg} {mf : Token} (h : c.nextAccess = .ok (c', mf)) :
    c.core.waiting.Perm (mf :: c'.core.waiting) ∧ c'.missQueue = c.missQueue := by
  have hunpin : ∀ s : Core cfg, (s.unpin mf).waiting = s.waiting := fun s => by
    simp [Core.waiting, Core.hitTokens]
  have hqueue : c'.missQueue = c'.core.missQueue := rfl
  obtain ⟨-, hor⟩ := Cache.nextAccess_core h
  rcases hor with ⟨rest, hready, hcore⟩ | ⟨-, a, others, rest, -, hentry, hcore⟩
  · rw [hqueue, hcore, hunpin, (Core.unpin_frame _ _).2.2.1]
    exact ⟨Core.ready_waiting hready, rfl⟩
  · have hdeliver : (c.core.deliver a rest).missQueue = c.core.missQueue := by
      unfold Core.deliver
      split <;> rfl
    rw [hqueue, hcore, hunpin, (Core.unpin_frame _ _).2.2.1, hdeliver]
    exact ⟨Core.deliver_waiting hentry, rfl⟩

/-- `cycle` sends the first request of the miss queue to a port that has room. -/
theorem cycle_sends {c c' : Cache cfg} {pushed : Option Token}
    (h : c.cycle false = .ok (c', pushed)) :
    pushed = c.missQueue.head? ∧ c'.missQueue = c.missQueue.tail ∧ c'.mfs = c.mfs ∧
      c'.core.extra = c.core.extra := by
  obtain ⟨⟨waiting, done⟩, -, h⟩ := bind_eq_ok.1 h
  cases hqueue : c.missQueue with
  | nil =>
      simp only [hqueue] at h
      cases h
      exact ⟨rfl, rfl, rfl, rfl⟩
  | cons mf rest =>
      simp only [hqueue] at h
      cases h
      exact ⟨rfl, rfl, rfl, rfl⟩

namespace Reached

variable {mfs : Token → MemFetch} {c c' : Cache cfg} {below : List Token}

/-- The loop over the ready requests ends, and then none is ready. -/
theorem drain (h : Reached mfs c below) {n : ℕ} (hn : c.core.waiting.length ≤ n) :
    ∃ c', SimpleTwoLevel.drain n c = .ok c' ∧ Reached mfs c' below ∧ c'.accessReady = false ∧
      c'.missQueue = c.missQueue ∧ ∀ t ∈ c'.core.waiting, t ∈ c.core.waiting := by
  induction n generalizing c with
  | zero =>
      refine ⟨c, rfl, h, ?_, rfl, fun _ ht => ht⟩
      by_contra hready
      rw [Bool.not_eq_false] at hready
      obtain ⟨trace, hrun⟩ := h
      obtain ⟨⟨c', mf⟩, hnext⟩ : ∃ r, c.nextAccess = .ok r := System.nextAccess_returns hrun hready
      have hlength := (nextAccess_waiting hnext).1.length_eq
      rw [List.length_cons] at hlength
      omega
  | succ n ih =>
      by_cases hready : c.accessReady = true
      · obtain ⟨trace, hrun⟩ := h
        obtain ⟨⟨c₁, mf⟩, hnext⟩ : ∃ r, c.nextAccess = .ok r :=
          System.nextAccess_returns hrun hready
        obtain ⟨hperm, hqueue⟩ := nextAccess_waiting hnext
        have hpromise : System.Promise ⟨c, below⟩ .nextAccess := hready
        have hstep : System.perform .readOnlyCache ⟨c, below⟩ .nextAccess = .ok (⟨c₁, below⟩, _) :=
          bind_eq_ok.2 ⟨_, hnext, rfl⟩
        have hlength := hperm.length_eq
        rw [List.length_cons] at hlength
        obtain ⟨c', hdrain, hreached, hdone, hqueue', hsub⟩ :=
          @ih c₁ ⟨_, .snoc hrun hpromise hstep⟩ (by omega)
        refine ⟨c', ?_, hreached, hdone, hqueue'.trans hqueue, fun t ht => ?_⟩
        · rw [SimpleTwoLevel.drain, if_pos hready]
          exact bind_eq_ok.2 ⟨_, hnext, hdrain⟩
        · exact hperm.symm.subset (List.mem_cons_of_mem _ (hsub t ht))
      · refine ⟨c, ?_, h, Bool.eq_false_iff.2 hready, rfl, fun _ ht => ht⟩
        rw [SimpleTwoLevel.drain, if_neg hready]

/-- `cycle` returns, and sends what is in the miss queue. -/
theorem cycle (h : Reached mfs c []) (hlength : c.missQueue.length ≤ 1) :
    ∃ c' pushed, c.cycle false = .ok (c', pushed) ∧ pushed.toList = c.missQueue ∧
      Reached mfs c' c.missQueue ∧ c'.missQueue = [] ∧ c'.mfs = c.mfs ∧
      c'.core.extra = c.core.extra ∧ ∀ t ∈ c'.core.waiting, t ∈ c.core.waiting := by
  obtain ⟨trace, hrun⟩ := h
  obtain ⟨⟨c', pushed⟩, hcycle⟩ : ∃ r, c.cycle false = .ok r := System.cycle_returns hrun false
  obtain ⟨hpushed, hqueue, hmfs, hextra⟩ := cycle_sends hcycle
  have hlist : pushed.toList = c.missQueue := by
    rw [hpushed]
    match c.missQueue, hlength with
    | [], _ => rfl
    | [_], _ => rfl
  refine ⟨c', pushed, hcycle, hlist, ⟨trace ++ [.cycle pushed], ?_⟩, ?_, hmfs, hextra,
    fun t ht => ?_⟩
  · have hstep : System.perform .readOnlyCache ⟨c, []⟩ (.cycle false) =
        .ok (⟨c', c.missQueue⟩, .cycle pushed) := by
      rw [← hlist]
      exact bind_eq_ok.2 ⟨_, hcycle, rfl⟩
    have hpromise : System.Promise ⟨c, []⟩ (.cycle false) := trivial
    exact .snoc hrun hpromise hstep
  · rw [hqueue]
    match c.missQueue, hlength with
    | [], _ => rfl
    | [_], _ => rfl
  · obtain ⟨waiting, done, htick, hor⟩ := Cache.cycle_core hcycle
    rcases hor with ⟨-, hcore⟩ | ⟨_, _, -, -, hcore⟩
    all_goals
      rw [hcore] at ht
      exact (Core.tick_waiting htick).subset ht

/-- `fill` returns, and nothing is below any more. -/
theorem fill {mf : Token} (h : Reached mfs c [mf]) (hnormal : cfg.cacheType = .normal)
    (hon : cfg.allocPolicy = .onMiss) (hassoc : cfg.mshrType ≠ .sectorAssoc)
    (hwaits : mf ∈ c.core.extra) (time : Time) :
    ∃ c', c.fill mf time = .ok c' ∧ Reached mfs c' [] ∧ c'.missQueue = c.missQueue ∧
      ∀ n, .caller n ∈ c'.core.waiting → .caller n ∈ c.core.waiting := by
  obtain ⟨trace, hrun⟩ := h
  have hmask : cfg.getSectorIndex (c.core.mfs mf).accessSectorMask = .ok 0 := by
    rw [CacheConfig.getSectorIndex, hnormal]
  obtain ⟨c', hfill⟩ : ∃ c', c.fill mf time = .ok c' :=
    System.fill_returns hrun hon hassoc hwaits hmask time
  have hpromise : System.Promise ⟨c, [mf]⟩ (.fill mf time) :=
    ⟨hassoc, List.mem_singleton_self _, AList.lookup_isSome.2 hwaits⟩
  have hstep : System.perform .readOnlyCache ⟨c, [mf]⟩ (.fill mf time) =
      .ok (⟨c', []⟩, .fill mf) := by
    refine bind_eq_ok.2 ⟨c', hfill, ?_⟩
    simp
    rfl
  refine ⟨c', hfill, ⟨_, .snoc hrun hpromise hstep⟩, ?_, fun n hn => ?_⟩
  · rw [Cache.fill, if_neg hassoc] at hfill
    obtain ⟨e, -, -, hor⟩ := Cache.fillComplete_core hfill
    have hqueue : c'.missQueue = c'.core.missQueue := rfl
    rcases hor with ⟨-, -, hcore⟩ | ⟨-, ta, -, hcore⟩
    · rw [hqueue, hcore]
      rfl
    · rw [hqueue, hcore]
      rfl
  · rcases System.mem_waiting_of_perform hpromise.suits hstep hn with hn | ⟨_, _, _, ho⟩
    · exact hn
    · cases ho

end Reached

/-- **The cache invariant**: between two calls no request is under way and none is ready. -/
structure Idle (mfs : Token → MemFetch) (s : SimpleTwoLevel cfg) : Prop where
  reached : Reached mfs s.cache []
  dramIf : s.dramIf = []
  missQueue : s.cache.missQueue = []
  drained : s.cache.accessReady = false
  fresh : ∀ n, .caller n ∈ s.cache.core.waiting → n < s.built

/-- What a read leaves in the miss queue: its request, if the tags do not hold the block. -/
inductive Submitted (s : SimpleTwoLevel cfg) (addr : NewAddrType) (size : ℕ) (c : Cache cfg) :
    CacheRequestStatus → Prop
  | refused (hqueue : c.missQueue = []) : Submitted s addr size c .reservationFail
  | hit (hhit : s.tagsHit addr size = true) (hqueue : c.missQueue = []) :
      Submitted s addr size c .hit
  | miss (hmiss : s.tagsHit addr size = false) (hqueue : c.missQueue = [.caller s.built])
      (hwaits : .caller s.built ∈ c.core.extra)
      (horiginal : (c.mfs (.caller s.built)).originalMf = none) : Submitted s addr size c .miss

namespace Idle

variable {mfs : Token → MemFetch} {s : SimpleTwoLevel cfg}

theorem init (mfs : Token → MemFetch) (dramData : DataStore) :
    Idle mfs (SimpleTwoLevel.init cfg mfs dramData) where
  reached := ⟨[], .nil⟩
  dramIf := rfl
  missQueue := rfl
  drained := rfl
  fresh n hn := by simp [SimpleTwoLevel.init, Core.waiting, Core.hitTokens, Cache.core, Cache.init,
    MshrTable.init, AList.values] at hn

/-- The MSHR table is empty. -/
theorem entries (h : Idle mfs s) (a : NewAddrType) : s.cache.core.entries.lookup a = none := by
  obtain ⟨trace, hrun⟩ := h.reached
  have htracked : Tracked s.cache.core (s.cache.missQueue ++ []) :=
    Tracked.of_run (hrun.mono fun _ _ h => h.answers)
  rw [h.missQueue] at htracked
  have hdrained : s.cache.mshrs.currentResponse = [] := by
    have hready := h.drained
    rw [Cache.accessReady, Bool.or_eq_false_iff] at hready
    simpa [MshrTable.accessReady] using hready.2
  have hanswered : s.cache.core.answered = [] := hdrained
  refine AList.lookup_eq_none.2 fun ha => ?_
  obtain ⟨t, e, he, -⟩ := htracked.fetched a ha (by simp [hanswered])
  cases htracked.mem_sent he

/-- The case distinction over the access of a read. -/
theorem submitted {addr : NewAddrType} {size : ℕ} {time : Time} {c₀ c : Cache cfg}
    {status : CacheRequestStatus}
    (hcase : AccessCase c₀ .readOnlyCache addr (.caller s.built) time status c.core)
    (hmf : c₀.mfs (.caller s.built) = request addr size) (hbefore : c₀.core.missQueue = [])
    (hentries : c₀.core.entries.lookup (cfg.mshrAddr addr) = none)
    (htags : ∀ p, c₀.Probes addr (request addr size) p →
      s.tagsHit addr size = decide (p.status = .hit)) : Submitted s addr size c status := by
  have hqueue : c.missQueue = c.core.missQueue := rfl
  have hobject : c.mfs (.caller s.built) = c.core.mfs (.caller s.built) := rfl
  generalize hcore : c.core = s' at hcase hqueue hobject
  cases hcase with
  | refused => exact .refused (hqueue.trans hbefore)
  | hit p hp hs _ line forward heffect =>
      rw [hmf] at hp heffect
      refine .hit ((htags p hp).trans (decide_eq_true hs)) ?_
      cases heffect with
      | read =>
          rw [hqueue, (Core.respond_frame _ _ _).2.2.1]
          exact hbefore
      | write hwrite => cases hwrite
      | evict hwrite => cases hwrite
  | forward p hp _ hwrite =>
      rw [hmf] at hwrite
      cases hwrite
  | write p hp _ hwrite =>
      rw [hmf] at hwrite
      cases hwrite
  | fetch p hp hs _ reader s₁ written hfetcher =>
      rw [hmf] at hp
      have hobject₀ : c₀.core.mfs (.caller s.built) = request addr size := hmf
      cases hfetcher with
      | read =>
          have hnone : (c₀.core.setLine p.idx (c₀.touched addr (c₀.mfs (.caller s.built)) time
              p)).entries.lookup (cfg.mshrAddr (c₀.mfs (.caller s.built)).addr) = none := by
            rw [hmf]
            exact hentries
          refine .miss ((htags p hp).trans (decide_eq_false ?_)) ?_ ?_ ?_
          · rcases hs with hs | hs | hs <;> simp [hs]
          · rw [hqueue, Core.miss_of_none hnone]
            simpa [Core.launch, Core.setLine, Core.join, writebackOf, Core.sendOwn] using hbefore
          · rw [hcore, Core.miss_of_none hnone]
            simp [Core.launch, Core.setLine, Core.join, writebackOf, Core.sendOwn]
          · rw [hobject, Core.miss_of_none hnone]
            simp [Core.launch, Core.setLine, Core.join, writebackOf, Core.sendOwn, hobject₀]
            rfl
      -- the other ways to fetch are those of writes
      | _ hwrite =>
          rw [hobject₀] at hwrite
          cases hwrite

/-- **The cache after the access of a read.** -/
theorem submit (h : Idle mfs s) {addr : NewAddrType} {size : ℕ} {time : Time} {c : Cache cfg}
    {status : CacheRequestStatus} {events : List CacheEvent}
    (hsubmit : s.submit addr size time = .ok (c, status, events)) :
    Reached mfs c [] ∧ (∀ n, .caller n ∈ c.core.waiting → n < s.built + 1) ∧
      Submitted s addr size c status := by
  obtain ⟨trace, hrun⟩ := h.reached
  have hpromise : System.Promise ⟨s.cache, []⟩ (.access s.built (request addr size) time []) := by
    intro hheld
    rw [System.held, System.sent] at hheld
    rcases List.mem_append.1 hheld with hwaits | hsent
    · exact absurd (h.fresh _ hwaits) (Nat.lt_irrefl _)
    · rw [h.missQueue] at hsent
      cases hsent
  have hstep : System.perform .readOnlyCache ⟨s.cache, []⟩
      (.access s.built (request addr size) time []) = .ok (⟨c, []⟩, _) :=
    bind_eq_ok.2 ⟨_, hsubmit, rfl⟩
  refine ⟨⟨_, .snoc hrun hpromise hstep⟩, fun n hn => ?_, ?_⟩
  · rcases System.mem_waiting_of_perform hpromise.suits hstep hn with hn | ⟨_, _, _, ho⟩
    · exact Nat.lt_succ_of_lt (h.fresh n hn)
    · cases ho
      exact Nat.lt_succ_self _
  · have hcase : AccessCase (System.build ⟨s.cache, []⟩ s.built (request addr size)) .readOnlyCache
        addr (.caller s.built) time status c.core := Cache.access_cases hsubmit
    have hmf : (System.build ⟨s.cache, []⟩ s.built (request addr size)).mfs (.caller s.built) =
        request addr size := System.build_mfs_caller _ _ _
    have hbefore : (System.build ⟨s.cache, []⟩ s.built (request addr size)).core.missQueue = [] :=
      h.missQueue
    have hentries : (System.build ⟨s.cache, []⟩ s.built (request addr size)).core.entries.lookup
        (cfg.mshrAddr addr) = none := h.entries _
    have htags : ∀ p, (System.build ⟨s.cache, []⟩ s.built (request addr size)).Probes addr
        (request addr size) p → s.tagsHit addr size = decide (p.status = .hit) := by
      intro p hp
      have hanswer : System.answer ⟨s.cache, s.dramIf⟩ (request addr size) = some p :=
        (System.answer_eq_some s.built).2 hp
      rw [tagsHit, hanswer]
      rfl
    exact submitted hcase hmf hbefore hentries htags

end Idle

/-! ### What a read returns -/

/-- The state of the two levels with another cache and no response in the queue. -/
def settled (s : SimpleTwoLevel cfg) (c : Cache cfg) : SimpleTwoLevel cfg :=
  { s with cache := c, dramIf := [], built := s.built + 1 }

namespace Idle

variable {mfs : Token → MemFetch} {s : SimpleTwoLevel cfg} {addr : NewAddrType} {size : ℕ}
  {time : Time} {c : Cache cfg} {status : CacheRequestStatus} {events : List CacheEvent}

/-- After the last loop of `read` nothing is under way. -/
theorem of_drain (hreached : Reached mfs c []) (hqueue : c.missQueue = [])
    (hfresh : ∀ n, .caller n ∈ c.core.waiting → n < s.built + 1) :
    ∃ c', drain c.core.waiting.length c = .ok c' ∧
      ∀ l1Data, Idle mfs { s.settled c' with l1Data } := by
  obtain ⟨c', hdrain, hreached', hdone, hqueue', hsub⟩ := hreached.drain le_rfl
  exact ⟨c', hdrain, fun _ => ⟨hreached', rfl, hqueue'.trans hqueue, hdone,
    fun n hn => hfresh n (hsub _ hn)⟩⟩

/-- A read that sends nothing. -/
theorem read_kept (h : Idle mfs s) (hsubmit : s.submit addr size time = .ok (c, status, events))
    (hqueue : c.missQueue = []) {isHit : Bool} {result : List UInt8}
    (hprocess : ∀ c₁, (s.settled c₁).process status addr size time =
      .ok (s.settled c₁, isHit, result)) :
    ∃ c', s.read addr size time = .ok (s.settled c', isHit, result) ∧ Idle mfs (s.settled c') := by
  obtain ⟨hreached, hfresh, -⟩ := h.submit hsubmit
  obtain ⟨c₁, pushed, hcycle, hpushed, hreached₁, hqueue₁, -, -, hsub⟩ :=
    hreached.cycle (by simp [hqueue])
  rw [hqueue] at hpushed hreached₁
  obtain ⟨c', hdrain, hidle⟩ := @of_drain _ _ s _ hreached₁ hqueue₁ fun n hn => hfresh n (hsub _ hn)
  refine ⟨c', ?_, hidle s.l1Data⟩
  refine bind_eq_ok.2 ⟨_, hsubmit, bind_eq_ok.2 ⟨(c₁, pushed), ?_, ?_⟩⟩
  · rw [h.dramIf]
    exact hcycle
  · have hbelow : s.dramIf ++ pushed.toList = [] := by
      rw [h.dramIf, hpushed]
      rfl
    dsimp only
    rw [hbelow]
    exact bind_eq_ok.2 ⟨_, hprocess c₁, bind_eq_ok.2 ⟨c', hdrain, rfl⟩⟩

/-- A read that misses, before the responses are taken. -/
theorem read_missed (h : Idle mfs s) (hsubmit : s.submit addr size time = .ok (c, .miss, events))
    (hqueue : c.missQueue = [.caller s.built]) :
    ∃ c₁, Reached mfs c₁ [.caller s.built] ∧ c₁.missQueue = [] ∧ c₁.mfs = c.mfs ∧
      c₁.core.extra = c.core.extra ∧ (∀ n, .caller n ∈ c₁.core.waiting → n < s.built + 1) ∧
      s.read addr size time = do
        let full := s.dramData.read (cfg.blockAddr addr) cfg.lineSz
        let c₂ ← c₁.fill (.caller s.built) time
        let c' ← drain c₂.core.waiting.length c₂
        return ({ s.settled c' with
          l1Data := s.l1Data.write (cfg.blockAddr addr) full full.length }, false,
            (full.drop (cfg.offset addr)).take size) := by
  obtain ⟨hreached, hfresh, -⟩ := h.submit hsubmit
  obtain ⟨c₁, pushed, hcycle, hpushed, hreached₁, hqueue₁, hmfs, hextra, hsub⟩ :=
    hreached.cycle (by simp [hqueue])
  rw [hqueue] at hpushed hreached₁
  refine ⟨c₁, hreached₁, hqueue₁, hmfs, hextra, fun n hn => hfresh n (hsub _ hn), ?_⟩
  have hcycle' : c.cycle (decide (256 ≤ s.dramIf.length)) = .ok (c₁, pushed) := by
    rw [h.dramIf]
    exact hcycle
  have hbelow : s.dramIf ++ pushed.toList = [.caller s.built] := by
    rw [h.dramIf, hpushed]
    rfl
  rw [read, hsubmit]
  change c.cycle (decide (256 ≤ s.dramIf.length)) >>= _ = _
  rw [hcycle']
  change process { s with cache := c₁, dramIf := s.dramIf ++ pushed.toList, built := s.built + 1 }
    .miss addr size time >>= _ = _
  rw [hbelow]
  cases hfill : c₁.fill (.caller s.built) time with
  | error e => simp [process, fillAll, hfill, bind, Except.bind]
  | ok c₂ => simp [process, fillAll, hfill, bind, Except.bind, pure, Except.pure, settled]

end Idle

/-! ### The bytes of a line -/

section Bytes

variable {addr a : NewAddrType} {size : ℕ} {data : List UInt8}

/-- The bytes of a request follow each other in the line. -/
theorem Inside.offset_add (h : Inside cfg addr size) (hline : cfg.lineSz < 2 ^ 32) {i : ℕ}
    (hi : i < size) : cfg.offset (addr + BitVec.ofNat 64 i) = cfg.offset addr + i := by
  obtain ⟨hlt, hblock⟩ := h i hi
  unfold CacheConfig.offset at *
  have hsub : addr + BitVec.ofNat 64 i - cfg.blockAddr addr =
      addr - cfg.blockAddr addr + BitVec.ofNat 64 i := by
    rw [BitVec.sub_eq_add_neg, BitVec.sub_eq_add_neg, BitVec.add_assoc,
      BitVec.add_comm (BitVec.ofNat 64 i), ← BitVec.add_assoc]
  rw [hblock, hsub, BitVec.toNat_add, BitVec.toNat_ofNat, Nat.add_mod_mod]
  exact Nat.mod_eq_of_lt (by omega)

/-- A write writes into its own block only. -/
theorem Inside.writtenAt_of_ne (h : Inside cfg addr data.length)
    (hne : cfg.blockAddr a ≠ cfg.blockAddr addr) : writtenAt addr data a = none := by
  refine List.getElem?_eq_none (Nat.le_of_not_lt fun hlt => hne ?_)
  have ha : addr + BitVec.ofNat 64 (a - addr).toNat = a := by
    rw [BitVec.ofNat_toNat, BitVec.setWidth_eq, BitVec.add_comm, BitVec.sub_add_cancel]
  have hblock := (h _ hlt).2
  rwa [ha] at hblock

/-- The byte that a write has for an address of its block. -/
theorem Inside.writtenAt_of_eq (h : Inside cfg addr data.length) (hline : cfg.lineSz < 2 ^ 32)
    (heq : cfg.blockAddr a = cfg.blockAddr addr) (ha : cfg.offset a < cfg.lineSz) :
    writtenAt addr data a =
      if cfg.offset addr ≤ cfg.offset a then data[cfg.offset a - cfg.offset addr]? else none := by
  have hsub : a - addr = (a - cfg.blockAddr a) - (addr - cfg.blockAddr addr) := by
    rw [heq]
    generalize cfg.blockAddr addr = b
    bv_omega
  have htoNat : (a - addr).toNat = (2 ^ 64 - cfg.offset addr + cfg.offset a) % 2 ^ 64 := by
    rw [hsub, BitVec.toNat_sub]
    rfl
  have hsmall : cfg.offset addr < 2 ^ 64 := BitVec.isLt _
  unfold writtenAt
  split
  · next hle =>
      have : (a - addr).toNat = cfg.offset a - cfg.offset addr := by omega
      rw [this]
  · next hlt =>
      refine List.getElem?_eq_none ?_
      by_cases hempty : data.length = 0
      · omega
      · have hlast := (h (data.length - 1) (by omega)).1
        omega

theorem length_applyAt (block : List UInt8) (k lineSz : ℕ) :
    (applyAt block k lineSz data).length = block.length := by
  induction data generalizing block k with
  | nil => rfl
  | cons d data ih =>
      rw [applyAt]
      split
      · rw [ih, List.length_set]
      · rfl

/-- The bytes of a block after the loop of `write`. -/
theorem getD_applyAt {block : List UInt8} {lineSz k : ℕ} (hlength : lineSz ≤ block.length)
    (hk : k < lineSz) (start : ℕ) :
    (applyAt block start lineSz data).getD k 0 =
      (if start ≤ k then data[k - start]? else none).getD (block.getD k 0) := by
  induction data generalizing block start with
  | nil => simp [applyAt]
  | cons d data ih =>
      rw [applyAt]
      split
      · next hstart =>
          rw [ih (by rwa [List.length_set])]
          by_cases hsame : start = k
          · subst hsame
            rw [if_neg (Nat.not_succ_le_self _), if_pos le_rfl, Nat.sub_self]
            simp [List.getD_eq_getElem?_getD, hstart.trans_le hlength]
          · have hother : (block.set start d).getD k 0 = block.getD k 0 := by
              rw [List.getD_eq_getElem?_getD, List.getElem?_set_ne hsame,
                ← List.getD_eq_getElem?_getD]
            rw [hother]
            by_cases hle : start ≤ k
            · rw [if_pos hle, if_pos (by omega), show k - start = k - (start + 1) + 1 by omega,
                List.getElem?_cons_succ]
            · rw [if_neg hle, if_neg (by omega)]
      · next hstart => rw [if_neg (by omega), Option.getD_none]

/-- The bytes that `read` cuts out of a line. -/
theorem slice_eq {full : List UInt8} {start : ℕ} (h : ∀ i < size, start + i < full.length) :
    (full.drop start).take size = (List.range size).map fun i => full.getD (start + i) 0 := by
  refine List.ext_getElem ?_ fun i hi hi' => ?_
  · rw [List.length_take, List.length_drop, List.length_map, List.length_range]
    cases size with
    | zero => exact Nat.zero_min _
    | succ n =>
        have hlast := h n (Nat.lt_succ_self n)
        omega
  · rw [List.length_map, List.length_range] at hi'
    rw [List.getElem_take, List.getElem_drop, List.getElem_map, List.getElem_range,
      List.getD_eq_getElem _ _ (h i hi')]

end Bytes

/-! ### What the stores show -/

/-- The byte that the two stores show for an address. -/
def current (s : SimpleTwoLevel cfg) (a : NewAddrType) : UInt8 :=
  if s.l1Data.contains (cfg.blockAddr a) then s.l1Data.byte (cfg.blockAddr a) (cfg.offset a)
  else s.dramData.byte (cfg.blockAddr a) (cfg.offset a)

theorem length_hitLine (s : SimpleTwoLevel cfg) (blockAddr : NewAddrType) :
    cfg.lineSz ≤ (s.hitLine blockAddr).length := by
  unfold hitLine
  split <;> exact DataStore.length_read _

/-- A hit is answered with the bytes that the stores show. -/
theorem getD_hitLine (s : SimpleTwoLevel cfg) (a : NewAddrType) :
    (s.hitLine (cfg.blockAddr a)).getD (cfg.offset a) 0 = s.current a := by
  unfold hitLine current
  split <;> exact DataStore.getD_read _ _

theorem length_existing (s : SimpleTwoLevel cfg) (blockAddr : NewAddrType) :
    cfg.lineSz ≤ (s.existing blockAddr).length := by
  unfold existing
  split
  · exact DataStore.length_read _
  · split
    · exact DataStore.length_read _
    · exact List.length_replicate.ge

/-- A write starts from the bytes that the stores show. -/
theorem getD_existing (s : SimpleTwoLevel cfg) {a : NewAddrType} (ha : cfg.offset a < cfg.lineSz) :
    (s.existing (cfg.blockAddr a)).getD (cfg.offset a) 0 = s.current a := by
  unfold existing current
  split
  · exact DataStore.getD_read _ _
  · split
    · exact DataStore.getD_read _ _
    · next hnone =>
        rw [DataStore.contains, Option.not_isSome_iff_eq_none] at hnone
        rw [List.getD_replicate _ ha, DataStore.byte, hnone]
        rfl

/-- **The data invariant**: the stores show the last writes. -/
structure Remembers (dramData : DataStore) (trace : List Seen) (s : SimpleTwoLevel cfg) : Prop where
  dram : s.dramData = dramData
  shows : ∀ a, cfg.offset a < cfg.lineSz → s.current a = expected cfg dramData trace a

theorem expected_read (dramData : DataStore) (trace : List Seen) (isHit : Bool)
    (result : List UInt8) (a : NewAddrType) :
    expected cfg dramData (trace ++ [.read isHit result]) a = expected cfg dramData trace a := by
  simp [expected, lastWrite]

theorem expected_write (dramData : DataStore) (trace : List Seen) (addr : NewAddrType)
    (data : List UInt8) (a : NewAddrType) :
    expected cfg dramData (trace ++ [.write addr data]) a =
      (writtenAt addr data a).getD (expected cfg dramData trace a) := by
  simp only [expected, lastWrite, List.foldl_append, List.foldl_cons, List.foldl_nil]
  cases writtenAt addr data a <;> rfl

namespace Remembers

variable {dramData : DataStore} {trace : List Seen} {s s' : SimpleTwoLevel cfg} {addr : NewAddrType}

theorem init (mfs : Token → MemFetch) (dramData : DataStore) :
    Remembers dramData [] (SimpleTwoLevel.init cfg mfs dramData) :=
  ⟨rfl, fun _ _ => rfl⟩

/-- A write goes into the line that the stores show. -/
theorem write (h : Remembers dramData trace s) (hline : cfg.lineSz < 2 ^ 32) {data : List UInt8}
    (hinside : Inside cfg addr data.length) :
    Remembers dramData (trace ++ [.write addr data]) (s.write addr data) := by
  refine ⟨h.dram, fun a ha => ?_⟩
  rw [expected_write, ← h.shows a ha]
  rw [current, SimpleTwoLevel.write]
  dsimp only
  by_cases heq : cfg.blockAddr a = cfg.blockAddr addr
  · have hafter : cfg.lineSz ≤ (applyAt (s.existing (cfg.blockAddr addr)) (cfg.offset addr)
        cfg.lineSz data).length := by
      rw [length_applyAt]
      exact s.length_existing _
    rw [hinside.writtenAt_of_eq hline heq ha, ← s.getD_existing ha, heq,
      ← getD_applyAt (s.length_existing _) ha, DataStore.contains_write_self, if_pos rfl]
    exact DataStore.byte_write_self _ hafter ha
  · rw [hinside.writtenAt_of_ne heq, Option.getD_none, DataStore.contains_write_of_ne _ heq,
      DataStore.byte_write_of_ne _ heq]
    rfl

/-- A read that leaves the stores. -/
theorem read_kept (h : Remembers dramData trace s) (c : Cache cfg) (isHit : Bool)
    (result : List UInt8) :
    Remembers dramData (trace ++ [.read isHit result]) (s.settled c) := by
  refine ⟨h.dram, fun a ha => ?_⟩
  rw [expected_read, ← h.shows a ha]
  rfl

/-- A read that takes a line from the DRAM over one that is the same. -/
theorem read_missed (h : Remembers dramData trace s) (hagrees : s.Agrees (cfg.blockAddr addr))
    (hl1 : s'.l1Data = s.l1Data.write (cfg.blockAddr addr)
      (s.dramData.read (cfg.blockAddr addr) cfg.lineSz)
      (s.dramData.read (cfg.blockAddr addr) cfg.lineSz).length)
    (hdram : s'.dramData = s.dramData) (isHit : Bool) (result : List UInt8) :
    Remembers dramData (trace ++ [.read isHit result]) s' := by
  refine ⟨hdram.trans h.dram, fun a ha => ?_⟩
  rw [expected_read, ← h.shows a ha]
  simp only [current, hl1, hdram]
  by_cases heq : cfg.blockAddr a = cfg.blockAddr addr
  · rw [heq, DataStore.contains_write_self, if_pos rfl, DataStore.byte_write_self _ le_rfl
      (ha.trans_le (DataStore.length_read _)), DataStore.getD_read]
    split
    · next hcontains => exact (hagrees hcontains _ ha).symm
    · rfl
  · rw [DataStore.contains_write_of_ne _ heq, DataStore.byte_write_of_ne _ heq]

end Remembers

/-! ### The cases of a read -/

/-- What `read` does, with the answer of the cache. -/
inductive ReadCase (mfs : Token → MemFetch) (s : SimpleTwoLevel cfg) (addr : NewAddrType)
    (size : ℕ) (time : Time) : CacheRequestStatus → Prop
  | refused (c : Cache cfg) (hidle : Idle mfs (s.settled c))
      (hread : s.read addr size time = .ok (s.settled c, false, List.replicate size 0)) :
      ReadCase mfs s addr size time .reservationFail
  | hit (htags : s.tagsHit addr size = true) (c : Cache cfg) (hidle : Idle mfs (s.settled c))
      (hread : s.read addr size time = .ok (s.settled c, true,
        (List.range size).map fun i => s.current (addr + BitVec.ofNat 64 i))) :
      ReadCase mfs s addr size time .hit
  | miss (htags : s.tagsHit addr size = false) (hassoc : cfg.mshrType ≠ .sectorAssoc)
      (c : Cache cfg)
      (s' : SimpleTwoLevel cfg) (hidle : Idle mfs s')
      (hl1 : s'.l1Data = s.l1Data.write (cfg.blockAddr addr)
        (s.dramData.read (cfg.blockAddr addr) cfg.lineSz)
        (s.dramData.read (cfg.blockAddr addr) cfg.lineSz).length)
      (hdram : s'.dramData = s.dramData)
      (hread : s.read addr size time = .ok (s', false, (List.range size).map fun i =>
        s.dramData.byte (cfg.blockAddr addr) (cfg.offset addr + i))) :
      ReadCase mfs s addr size time .miss
  | abort (htags : s.tagsHit addr size = false) (hassoc : cfg.mshrType = .sectorAssoc)
      (hread : s.read addr size time = .error .fillNoOriginal) : ReadCase mfs s addr size time .miss

theorem Idle.read_cases {mfs : Token → MemFetch} {s : SimpleTwoLevel cfg} (h : Idle mfs s)
    (hnormal : cfg.cacheType = .normal) (hon : cfg.allocPolicy = .onMiss)
    (hline : cfg.lineSz < 2 ^ 32) {addr : NewAddrType} {size : ℕ} {time : Time} {c : Cache cfg}
    {status : CacheRequestStatus} {events : List CacheEvent} (hinside : Inside cfg addr size)
    (hsubmit : s.submit addr size time = .ok (c, status, events)) :
    ReadCase mfs s addr size time status := by
  have hlong : ∀ full : List UInt8, cfg.lineSz ≤ full.length →
      ∀ i < size, cfg.offset addr + i < full.length := fun full hfull i hi =>
    (hinside i hi).1.trans_le hfull
  obtain ⟨-, -, hcase⟩ := h.submit hsubmit
  cases hcase with
  | refused hqueue =>
      obtain ⟨c', hread, hidle⟩ := h.read_kept hsubmit hqueue fun c₁ => rfl
      exact .refused c' hidle hread
  | hit htags hqueue =>
      have hprocess : ∀ c₁, (s.settled c₁).process .hit addr size time = .ok (s.settled c₁, true,
          ((s.hitLine (cfg.blockAddr addr)).drop (cfg.offset addr)).take size) := by
        intro c₁
        rw [process, if_pos (Or.inl rfl)]
        rfl
      obtain ⟨c', hread, hidle⟩ := h.read_kept hsubmit hqueue hprocess
      have hbytes : (List.range size).map (fun i => s.current (addr + BitVec.ofNat 64 i)) =
          (List.range size).map fun i =>
            (s.hitLine (cfg.blockAddr addr)).getD (cfg.offset addr + i) 0 := by
        refine List.map_congr_left fun i hi => ?_
        rw [List.mem_range] at hi
        rw [← getD_hitLine, (hinside i hi).2, hinside.offset_add hline hi]
      rw [slice_eq (hlong _ (s.length_hitLine _)), ← hbytes] at hread
      exact .hit htags c' hidle hread
  | miss htags hqueue hwaits horiginal =>
      obtain ⟨c₁, hreached, hqueue₁, hmfs, hextra, hfresh, hread⟩ := h.read_missed hsubmit hqueue
      by_cases hassoc : cfg.mshrType = .sectorAssoc
      · refine .abort htags hassoc ?_
        -- the backend answers with the request itself, which has no original
        have hfill : c₁.fill (.caller s.built) time = .error .fillNoOriginal := by
          rw [Cache.fill, if_pos hassoc, hmfs, horiginal]
        rw [hread, hfill]
        rfl
      · rw [← hextra] at hwaits
        obtain ⟨c₂, hfill, hreached₂, hqueue₂, hsub⟩ :=
          hreached.fill hnormal hon hassoc hwaits time
        obtain ⟨c', hdrain, hidle⟩ := @Idle.of_drain _ _ s _ hreached₂ (hqueue₂.trans hqueue₁)
          fun n hn => hfresh n (hsub n hn)
        refine .miss htags hassoc c' _ (hidle _) rfl rfl ?_
        have hbytes : ∀ i, (s.dramData.read (cfg.blockAddr addr) cfg.lineSz).getD
            (cfg.offset addr + i) 0 = s.dramData.byte (cfg.blockAddr addr) (cfg.offset addr + i) :=
          fun i => DataStore.getD_read _ _
        simp only [← hbytes]
        rw [hread, hfill, ← slice_eq (hlong _ (DataStore.length_read _))]
        exact bind_eq_ok.2 ⟨c₂, rfl, bind_eq_ok.2 ⟨c', hdrain, rfl⟩⟩

/-! ### Every run -/

/-- A read begins with an access that does not fail. -/
theorem submit_of_read {s : SimpleTwoLevel cfg} {addr : NewAddrType} {size : ℕ} {time : Time}
    {r : SimpleTwoLevel cfg × Bool × List UInt8} (h : s.read addr size time = .ok r) :
    ∃ c status events, s.submit addr size time = .ok (c, status, events) := by
  obtain ⟨⟨c, status, events⟩, hsubmit, -⟩ := bind_eq_ok.1 h
  exact ⟨c, status, events, hsubmit⟩

/-- Whether a read is accepted is seen from its access. -/
theorem accepts_of_submit {s : SimpleTwoLevel cfg} {addr : NewAddrType} {size : ℕ} {time : Time}
    {c : Cache cfg} {status : CacheRequestStatus} {events : List CacheEvent}
    (h : s.submit addr size time = .ok (c, status, events)) :
    s.accepts addr size time = decide (status ≠ .reservationFail) := by
  rw [accepts, h]
  rfl

section Run

variable {mfs : Token → MemFetch} {dramData : DataStore} {trace : List Seen}
  {s s' : SimpleTwoLevel cfg} {o : Call} {b : Seen}

/-- **One call keeps both invariants.** -/
theorem step (hnormal : cfg.cacheType = .normal) (hon : cfg.allocPolicy = .onMiss)
    (hline : cfg.lineSz < 2 ^ 32) (hidle : Idle mfs s) (hremembers : Remembers dramData trace s)
    (hcareful : s.Careful o) (hperform : s.perform o = .ok (s', b)) :
    Idle mfs s' ∧ Remembers dramData (trace ++ [b]) s' := by
  cases o with
  | write addr data =>
      cases hperform
      exact ⟨⟨hidle.reached, hidle.dramIf, hidle.missQueue, hidle.drained, hidle.fresh⟩,
        hremembers.write hline hcareful⟩
  | read addr size time =>
      obtain ⟨⟨s₁, isHit, result⟩, hread, hperform⟩ := bind_eq_ok.1 hperform
      cases hperform
      obtain ⟨c, status, events, hsubmit⟩ := submit_of_read hread
      have haccepts := accepts_of_submit hsubmit
      cases hidle.read_cases hnormal hon hline hcareful.1 hsubmit with
      | refused c hidle' hread' =>
          cases hread.symm.trans hread'
          exact ⟨hidle', hremembers.read_kept c _ _⟩
      | hit _ c hidle' hread' =>
          cases hread.symm.trans hread'
          exact ⟨hidle', hremembers.read_kept c _ _⟩
      | miss htags _ c s₂ hidle' hl1 hdram hread' =>
          cases hread.symm.trans hread'
          exact ⟨hidle', hremembers.read_missed (hcareful.2 haccepts htags) hl1 hdram _ _⟩
      | abort _ _ hread' => cases hread.symm.trans hread'

/-- **Both invariants hold in every run.** -/
theorem of_run (hnormal : cfg.cacheType = .normal) (hon : cfg.allocPolicy = .onMiss)
    (hline : cfg.lineSz < 2 ^ 32) (hrun : Run mfs dramData trace s) :
    Idle mfs s ∧ Remembers dramData trace s :=
  hrun.invariant (fun trace s => Idle mfs s ∧ Remembers dramData trace s)
    ⟨.init mfs dramData, .init mfs dramData⟩
    fun _ _ _ _ _ h hcareful => step hnormal hon hline h.1 h.2 hcareful

end Run

end SimpleTwoLevel

open SimpleTwoLevel in
/-- **An accepted read returns the last writes** — the byte last written to each address, or the one
in the DRAM — exactly when the tags hold its block, or it completes and the bytes that `l1_data` has
for it, if any, are those in the DRAM.  The state is that of any run in which no read that missed
has put a line over one that differed. -/
theorem reads_return_last_writes_iff {cfg : CacheConfig} {mfs : Token → MemFetch}
    {dramData : DataStore} {trace : List Seen} {s : SimpleTwoLevel cfg} (_haccepted : cfg.Accepted)
    (hnormal : cfg.cacheType = .normal) (_hpolicy : cfg.writePolicy = .readOnly)
    (hon : cfg.allocPolicy = .onMiss) (hline : cfg.lineSz < 2 ^ 32)
    (hrun : Run mfs dramData trace s) (addr : NewAddrType) (size : ℕ) (cycle : Time)
    (hinside : Inside cfg addr size) (haccepts : s.accepts addr size cycle = true) :
    (∃ s' isHit, s.read addr size cycle = .ok (s', isHit, (List.range size).map fun i =>
        expected cfg dramData trace (addr + BitVec.ofNat 64 i))) ↔
      s.tagsHit addr size = true ∨ cfg.mshrType ≠ .sectorAssoc ∧
        (s.l1Data.contains (cfg.blockAddr addr) = true → ∀ i < size,
          s.l1Data.byte (cfg.blockAddr addr) (cfg.offset addr + i) =
            s.dramData.byte (cfg.blockAddr addr) (cfg.offset addr + i)) := by
  obtain ⟨hidle, hremembers⟩ := of_run hnormal hon hline hrun
  have hexpected : ∀ i < size, expected cfg dramData trace (addr + BitVec.ofNat 64 i) =
      s.current (addr + BitVec.ofNat 64 i) := by
    intro i hi
    refine (hremembers.shows _ ?_).symm
    rw [hinside.offset_add hline hi]
    exact (hinside i hi).1
  obtain ⟨⟨c, status, events⟩, hsubmit⟩ : ∃ r, s.submit addr size cycle = .ok r := by
    cases hsubmit : s.submit addr size cycle with
    | error e =>
        rw [accepts, hsubmit] at haccepts
        cases haccepts
    | ok r => exact ⟨r, rfl⟩
  rw [accepts_of_submit hsubmit] at haccepts
  cases hidle.read_cases hnormal hon hline hinside hsubmit with
  | refused => cases haccepts
  | hit htags c' hidle' hread =>
      refine iff_of_true ⟨s.settled c', true, hread.trans ?_⟩ (Or.inl htags)
      have hbytes := List.map_congr_left fun i hi => (hexpected i (List.mem_range.1 hi)).symm
      rw [hbytes]
  | miss htags hassoc c' s' hidle' hl1 hdram hread =>
      -- a miss reads the DRAM, and the last write is in `l1_data` where that has the block
      have hbytes : ∀ i < size, (s.dramData.byte (cfg.blockAddr addr) (cfg.offset addr + i) =
            expected cfg dramData trace (addr + BitVec.ofNat 64 i) ↔
          (s.l1Data.contains (cfg.blockAddr addr) = true →
            s.l1Data.byte (cfg.blockAddr addr) (cfg.offset addr + i) =
              s.dramData.byte (cfg.blockAddr addr) (cfg.offset addr + i))) := by
        intro i hi
        rw [hexpected i hi, current, (hinside i hi).2, hinside.offset_add hline hi]
        split
        · next hcontains =>
            rw [eq_comm]
            exact ⟨fun h _ => h, fun h => h hcontains⟩
        · next hnone => exact iff_of_true rfl fun h => absurd h hnone
      constructor
      · rintro ⟨s₁, isHit, hread'⟩
        have hsame := congrArg (fun r => r.2.2) (Except.ok.inj (hread.symm.trans hread'))
        refine Or.inr ⟨hassoc, fun hcontains i hi => ?_⟩
        exact (hbytes i hi).1 (List.map_inj_left.1 hsame i (List.mem_range.2 hi)) hcontains
      · rintro (hhit | ⟨-, hagree⟩)
        · cases htags.symm.trans hhit
        · refine ⟨s', false, hread.trans ?_⟩
          have hsame := List.map_congr_left fun i hi =>
            (hbytes i (List.mem_range.1 hi)).2 fun h => hagree h i (List.mem_range.1 hi)
          rw [hsame]
  | abort htags hassoc hread =>
      refine iff_of_false ?_ ?_
      · rintro ⟨_, _, hread'⟩
        cases hread.symm.trans hread'
      · rintro (hhit | ⟨hne, -⟩)
        · cases htags.symm.trans hhit
        · exact hne hassoc

namespace SimpleTwoLevel

instance (cfg : CacheConfig) (addr : NewAddrType) (size : ℕ) : Decidable (Inside cfg addr size) :=
  inferInstanceAs (Decidable (∀ i < size, _ ∧ _))

instance {cfg : CacheConfig} (s : SimpleTwoLevel cfg) (blockAddr : NewAddrType) :
    Decidable (s.Agrees blockAddr) :=
  inferInstanceAs (Decidable (_ → ∀ k < cfg.lineSz, _ = _))

instance {cfg : CacheConfig} (s : SimpleTwoLevel cfg) (o : Call) : Decidable (s.Careful o) := by
  induction o using Call.casesOn <;> unfold Careful <;> infer_instance

end SimpleTwoLevel

open SimpleTwoLevel in
/-- A line is read, one of its bytes is written, and the line is hit. -/
theorem reads_return_last_writes_iff_hit :
    ∃ trace, ∃ s : SimpleTwoLevel (CacheConfig.small 'N' 'R' 'm' 'N' 1 true),
      Run (fun _ => MemFetch.load 0) (DataStore.empty.write 128 [3, 4, 5] 3) trace s ∧
      ∃ s' isHit, s.read 128 2 2 = .ok (s', isHit, [3, 7]) := by
  obtain ⟨trace, s, hrun, haccepts, htags, hexpected⟩ : ∃ trace,
      ∃ s : SimpleTwoLevel (CacheConfig.small 'N' 'R' 'm' 'N' 1 true),
        Run (fun _ => MemFetch.load 0) (DataStore.empty.write 128 [3, 4, 5] 3) trace s ∧
        s.accepts 128 2 2 = true ∧ s.tagsHit 128 2 = true ∧
        ((List.range 2).map fun i => expected (CacheConfig.small 'N' 'R' 'm' 'N' 1 true)
          (DataStore.empty.write 128 [3, 4, 5] 3) trace (128 + BitVec.ofNat 64 i)) = [3, 7] :=
    Runs.exists_run_of_exec [.read 128 1 0, .write 129 [7]] (by decide +kernel)
  have haccepted : (CacheConfig.small 'N' 'R' 'm' 'N' 1 true).Accepted :=
    CacheConfig.small_accepted (by decide) true
  obtain ⟨s', isHit, hread⟩ := (reads_return_last_writes_iff haccepted rfl rfl rfl (by decide) hrun
    128 2 2 (by decide) haccepts).2 (Or.inl htags)
  rw [hexpected] at hread
  exact ⟨trace, s, hrun, s', isHit, hread⟩

open SimpleTwoLevel in
/-- A byte is written before its line is read for the first time: the read returns what is in the
DRAM. -/
theorem missing_read_loses_write :
    (CacheConfig.small 'N' 'R' 'm' 'N' 1 true).Accepted ∧ ∃ trace,
      ∃ s : SimpleTwoLevel (CacheConfig.small 'N' 'R' 'm' 'N' 1 true),
        Run (fun _ => MemFetch.load 0) .empty trace s ∧
        Inside (CacheConfig.small 'N' 'R' 'm' 'N' 1 true) 0 1 ∧ s.accepts 0 1 1 = true ∧
        (s.read 0 1 1).toOption.map (fun r => r.2.2) = some [0] ∧
        ((List.range 1).map fun i => expected (CacheConfig.small 'N' 'R' 'm' 'N' 1 true) .empty
          trace (0 + BitVec.ofNat 64 i)) = [7] :=
  ⟨CacheConfig.small_accepted (by decide) true,
    Runs.exists_run_of_exec [.write 0 [7]] (by decide +kernel)⟩

end OpenCache
