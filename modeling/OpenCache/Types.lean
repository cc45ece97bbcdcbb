/-
The basic types of the cache model: addresses, masks, requests and the enumerations of
`gpgpusim_cache/gpgpu_cache/gpu_cache_ref.h` and `gpgpu_stubs.h`.

`std::bitset` masks are finite sets of bit positions, `new_addr_type` is a 64-bit word and the
`unsigned` times and counters whose overflow the code can observe are 32-bit words.  A `mem_fetch *`
is a `Token`: the pointers the caller passes in and the ones the cache allocates with `new` are
kept apart, since `new` never returns a live pointer.

* `OpenCache.MemFetch` — the fields of a `mem_fetch` that the caches read or write;
* `OpenCache.Abort` — the assertions and calls of `abort()` that end the program.

`mem_fetch::isatomic()` is the constant `false` in `gpgpu_stubs.h`, so the branches it guards are
not part of the model.
-/

import Mathlib.Algebra.GroupWithZero.Nat
import Mathlib.Data.Finset.Card
import Mathlib.Data.Fintype.Basic
import Mathlib.Data.Fintype.Fin

set_option relaxedAutoImplicit false
set_option autoImplicit false

namespace OpenCache

/-! ### Words and masks -/

/-- `new_addr_type`. -/
abbrev NewAddrType := BitVec 64

instance : LawfulBEq NewAddrType := inferInstance

/-- The `unsigned time` of the simulator. -/
abbrev Time := BitVec 32

/-- `SECTOR_SIZE`. -/
abbrev sectorSize : ℕ := 32

/-- `SECTOR_CHUNCK_SIZE`. -/
abbrev sectorChunckSize : ℕ := 4

/-- `mem_access_byte_mask_t`: the set bits of a `bitset<MAX_MEMORY_ACCESS_SIZE>`. -/
abbrev MemAccessByteMask := Finset (Fin 128)

/-- `mem_access_sector_mask_t`: the set bits of a `bitset<SECTOR_CHUNCK_SIZE>`. -/
abbrev MemAccessSectorMask := Finset (Fin 4)

/-- A line has a first sector. -/
instance sectors_neZero : NeZero 4 := ⟨by decide⟩

/-- The byte positions of sector `i` of a line: `i * SECTOR_SIZE ≤ k < (i + 1) * SECTOR_SIZE`. -/
def sectorBytes (i : Fin 4) : MemAccessByteMask :=
  Finset.univ.filter fun k => i.val * sectorSize ≤ k.val ∧ k.val < (i.val + 1) * sectorSize

theorem mem_sectorBytes {i : Fin 4} {k : Fin 128} :
    k ∈ sectorBytes i ↔ i.val * 32 ≤ k.val ∧ k.val < (i.val + 1) * 32 := by
  simp [sectorBytes]

/-- A byte position lies in one sector only. -/
theorem eq_of_mem_sectorBytes {i j : Fin 4} {k : Fin 128} (hi : k ∈ sectorBytes i)
    (hj : k ∈ sectorBytes j) : i = j := by
  rw [mem_sectorBytes] at hi hj
  omega

/-! ### Enumerations -/

/-- `enum cache_block_state`. -/
inductive CacheBlockState
  | invalid
  | reserved
  | valid
  | modified
  deriving DecidableEq, Repr

/-- `enum cache_request_status`. -/
inductive CacheRequestStatus
  | hit
  | hitReserved
  | miss
  | reservationFail
  | sectorMiss
  | mshrHit
  deriving DecidableEq, Repr

/-- `enum cache_reservation_fail_reason`. -/
inductive CacheReservationFailReason
  | lineAllocFail
  | missQueueFull
  | mshrEnrtyFail
  | mshrMergeEnrtyFail
  | mshrRwPending
  | linePinnedFail
  | hitResponseQueueFull
  deriving DecidableEq, Repr

/-- `enum cache_event_type`. -/
inductive CacheEventType
  | writeBackRequestSent
  | readRequestSent
  | writeRequestSent
  | writeAllocateSent
  deriving DecidableEq, Repr

/-- `enum mem_access_type`. -/
inductive MemAccessType
  | globalAccR
  | localAccR
  | constAccR
  | textureAccR
  | globalAccW
  | localAccW
  | l1WrbkAcc
  | l2WrbkAcc
  | instAccR
  | l1WrAllocR
  | l2WrAllocR
  deriving DecidableEq, Repr

/-- `enum replacement_policy_t`. -/
inductive ReplacementPolicy
  | lru
  | fifo
  deriving DecidableEq, Repr

/-- `enum write_policy_t`. -/
inductive WritePolicy
  | readOnly
  | writeBack
  | writeThrough
  | writeEvict
  | localWbGlobalWt
  deriving DecidableEq, Repr

/-- `enum allocation_policy_t`. -/
inductive AllocationPolicy
  | onMiss
  | onFill
  | streaming
  deriving DecidableEq, Repr

/-- `enum write_allocate_policy_t`. -/
inductive WriteAllocatePolicy
  | noWriteAllocate
  | writeAllocate
  | fetchOnWrite
  | lazyFetchOnRead
  deriving DecidableEq, Repr

/-- `enum mshr_config_t`. -/
inductive MshrConfig
  | texFifo
  | assoc
  | sectorTexFifo
  | sectorAssoc
  deriving DecidableEq, Repr

/-- `enum set_index_function`. -/
inductive SetIndexFunction
  | linearSetFunction
  | bitwiseXoringFunction
  | hashIpolyFunction
  | fermiHashSetFunction
  | customSetFunction
  deriving DecidableEq, Repr

/-- `enum cache_type`. -/
inductive CacheType
  | normal
  | sector
  deriving DecidableEq, Repr

/-! ### Requests -/

/-- A `mem_fetch *`. -/
inductive Token
  /-- A request of the caller (or a response of the lower level). -/
  | caller (n : ℕ)
  /-- The `n`-th request the cache allocated: a write-allocate read or a write-back. -/
  | created (n : ℕ)
  deriving DecidableEq, Repr

/-- The fields of a `mem_fetch` that the caches use.  `set_addr` and `set_data_size` write `addr`
and `dataSize`; everything else is fixed when the request is built, and both constructors of
`mem_access_t` leave a sector in the mask. -/
structure MemFetch where
  accessType : MemAccessType
  addr : NewAddrType
  dataSize : ℕ
  isWrite : Bool
  accessByteMask : MemAccessByteMask
  accessSectorMask : MemAccessSectorMask
  accessSectorMask_nonempty : accessSectorMask.Nonempty
  streamID : ℕ
  originalMf : Option Token
  originalWrMf : Option Token

/-- The sector mask a `mem_access_t` is built with: an empty mask becomes `{0}`. -/
def memAccessSectorMask (sectorMask : MemAccessSectorMask) : MemAccessSectorMask :=
  if sectorMask.card = 0 then {0} else sectorMask

theorem memAccessSectorMask_nonempty (m : MemAccessSectorMask) :
    (memAccessSectorMask m).Nonempty := by
  unfold memAccessSectorMask
  split
  · exact Finset.singleton_nonempty 0
  · next h => exact Finset.card_ne_zero.1 h

/-- The constructor of `mem_fetch`, with `mem_access_t`'s repair of the sector mask. -/
def MemFetch.new (accessType : MemAccessType) (addr : NewAddrType) (dataSize : ℕ) (isWrite : Bool)
    (byteMask : MemAccessByteMask) (sectorMask : MemAccessSectorMask) (streamID : ℕ)
    (originalMf originalWrMf : Option Token) : MemFetch where
  accessType
  addr
  dataSize
  isWrite
  accessByteMask := byteMask
  accessSectorMask := memAccessSectorMask sectorMask
  accessSectorMask_nonempty := memAccessSectorMask_nonempty sectorMask
  streamID
  originalMf
  originalWrMf

/-- The sector mask of a request needs no repair. -/
theorem MemFetch.memAccessSectorMask_self (m : MemFetch) :
    memAccessSectorMask m.accessSectorMask = m.accessSectorMask :=
  if_neg (Finset.card_ne_zero.2 m.accessSectorMask_nonempty)

/-- `struct evicted_block_info`. -/
structure EvictedBlockInfo where
  blockAddr : NewAddrType
  modifiedSize : ℕ
  byteMask : MemAccessByteMask
  sectorMask : MemAccessSectorMask

/-- The default constructor of `evicted_block_info`. -/
def EvictedBlockInfo.empty : EvictedBlockInfo := ⟨0, 0, ∅, ∅⟩

/-- `struct cache_event`. -/
structure CacheEvent where
  cacheEventType : CacheEventType
  evictedBlock : EvictedBlockInfo

/-- `cache_event(enum cache_event_type)`. -/
def CacheEvent.ofType (t : CacheEventType) : CacheEvent := ⟨t, EvictedBlockInfo.empty⟩

/-- `was_writeback_sent`: the first write-back event of the list. -/
def wasWritebackSent (events : List CacheEvent) : Option CacheEvent :=
  events.find? fun e => e.cacheEventType = .writeBackRequestSent

/-! ### Assertions -/

/-- The places where the program stops: failed assertions and calls of `abort()`. -/
inductive Abort
  /-- `exit_parse_error()` and the assertions of `cache_config::init`. -/
  | configInit
  /-- `cache_config::hash_function`: the number of sets must be 32 or 64. -/
  | fermiNset
  /-- `cache_config::hash_function`: `set_index < m_nset`. -/
  | setIndexOutOfBounds
  /-- `sector_cache_block::get_sector_index`: `sector_mask.count() == 1`. -/
  | sectorIndex
  /-- `sector_cache_block::allocate_sector`: `is_valid_line()`. -/
  | allocateSectorInvalidLine
  /-- `unpin`: `m_pending_response_count > 0`. -/
  | unpinZero
  /-- `tag_array::probe`: `m_alloc_policy == ON_MISS` when every way is reserved. -/
  | probeAllReserved
  /-- `tag_array::probe`: `abort()`, no replacement candidate. -/
  | probeNoCandidate
  /-- `tag_array::access`, `tag_array::fill`: `m_cache_type == SECTOR` on a `SECTOR_MISS`. -/
  | sectorMissInNormal
  /-- `tag_array::access`: `abort()`, an unknown status. -/
  | accessUnknownStatus
  /-- `tag_array::access` without eviction information: `!wb`. -/
  | unexpectedWriteback
  /-- `tag_array::fill(index)`: `m_alloc_policy == ON_MISS`. -/
  | fillByIndexPolicy
  /-- `mshr_table::add`: `m_data.size() <= m_num_entries`. -/
  | mshrAddEntries
  /-- `mshr_table::add`: `m_list.size() <= m_max_merged`. -/
  | mshrAddMerged
  /-- `mshr_table::mark_ready`: the entry exists. -/
  | markReadyNoEntry
  /-- `mshr_table::mark_ready`: `m_current_response.size() <= m_data.size()`. -/
  | markReadySize
  /-- `baseline_cache::next_access`: `access_ready()`. -/
  | nextAccessNotReady
  /-- `mshr_table::next_access`: `access_ready()`. -/
  | mshrNextAccessNotReady
  /-- `mshr_table::next_access`: the list of the entry is not empty. -/
  | nextAccessEmptyList
  /-- `baseline_cache::cycle`: `m_remaining_cycles > 0`. -/
  | remainingCyclesZero
  /-- `baseline_cache::fill`: `mf->get_original_mf()`. -/
  | fillNoOriginal
  /-- `baseline_cache::fill`: `e != m_extra_mf_fields.end()`. -/
  | fillNotWaiting
  /-- `baseline_cache::fill`: `e->second.m_valid`. -/
  | fillNotValid
  /-- `baseline_cache::fill`: `abort()`, the allocation policy is neither of the two. -/
  | fillPolicy
  /-- `baseline_cache::send_read_request`: `assert(0)`. -/
  | sendReadRequestUnreachable
  /-- `data_cache::wr_miss_wa_naive`: `assert(0)`. -/
  | wrMissWaNaiveUnreachable
  /-- `data_cache::wr_miss_wa_naive`: `status == MISS` when a line is written back. -/
  | wrMissWaNaiveWriteback
  /-- `data_cache::wr_miss_wa_fetch_on_write`: `assert(0)`. -/
  | wrMissWaFetchOnWriteUnreachable
  /-- `data_cache::wr_miss_wa_fetch_on_write`: `status != HIT`. -/
  | wrMissWaFetchOnWriteHit
  /-- `data_cache::wr_miss_wa_lazy_fetch_on_read`: `m_status != HIT`. -/
  | wrMissWaLazyFetchOnReadHit
  /-- `bandwidth_management::use_data_port`: `assert(0)`. -/
  | useDataPortOutcome
  /-- `access`: `mf->get_data_size() <= m_config.get_atom_sz()`. -/
  | accessDataSize
  /-- `read_only_cache::access`: `m_write_policy == READ_ONLY`. -/
  | readOnlyPolicy
  /-- `read_only_cache::access`: `!mf->get_is_write()`. -/
  | readOnlyWrite
  /-- `data_cache::init`: a write policy other than `READ_ONLY`. -/
  | dataCacheReadOnly
  /-- `fifo::push`: `!full()`. -/
  | fifoPushFull
  /-- `fifo::pop`: `!empty()`. -/
  | fifoPopEmpty
  /-- `fifo::peek`: `index < m_size`. -/
  | fifoPeekIndex
  /-- `fifo::peek`: the slot was never written. -/
  | fifoPeekUnwritten
  /-- `tex_cache::access`: `mf->get_data_size() <= m_config.get_line_sz()`. -/
  | texAccessDataSize
  /-- `tex_cache::access`: `status != RESERVATION_FAIL`. -/
  | texAccessReservationFail
  /-- `tex_cache::access`: `status != HIT_RESERVED`. -/
  | texAccessHitReserved
  /-- `tex_cache::cycle`: `r.m_request == e.m_request`. -/
  | texCycleRobRequest
  /-- `tex_cache::cycle`: `r.m_index == e.m_cache_index`. -/
  | texCycleRobIndex
  /-- `tex_cache::cycle`: `m_cache[e.m_cache_index].m_valid`. -/
  | texCycleHitInvalid
  /-- `tex_cache::cycle`: the data block of a hit is the block of its request. -/
  | texCycleHitBlock
  /-- `tex_cache::fill`: `mf->get_original_mf()`. -/
  | texFillNoOriginal
  /-- `tex_cache::fill`: `e != m_extra_mf_fields.end()`. -/
  | texFillNotWaiting
  /-- `tex_cache::fill`: `e->second.m_valid`. -/
  | texFillNotValid
  /-- `tex_cache::fill`: `!m_rob.empty()`. -/
  | texFillRobEmpty
  /-- `tex_cache::fill`: `!r.m_ready`. -/
  | texFillReady
  /-- `tex_cache::fill`: `r.m_block_addr == m_config.block_addr(mf->get_addr())`. -/
  | texFillBlock
  deriving DecidableEq, Repr

/-- A step of the program: a result, or the assertion that failed. -/
abbrev Step (α : Type) := Except Abort α

/-- `assert(p)`. -/
def assertThat (p : Prop) [Decidable p] (a : Abort) : Step Unit :=
  if p then .ok () else .error a

theorem assertThat_eq_ok {p : Prop} [Decidable p] {a : Abort} {u : Unit} :
    assertThat p a = .ok u ↔ p := by
  unfold assertThat
  split <;> simp_all

theorem assertThat_of {p : Prop} [Decidable p] (a : Abort) (h : p) : assertThat p a = .ok () :=
  if_pos h

/-- A sequence of two steps succeeds when the first does and the second does on its result. -/
theorem bind_eq_ok {α β : Type} {x : Step α} {f : α → Step β} {b : β} :
    x >>= f = .ok b ↔ ∃ a, x = .ok a ∧ f a = .ok b := by
  cases x with
  | error e =>
      constructor
      · intro h
        cases h
      · rintro ⟨a, h, -⟩
        cases h
  | ok a =>
      constructor
      · intro h
        exact ⟨a, rfl, h⟩
      · rintro ⟨a', h, h'⟩
        cases h
        exact h'

/-- A sequence of two steps fails when the first does, or the second on its result. -/
theorem bind_eq_error {α β : Type} {x : Step α} {f : α → Step β} {e : Abort} :
    x >>= f = .error e ↔ x = .error e ∨ ∃ a, x = .ok a ∧ f a = .error e := by
  cases x with
  | error e' =>
      constructor
      · intro h
        cases h
        exact Or.inl rfl
      · rintro (h | ⟨a, h, -⟩)
        · cases h
          rfl
        · cases h
  | ok a =>
      constructor
      · intro h
        exact Or.inr ⟨a, rfl, h⟩
      · rintro (h | ⟨a', h, h'⟩)
        · cases h
        · cases h
          exact h'

end OpenCache
