/-
The cache blocks: `cache_block_t` and its two classes `line_cache_block` and `sector_cache_block`.

A block of either class is a `CacheBlock k`, with the class as the index `k`: the members that the
two classes declare alike (tag, times, dirty byte mask, reference count) are fields, and the members
that a line block has once and a sector block has once per sector are a `SectorState`.  The index
makes it impossible for a tag array to mix the two classes.  The fill times and the times of single
sectors are written but never read by the source, and are left out.

* `OpenCache.CacheBlock.allocate`, `OpenCache.CacheBlock.allocateSector`,
  `OpenCache.CacheBlock.fill` — the three transitions of a block;
* `OpenCache.CacheBlock.pin`, `OpenCache.CacheBlock.unpin` — the reference count;
* `OpenCache.CacheBlock.sectorAt_modifySector` — what an update of one sector does to another;
* `OpenCache.CacheBlock.isInvalidLine_iff` and its companions — the state of a line in terms of its
  sectors, for both classes at once.
-/

import OpenCache.Types
import Mathlib.Logic.Function.Basic

set_option relaxedAutoImplicit false
set_option autoImplicit false

namespace OpenCache

/-- The members that `line_cache_block` has once and `sector_cache_block` once per sector. -/
structure SectorState where
  status : CacheBlockState
  ignoreOnFillStatus : Bool
  setModifiedOnFill : Bool
  setReadableOnFill : Bool
  readable : Bool

/-- The state set by the constructors and by `sector_cache_block::init`. -/
def SectorState.init : SectorState := ⟨.invalid, false, false, false, true⟩

/-- The sectors of a block: one state for a line block, four for a sector block. -/
inductive BlockSectors : CacheType → Type
  | line (s : SectorState) : BlockSectors .normal
  | sector (s : Fin 4 → SectorState) : BlockSectors .sector

namespace BlockSectors

variable {k : CacheType}

/-- The state that governs sector `i`. -/
def get : BlockSectors k → Fin 4 → SectorState
  | line s, _ => s
  | sector s, i => s i

/-- Update the state that governs sector `i`. -/
def modify : BlockSectors k → Fin 4 → (SectorState → SectorState) → BlockSectors k
  | line s, _, f => line (f s)
  | sector s, i, f => sector (Function.update s i (f (s i)))

/-- The sectors of a block that was never allocated. -/
def init : (k : CacheType) → BlockSectors k
  | .normal => line SectorState.init
  | .sector => sector fun _ => SectorState.init

/-- Updating one sector changes another exactly when they share their state. -/
theorem get_modify (s : BlockSectors k) (i j : Fin 4) (f : SectorState → SectorState) :
    (s.modify i f).get j = if k = .normal ∨ i = j then f (s.get j) else s.get j := by
  cases s with
  | line s => simp [modify, get]
  | sector s =>
      by_cases hij : i = j
      · subst hij
        simp [modify, get]
      · simp [modify, get, hij, Function.update_of_ne (Ne.symm hij)]

@[simp] theorem get_modify_self (s : BlockSectors k) (i : Fin 4) (f : SectorState → SectorState) :
    (s.modify i f).get i = f (s.get i) := by
  simp [get_modify]

@[simp] theorem get_init (k : CacheType) (i : Fin 4) : (init k).get i = SectorState.init := by
  cases k <;> rfl

end BlockSectors

/-- A cache block of class `k`. -/
structure CacheBlock (k : CacheType) where
  tag : NewAddrType
  blockAddr : NewAddrType
  allocTime : Time
  lastAccessTime : Time
  setByteMaskOnFill : Bool
  pendingResponseCount : ℕ
  maxPendingResponseCount : ℕ
  dirtyByteMask : MemAccessByteMask
  sectors : BlockSectors k

namespace CacheBlock

variable {k : CacheType}

/-- The constructors.  They leave `m_set_byte_mask_on_fill` unset; `allocate` sets it before the
first fill. -/
def init (k : CacheType) : CacheBlock k where
  tag := 0
  blockAddr := 0
  allocTime := 0
  lastAccessTime := 0
  setByteMaskOnFill := false
  pendingResponseCount := 0
  maxPendingResponseCount := 0
  dirtyByteMask := ∅
  sectors := BlockSectors.init k

/-- The state that governs sector `i`. -/
def sectorAt (b : CacheBlock k) (i : Fin 4) : SectorState := b.sectors.get i

/-- Update the state that governs sector `i`. -/
def modifySector (b : CacheBlock k) (i : Fin 4) (f : SectorState → SectorState) : CacheBlock k :=
  { b with sectors := b.sectors.modify i f }

/-! ### Queries -/

/-- `get_status`. -/
def getStatus (b : CacheBlock k) (i : Fin 4) : CacheBlockState := (b.sectorAt i).status

/-- `is_invalid_line`. -/
def isInvalidLine (b : CacheBlock k) : Bool :=
  match k, b.sectors with
  | .normal, .line s => s.status = .invalid
  | .sector, .sector s => ∀ i, (s i).status = .invalid

/-- `is_valid_line`: a line block compares its status with `VALID`, a sector block denies
`is_invalid_line`. -/
def isValidLine (b : CacheBlock k) : Bool :=
  match k, b.sectors with
  | .normal, .line s => s.status = .valid
  | .sector, .sector s => ¬∀ i, (s i).status = .invalid

/-- `is_reserved_line`. -/
def isReservedLine (b : CacheBlock k) : Bool :=
  match k, b.sectors with
  | .normal, .line s => s.status = .reserved
  | .sector, .sector s => ∃ i, (s i).status = .reserved

/-- `is_modified_line`. -/
def isModifiedLine (b : CacheBlock k) : Bool :=
  match k, b.sectors with
  | .normal, .line s => s.status = .modified
  | .sector, .sector s => ∃ i, (s i).status = .modified

/-- `is_readable`. -/
def isReadable (b : CacheBlock k) (i : Fin 4) : Bool := (b.sectorAt i).readable

/-- `is_pinned`. -/
def isPinned (b : CacheBlock k) : Bool := b.pendingResponseCount ≠ 0

/-- `get_dirty_sector_mask`. -/
def getDirtySectorMask (b : CacheBlock k) : MemAccessSectorMask :=
  match k, b.sectors with
  | .normal, .line s => if s.status = .modified then Finset.univ else ∅
  | .sector, .sector s => Finset.univ.filter fun i => (s i).status = .modified

/-- `get_modified_size`: for a line block the constant `SECTOR_CHUNCK_SIZE * SECTOR_SIZE`. -/
def getModifiedSize (b : CacheBlock k) : ℕ :=
  match k, b.sectors with
  | .normal, .line _ => sectorChunckSize * sectorSize
  | .sector, .sector s => (Finset.univ.filter fun i => (s i).status = .modified).card * sectorSize

/-! ### Updates -/

/-- `set_status`. -/
def setStatus (b : CacheBlock k) (status : CacheBlockState) (i : Fin 4) : CacheBlock k :=
  b.modifySector i fun s => { s with status }

/-- `set_ignore_on_fill`. -/
def setIgnoreOnFill (b : CacheBlock k) (ignore : Bool) (i : Fin 4) : CacheBlock k :=
  b.modifySector i fun s => { s with ignoreOnFillStatus := ignore }

/-- `set_modified_on_fill`. -/
def setModifiedOnFill (b : CacheBlock k) (modified : Bool) (i : Fin 4) : CacheBlock k :=
  b.modifySector i fun s => { s with setModifiedOnFill := modified }

/-- `set_readable_on_fill`. -/
def setReadableOnFill (b : CacheBlock k) (readable : Bool) (i : Fin 4) : CacheBlock k :=
  b.modifySector i fun s => { s with setReadableOnFill := readable }

/-- `set_m_readable`. -/
def setMReadable (b : CacheBlock k) (readable : Bool) (i : Fin 4) : CacheBlock k :=
  b.modifySector i fun s => { s with readable }

/-- `set_byte_mask_on_fill`. -/
def putByteMaskOnFill (b : CacheBlock k) (modified : Bool) : CacheBlock k :=
  { b with setByteMaskOnFill := modified }

/-- `set_byte_mask`. -/
def setByteMask (b : CacheBlock k) (byteMask : MemAccessByteMask) : CacheBlock k :=
  { b with dirtyByteMask := b.dirtyByteMask ∪ byteMask }

/-- `set_last_access_time`. -/
def setLastAccessTime (b : CacheBlock k) (time : Time) : CacheBlock k :=
  { b with lastAccessTime := time }

/-- `pin`. -/
def pin (b : CacheBlock k) : CacheBlock k :=
  { b with
    pendingResponseCount := b.pendingResponseCount + 1
    maxPendingResponseCount := max b.maxPendingResponseCount (b.pendingResponseCount + 1) }

/-- `unpin`. -/
def unpin (b : CacheBlock k) : Step (CacheBlock k) := do
  assertThat (0 < b.pendingResponseCount) .unpinZero
  return { b with pendingResponseCount := b.pendingResponseCount - 1 }

/-- The state of a sector that has just been allocated with its line. -/
def reserveSector (s : SectorState) : SectorState :=
  { s with status := .reserved, ignoreOnFillStatus := false, setModifiedOnFill := false,
           setReadableOnFill := false }

/-- `allocate`.  `sector_cache_block::allocate_line` starts with `init()`, which clears every
sector and the dirty byte mask; `line_cache_block::allocate` keeps the dirty byte mask and the
readable flag of the previous tenant. -/
def allocate (b : CacheBlock k) (tag blockAddr : NewAddrType) (time : Time) (i : Fin 4) :
    CacheBlock k :=
  match k, b.sectors with
  | .normal, .line s =>
      { b with
        tag, blockAddr
        allocTime := time
        lastAccessTime := time
        setByteMaskOnFill := false
        pendingResponseCount := 0
        maxPendingResponseCount := 0
        sectors := .line (reserveSector s) }
  | .sector, .sector _ =>
      { tag, blockAddr
        allocTime := time
        lastAccessTime := time
        setByteMaskOnFill := false
        pendingResponseCount := 0
        maxPendingResponseCount := 0
        dirtyByteMask := ∅
        sectors := (BlockSectors.init .sector).modify i reserveSector }

/-- The state of a sector that `allocate_sector` has reserved: a modified sector is modified again
by the fill. -/
def reserveSectorAgain (s : SectorState) : SectorState :=
  { status := .reserved
    ignoreOnFillStatus := false
    setModifiedOnFill := s.status = .modified
    setReadableOnFill := false
    readable := true }

/-- `sector_cache_block::allocate_sector`. -/
def allocateSector (b : CacheBlock k) (time : Time) (i : Fin 4) : Step (CacheBlock k) := do
  assertThat (b.isValidLine = true) .allocateSectorInvalidLine
  return { b.modifySector i reserveSectorAgain with lastAccessTime := time }

/-- The state of a sector after its fill.  Only `sector_cache_block::fill` clears
`m_set_readable_on_fill`. -/
def fillSector (k : CacheType) (s : SectorState) : SectorState :=
  { s with
    status := if s.setModifiedOnFill then .modified else .valid
    readable := if s.setReadableOnFill then true else s.readable
    setReadableOnFill :=
      match k with
      | .normal => s.setReadableOnFill
      | .sector => false }

/-- `fill`. -/
def fill (b : CacheBlock k) (i : Fin 4) (byteMask : MemAccessByteMask) : CacheBlock k :=
  let b := b.modifySector i (fillSector k)
  if b.setByteMaskOnFill then b.setByteMask byteMask else b

/-! ### The sectors of an updated block -/

theorem sectorAt_modifySector (b : CacheBlock k) (i j : Fin 4) (f : SectorState → SectorState) :
    (b.modifySector i f).sectorAt j =
      if k = .normal ∨ i = j then f (b.sectorAt j) else b.sectorAt j :=
  BlockSectors.get_modify _ _ _ _

/-- Two updates of one sector are one. -/
theorem modifySector_modifySector (b : CacheBlock k) (i : Fin 4) (f g : SectorState → SectorState) :
    (b.modifySector i f).modifySector i g = b.modifySector i (g ∘ f) := by
  rcases b with ⟨_, _, _, _, _, _, _, _, ⟨s⟩ | ⟨s⟩⟩ <;>
    simp [modifySector, BlockSectors.modify]

@[simp] theorem setMReadable_setMReadable (b : CacheBlock k) (r r' : Bool) (i : Fin 4) :
    (b.setMReadable r i).setMReadable r' i = b.setMReadable r' i :=
  modifySector_modifySector b i _ _

@[simp] theorem sectorAt_modifySector_self (b : CacheBlock k) (i : Fin 4)
    (f : SectorState → SectorState) : (b.modifySector i f).sectorAt i = f (b.sectorAt i) :=
  BlockSectors.get_modify_self _ _ _

@[simp] theorem sectorAt_setByteMask (b : CacheBlock k) (m : MemAccessByteMask) (i : Fin 4) :
    (b.setByteMask m).sectorAt i = b.sectorAt i := rfl

@[simp] theorem sectorAt_init (i : Fin 4) : (init k).sectorAt i = SectorState.init :=
  BlockSectors.get_init k i

/-- All the sectors of a line block share their state. -/
theorem sectorAt_normal (b : CacheBlock .normal) (i j : Fin 4) : b.sectorAt i = b.sectorAt j := by
  rcases b with ⟨_, _, _, _, _, _, _, _, ⟨s⟩⟩
  rfl

/-- `sectorAt_normal`, for a class that is known to be that of the line blocks. -/
theorem sectorAt_of_normal (b : CacheBlock k) (h : k = .normal) (i j : Fin 4) :
    b.sectorAt i = b.sectorAt j := by
  subst h
  exact b.sectorAt_normal i j

/-! ### The state of a line -/

theorem isInvalidLine_iff (b : CacheBlock k) :
    b.isInvalidLine = true ↔ ∀ i, b.getStatus i = .invalid := by
  rcases b with ⟨_, _, _, _, _, _, _, _, ⟨s⟩ | ⟨s⟩⟩ <;>
    simp [isInvalidLine, getStatus, sectorAt, BlockSectors.get]

theorem isReservedLine_iff (b : CacheBlock k) :
    b.isReservedLine = true ↔ ∃ i, b.getStatus i = .reserved := by
  rcases b with ⟨_, _, _, _, _, _, _, _, ⟨s⟩ | ⟨s⟩⟩ <;>
    simp [isReservedLine, getStatus, sectorAt, BlockSectors.get]

theorem isModifiedLine_iff (b : CacheBlock k) :
    b.isModifiedLine = true ↔ ∃ i, b.getStatus i = .modified := by
  rcases b with ⟨_, _, _, _, _, _, _, _, ⟨s⟩ | ⟨s⟩⟩ <;>
    simp [isModifiedLine, getStatus, sectorAt, BlockSectors.get]

/-- A line with an invalid sector is valid, in the sense of either class, when it is not invalid. -/
theorem isValidLine_of_invalid {b : CacheBlock k} {i : Fin 4} (h : b.getStatus i = .invalid) :
    b.isValidLine = !b.isInvalidLine := by
  rcases b with ⟨_, _, _, _, _, _, _, _, ⟨s⟩ | ⟨s⟩⟩
  · have hs : s.status = .invalid := h
    simp [isValidLine, isInvalidLine, hs]
  · simp only [isValidLine, isInvalidLine, decide_not]

theorem mem_getDirtySectorMask (b : CacheBlock k) (i : Fin 4) :
    i ∈ b.getDirtySectorMask ↔ b.getStatus i = .modified := by
  rcases b with ⟨_, _, _, _, _, _, _, _, ⟨s⟩ | ⟨s⟩⟩
  · simp only [getDirtySectorMask, getStatus, sectorAt, BlockSectors.get]
    split <;> simp_all
  · simp [getDirtySectorMask, getStatus, sectorAt, BlockSectors.get]

end CacheBlock

end OpenCache
