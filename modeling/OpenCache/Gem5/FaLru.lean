/-
`FALRU`: a fully associative tag store that tracks caches of several sizes at once.

The blocks are in a doubly linked list, the most recently used first.  Each block has a mask of the
tracked caches in which it would be, and for each tracked cache there is a pointer to the last block
that it would hold.  A hash table finds the block of a tag.  What dereferences a null pointer, fails
an assertion or writes behind the end of a vector fails.

* `OpenCache.FALRU`, `OpenCache.FALRU.new` — the tag store, and its construction with `tagsInit`;
* `OpenCache.FALRU.registerTagExtractor` — what every block needs before a tag is inserted into it;
* `OpenCache.FALRU.accessBlock`, `OpenCache.FALRU.fill`, `OpenCache.FALRU.invalidate` — an access,
  the replacement of the last block, and an invalidation;
* `OpenCache.FALRU.check` — the sanity check of the debug build;
* `OpenCache.FALRU.Tidy` — the invariant: the list is an order of the blocks, and the masks and the
  boundaries are those of the places in it;
* `OpenCache.FALRU.Tidy.moveToHead`, `OpenCache.FALRU.Tidy.moveToTail` — **the moves keep it**;
* `OpenCache.FALRU.Tidy.check` — **under the invariant the sanity check does not panic**.
-/

import OpenCache.LinkedOrder
import OpenCache.LruStack
import Mathlib.Data.BitVec
import Mathlib.Data.Nat.Log
import Mathlib.Algebra.BigOperators.Group.List.Basic

set_option relaxedAutoImplicit false
set_option autoImplicit false

namespace OpenCache

/-- A bit for each of the tracked caches, the lowest for the smallest. -/
abbrev CachesMask := BitVec 32

/-- The key of the hash table. -/
structure TagHashKey where
  tag : BitVec 64
  secure : Bool
  deriving DecidableEq

/-- A function that gives the tag of an address. -/
abbrev TagExtractor := BitVec 64 → BitVec 64

/-- A block.  Its pointers are kept apart, in `Links`.  The callback `extractTag` is empty until one
is registered. -/
structure FALRUBlk where
  valid : Bool
  secure : Bool
  tag : BitVec 64
  extractTag : Option TagExtractor
  inCachesMask : CachesMask

namespace FALRUBlk

/-- An invalid block has the tag `MaxAddr`. -/
def empty : FALRUBlk := ⟨false, false, BitVec.allOnes 64, none, 0⟩

/-- `TaggedEntry::invalidate`. -/
def invalidate (blk : FALRUBlk) : FALRUBlk :=
  { blk with valid := false, secure := false, tag := BitVec.allOnes 64 }

/-- `TaggedEntry::insert`: the callback must not be empty, and the block must be invalid. -/
def insert (addr : BitVec 64) (secure : Bool) (blk : FALRUBlk) : Option FALRUBlk :=
  blk.extractTag.bind fun extractTag =>
    if blk.valid = false then
      some { blk with valid := true, tag := extractTag addr, secure := secure || blk.secure }
    else none

def key (blk : FALRUBlk) : TagHashKey := ⟨blk.tag, blk.secure⟩

end FALRUBlk

/-- The parameters, in bytes. -/
structure FALRUParams where
  size : ℕ
  blockSize : ℕ
  minTrackedCacheSize : ℕ

namespace FALRUParams

def numBlocks (p : FALRUParams) : ℕ := p.size / p.blockSize

def numTrackedCaches (p : FALRUParams) : ℕ :=
  if p.size > p.minTrackedCacheSize then Nat.log 2 p.size - Nat.log 2 p.minTrackedCacheSize else 0

/-- `mask(numTrackedCaches)`. -/
def inAllCachesMask (p : FALRUParams) : CachesMask := (1#32 <<< p.numTrackedCaches) - 1

end FALRUParams

/-- The counters of the tracked caches, the last of them for the actual cache, and
those of the tags. -/
structure FALRUStats where
  hits : ℕ → ℕ
  misses : ℕ → ℕ
  accesses : ℕ
  tagsInUse : ℤ

/-- The tag store with its `CacheTracking`. -/
structure FALRU where
  params : FALRUParams
  blks : ℕ → FALRUBlk
  links : Links ℕ
  tagHash : TagHashKey → Option ℕ
  boundaries : ℕ → Option ℕ
  stats : FALRUStats

namespace FALRU

/-- `1U << i`. -/
def bit (i : ℕ) : CachesMask := 1#32 <<< i

def setMask (b : ℕ) (m : CachesMask) (s : FALRU) : FALRU :=
  { s with blks := Function.update s.blks b { s.blks b with inCachesMask := m } }

def setBoundary (i : ℕ) (p : Option ℕ) (s : FALRU) : FALRU :=
  { s with boundaries := Function.update s.boundaries i p }

/-- The blocks from a pointer on. -/
def walk (next : ℕ → Option ℕ) : ℕ → Option ℕ → List ℕ
  | 0, _ => []
  | _ + 1, none => []
  | fuel + 1, some b => b :: walk next fuel (next b)

/-- The blocks from the head on. -/
def list (s : FALRU) : List ℕ := walk s.links.next s.params.numBlocks (some s.links.head)

/-! ### The initialization and the sanity check -/

/-- The variables of the loops of `init` and `check`. -/
structure Cursor where
  currSize : ℕ
  trackedCacheSize : ℕ
  inCachesMask : CachesMask
  j : ℕ

def cursor (s : FALRU) : Cursor := ⟨0, s.params.minTrackedCacheSize, s.params.inAllCachesMask, 0⟩

/-- `curr_size == tracked_cache_size && blk != tail`, after the size of the block is added. -/
def isBoundary (s : FALRU) (c : Cursor) (blk : ℕ) : Bool :=
  c.currSize + s.params.blockSize = c.trackedCacheSize ∧ blk ≠ s.links.tail

/-- What the loops do to their variables. -/
def advance (s : FALRU) (c : Cursor) (blk : ℕ) : Cursor :=
  if s.isBoundary c blk then
    ⟨c.currSize + s.params.blockSize, 2 * c.trackedCacheSize,
      c.inCachesMask &&& ~~~bit c.j, c.j + 1⟩
  else { c with currSize := c.currSize + s.params.blockSize }

/-- The body of the loop of `init`. -/
def initStep (sc : FALRU × Cursor) (blk : ℕ) : Option (FALRU × Cursor) :=
  let s := sc.1.setMask blk sc.2.inCachesMask
  if s.isBoundary sc.2 blk then
    if sc.2.j < s.params.numTrackedCaches then some (s.setBoundary sc.2.j (some blk),
      s.advance sc.2 blk)
    else none
  else some (s, s.advance sc.2 blk)

/-- `CacheTracking::init`, which has nothing to do if no cache is tracked. -/
def initTracking (s : FALRU) : Option FALRU :=
  if s.params.numTrackedCaches = 0 then some s
  else (s.list.foldlM initStep (s, s.cursor)).map Prod.fst

/-- The body of the loop of `check`, which panics if it is not as expected. -/
def checkStep (s : FALRU) (c : Cursor) (blk : ℕ) : Option Cursor :=
  if (s.blks blk).inCachesMask ≠ c.inCachesMask then none
  else if s.isBoundary c blk ∧ s.boundaries c.j ≠ some blk then none
  else some (s.advance c blk)

/-- `CacheTracking::check` of the debug build. -/
def check (s : FALRU) : Bool := (s.list.foldlM s.checkStep s.cursor).isSome

/-- `x != 0 && (x & (x - 1)) == 0`. -/
def isPowerOf2 (x : ℕ) : Bool := x ≠ 0 ∧ x &&& (x - 1) = 0

/-- The constructors and `tagsInit`: every block points to the ones before and after it.  The first
block and the last one must be different. -/
def new (p : FALRUParams) : Option FALRU :=
  if isPowerOf2 p.blockSize ∧ isPowerOf2 p.size ∧ p.numTrackedCaches ≤ 32 ∧ 2 ≤ p.numBlocks then
    initTracking
      { params := p
        blks := fun _ => .empty
        links :=
          { head := 0
            tail := p.numBlocks - 1
            prev := fun i => if i = 0 then none else some (i - 1)
            next := fun i => if i + 1 < p.numBlocks then some (i + 1) else none }
        tagHash := fun _ => none
        boundaries := fun _ => none
        stats := ⟨fun _ => 0, fun _ => 0, 0, 0⟩ }
  else none

/-! ### The moves -/

/-- The body of the loop of `moveBlockToHead`: a cache that does not hold the block loses its last
one. -/
def headStep (blk : ℕ) (updateCachesMask : CachesMask) (s : FALRU) (i : ℕ) : Option FALRU :=
  if bit i &&& updateCachesMask ≠ 0 then do
    let last ← s.boundaries i
    let s := s.setMask last ((s.blks last).inCachesMask &&& ~~~bit i)
    some (s.setBoundary i (s.links.prev last))
  else if s.boundaries i = some blk then some (s.setBoundary i (s.links.prev blk))
  else some s

def moveBlockToHead (blk : ℕ) (s : FALRU) : Option FALRU :=
  let updateCachesMask := s.params.inAllCachesMask ^^^ (s.blks blk).inCachesMask
  ((List.range s.params.numTrackedCaches).foldlM (headStep blk updateCachesMask) s).map
    (setMask blk s.params.inAllCachesMask)

/-- The body of the loop of `moveBlockToTail`: a cache that holds the block gets the next one
instead. -/
def tailStep (blk : ℕ) (updateCachesMask : CachesMask) (s : FALRU) (i : ℕ) : Option FALRU :=
  if bit i &&& updateCachesMask ≠ 0 then do
    let last ← s.boundaries i
    let last := s.links.next last
    let last := if last = some blk then s.links.next blk else last
    let b ← last
    some ((s.setBoundary i last).setMask b ((s.blks b).inCachesMask ||| bit i))
  else some s

def moveBlockToTail (blk : ℕ) (s : FALRU) : Option FALRU :=
  let updateCachesMask := (s.blks blk).inCachesMask
  ((List.range s.params.numTrackedCaches).foldlM (tailStep blk updateCachesMask) s).map
    (setMask blk 0)

def moveToHead (blk : ℕ) (s : FALRU) : Option FALRU :=
  if blk ≠ s.links.head then
    (s.moveBlockToHead blk).bind fun s => (s.links.toHead blk).map fun k => { s with links := k }
  else some s

def moveToTail (blk : ℕ) (s : FALRU) : Option FALRU :=
  if blk ≠ s.links.tail then
    (s.moveBlockToTail blk).bind fun s => (s.links.toTail blk).map fun k => { s with links := k }
  else some s

/-! ### The interface -/

/-- `blkAlign`. -/
def extractTag (s : FALRU) (addr : BitVec 64) : BitVec 64 :=
  addr &&& ~~~(BitVec.ofNat 64 s.params.blockSize - 1)

/-- The key under which an address is in the hash table. -/
def keyOf (s : FALRU) (addr : BitVec 64) (secure : Bool) : TagHashKey :=
  ⟨s.extractTag addr, secure⟩

/-- `TaggedEntry::registerTagExtractor`. -/
def registerTagExtractor (s : FALRU) (b : ℕ) (ext : TagExtractor) : FALRU :=
  { s with blks := Function.update s.blks b { s.blks b with extractTag := some ext } }

/-- Callbacks registered one after the other. -/
def registerAll (s : FALRU) (exts : List (ℕ × TagExtractor)) : FALRU :=
  exts.foldl (fun s r => s.registerTagExtractor r.1 r.2) s

/-- The outer option fails where an assertion does; the inner one is the pointer. -/
def findBlock (addr : BitVec 64) (secure : Bool) (s : FALRU) : Option (Option ℕ) :=
  match s.tagHash (s.keyOf addr secure) with
  | none => some none
  | some b =>
      if (s.blks b).valid then
        if (s.blks b).key = s.keyOf addr secure then some (some b) else none
      else some (some b)

/-- The loop and the rest of `recordAccess`: the last counters are those of the actual cache. -/
def recordAccess (blk : Option ℕ) (s : FALRU) : FALRU :=
  let inCache := fun i =>
    if i < s.params.numTrackedCaches then
      blk.any fun b => bit i &&& (s.blks b).inCachesMask ≠ 0
    else blk.any fun b => (s.blks b).valid
  { s with stats := { s.stats with
    hits := fun i =>
      if i ≤ s.params.numTrackedCaches ∧ inCache i then s.stats.hits i + 1 else s.stats.hits i
    misses := fun i =>
      if i ≤ s.params.numTrackedCaches ∧ ¬inCache i then s.stats.misses i + 1 else s.stats.misses i
    accesses := s.stats.accesses + 1 } }

/-- An access, with the block that it finds and the mask of the caches in which that was. -/
def accessBlock (addr : BitVec 64) (secure : Bool) (s : FALRU) :
    Option ((Option ℕ × CachesMask) × FALRU) := do
  match ← s.findBlock addr secure with
  | some b =>
      if (s.blks b).valid then
        (s.moveToHead b).map fun s' =>
          ((some b, (s.blks b).inCachesMask), s'.recordAccess (some b))
      else some ((some b, 0), s.recordAccess (some b))
  | none => some ((none, 0), s.recordAccess none)

/-- The block must be valid, and its tag in the hash table. -/
def invalidate (b : ℕ) (s : FALRU) : Option FALRU :=
  let key := (s.blks b).key
  if (s.tagHash key).isSome ∧ (s.blks b).valid then
    moveToTail b { s with
      tagHash := Function.update s.tagHash key none
      blks := Function.update s.blks b (s.blks b).invalidate
      stats := { s.stats with tagsInUse := s.stats.tagsInUse - 1 } }
  else none

def findVictim (s : FALRU) : ℕ := s.links.tail

/-- The block has a callback, and it gives the tag under which the address is looked for. -/
def Extracts (s : FALRU) (b : ℕ) (addr : BitVec 64) : Prop :=
  (s.blks b).extractTag.map (fun extractTag => extractTag addr) = some (s.extractTag addr)

/-- The block must be in none of the tracked caches, and its tag is what its own callback gives. -/
def insertBlock (addr : BitVec 64) (secure : Bool) (b : ℕ) (s : FALRU) : Option FALRU :=
  if (s.blks b).inCachesMask = 0 then
    ((s.blks b).insert addr secure).bind fun blk =>
      (moveToHead b { s with
        blks := Function.update s.blks b blk
        stats := { s.stats with tagsInUse := s.stats.tagsInUse + 1 } }).map fun s =>
          { s with tagHash := Function.update s.tagHash blk.key (some b) }
  else none

/-- The victim is evicted if it is valid. -/
def evict (b : ℕ) (s : FALRU) : Option FALRU := if (s.blks b).valid then s.invalidate b else some s

/-- What a cache does with a miss: it evicts the victim, and inserts the new block in its place. -/
def fill (addr : BitVec 64) (secure : Bool) (s : FALRU) : Option FALRU := do
  let victim := s.findVictim
  let s ← s.evict victim
  s.insertBlock addr secure victim

/-! ### Masks -/

variable {i j : ℕ} {m : CachesMask}

@[simp] theorem getLsbD_bit (hj : j < 32) : (bit i).getLsbD j = decide (i = j) := by
  unfold bit
  rw [BitVec.getLsbD_shiftLeft]
  by_cases h : i = j
  · subst h
    simp [hj]
  · rw [decide_eq_false h]
    by_cases hlt : j < i
    · simp [hlt]
    · have hne : j - i ≠ 0 := by omega
      simp [hne]

theorem bit_and_ne_zero (hi : i < 32) : bit i &&& m ≠ 0 ↔ m.getLsbD i = true := by
  constructor
  · intro h
    by_contra hm
    refine h (BitVec.eq_of_getLsbD_eq fun j hj => ?_)
    rw [BitVec.getLsbD_and, getLsbD_bit hj]
    by_cases hij : i = j
    · subst hij
      simpa using hm
    · simp [hij]
  · intro hm h
    have := congrArg (fun m => BitVec.getLsbD m i) h
    simp [getLsbD_bit hi, hm] at this

theorem getLsbD_clear (hj : j < 32) :
    (m &&& ~~~bit i).getLsbD j = (m.getLsbD j && !decide (i = j)) := by
  rw [BitVec.getLsbD_and, BitVec.getLsbD_not, getLsbD_bit hj, decide_eq_true hj, Bool.true_and]

theorem getLsbD_or_bit (hj : j < 32) :
    (m ||| bit i).getLsbD j = (m.getLsbD j || decide (i = j)) := by
  rw [BitVec.getLsbD_or, getLsbD_bit hj]

theorem getLsbD_inAllCachesMask {p : FALRUParams} (hp : p.numTrackedCaches < 32) :
    p.inAllCachesMask.getLsbD i = decide (i < p.numTrackedCaches) := by
  have hlt : 2 ^ p.numTrackedCaches < 2 ^ 32 := Nat.pow_lt_pow_right (by omega) hp
  have hpos : 0 < 2 ^ p.numTrackedCaches := Nat.two_pow_pos _
  have hshift : (1#32 <<< p.numTrackedCaches).toNat = 2 ^ p.numTrackedCaches := by
    rw [BitVec.toNat_shiftLeft, Nat.shiftLeft_eq]
    simp only [BitVec.toNat_ofNat, Nat.one_mod_eq_one.2 (by decide : (2 : ℕ) ^ 32 ≠ 1), Nat.one_mul]
    exact Nat.mod_eq_of_lt hlt
  have hmask : p.inAllCachesMask.toNat = 2 ^ p.numTrackedCaches - 1 := by
    unfold FALRUParams.inAllCachesMask
    rw [BitVec.toNat_sub_of_le]
    · rw [hshift]
      rfl
    · rw [BitVec.le_def, hshift]
      exact hpos
  rw [BitVec.getLsbD, hmask, Nat.testBit_two_pow_sub_one]

end FALRU

/-! ### The capacities of the tracked caches -/

namespace FALRUParams

/-- The number of the blocks that a tracked cache holds. -/
def capacity (p : FALRUParams) (i : ℕ) : ℕ := p.minTrackedCacheSize / p.blockSize * 2 ^ i

/-- The sizes are powers of two, there are at least two blocks, and the smallest tracked cache holds
a whole number of blocks. -/
structure Sized (p : FALRUParams) : Prop where
  block : p.blockSize.isPowerOfTwo
  size : p.size.isPowerOfTwo
  size_lt : p.size < 2 ^ 32
  two_blocks : 2 * p.blockSize ≤ p.size
  dvd : p.blockSize ∣ p.minTrackedCacheSize
  tracked : p.blockSize ≤ p.minTrackedCacheSize

namespace Sized

variable {p : FALRUParams} {i j : ℕ}

theorem blockSize_pos (h : p.Sized) : 0 < p.blockSize := Nat.pos_of_isPowerOfTwo h.block

theorem numBlocks_mul (h : p.Sized) : p.numBlocks * p.blockSize = p.size := by
  obtain ⟨k, hk⟩ := h.block
  obtain ⟨n, hn⟩ := h.size
  refine Nat.div_mul_cancel ?_
  have hle : 2 ^ k ≤ 2 ^ n := by
    rw [← hk, ← hn]
    have := h.two_blocks
    omega
  rw [hk, hn]
  exact Nat.pow_dvd_pow 2 ((Nat.pow_le_pow_iff_right (by omega)).1 hle)

theorem capacity_mul (h : p.Sized) (i : ℕ) :
    p.capacity i * p.blockSize = p.minTrackedCacheSize * 2 ^ i := by
  rw [capacity, Nat.mul_right_comm, Nat.div_mul_cancel h.dvd]

theorem two_le_numBlocks (h : p.Sized) : 2 ≤ p.numBlocks :=
  Nat.le_of_mul_le_mul_right (h.numBlocks_mul ▸ h.two_blocks) h.blockSize_pos

theorem capacity_pos (h : p.Sized) (i : ℕ) : 0 < p.capacity i :=
  Nat.mul_pos (Nat.div_pos h.tracked h.blockSize_pos) (Nat.two_pow_pos i)

theorem capacity_lt_capacity (h : p.Sized) (hij : i < j) : p.capacity i < p.capacity j := by
  exact Nat.mul_lt_mul_of_pos_left (Nat.pow_lt_pow_right (by omega) hij)
    (Nat.div_pos h.tracked h.blockSize_pos)

theorem numTrackedCaches_lt (h : p.Sized) : p.numTrackedCaches < 32 := by
  unfold numTrackedCaches
  split
  · have hpos : p.size ≠ 0 := by
      have := h.two_blocks
      have := h.blockSize_pos
      omega
    have := Nat.log_lt_of_lt_pow hpos h.size_lt
    omega
  · omega

/-- The tracked caches are smaller than the actual one. -/
theorem capacity_lt (h : p.Sized) (hi : i < p.numTrackedCaches) : p.capacity i < p.numBlocks := by
  refine Nat.lt_of_mul_lt_mul_right (a := p.blockSize) ?_
  rw [h.capacity_mul, h.numBlocks_mul]
  unfold numTrackedCaches at hi
  split at hi
  · have hmin : p.minTrackedCacheSize ≠ 0 := by
      have := h.tracked
      have := h.blockSize_pos
      omega
    have hsize : p.size ≠ 0 := by omega
    calc p.minTrackedCacheSize * 2 ^ i
        < 2 ^ (Nat.log 2 p.minTrackedCacheSize + 1) * 2 ^ i :=
          Nat.mul_lt_mul_of_pos_right (Nat.lt_pow_succ_log_self (by omega) _) (Nat.two_pow_pos i)
      _ = 2 ^ (Nat.log 2 p.minTrackedCacheSize + 1 + i) := (Nat.pow_add 2 _ _).symm
      _ ≤ 2 ^ Nat.log 2 p.size := Nat.pow_le_pow_right (by omega) (by omega)
      _ ≤ p.size := Nat.pow_log_le_self 2 hsize
  · omega

/-- The next larger one would not be. -/
theorem numBlocks_le_capacity (h : p.Sized) : p.numBlocks ≤ p.capacity p.numTrackedCaches := by
  refine Nat.le_of_mul_le_mul_right (c := p.blockSize) ?_ h.blockSize_pos
  rw [h.capacity_mul, h.numBlocks_mul]
  unfold numTrackedCaches
  split
  · next hlt =>
      obtain ⟨n, hn⟩ := h.size
      have hmin : p.minTrackedCacheSize ≠ 0 := by
        have := h.tracked
        have := h.blockSize_pos
        omega
      have hlog : Nat.log 2 p.minTrackedCacheSize ≤ n := by
        have := Nat.log_mono_right (b := 2) hlt.le
        rwa [hn, Nat.log_pow (by omega)] at this
      rw [hn, Nat.log_pow (by omega)]
      calc 2 ^ n = 2 ^ (Nat.log 2 p.minTrackedCacheSize +
        (n - Nat.log 2 p.minTrackedCacheSize)) := by
            rw [Nat.add_sub_cancel' hlog]
        _ = 2 ^ Nat.log 2 p.minTrackedCacheSize * 2 ^ (n - Nat.log 2 p.minTrackedCacheSize) :=
            Nat.pow_add 2 _ _
        _ ≤ p.minTrackedCacheSize * 2 ^ (n - Nat.log 2 p.minTrackedCacheSize) :=
            Nat.mul_le_mul_right _ (Nat.pow_log_le_self 2 hmin)
  · omega

end Sized

/-- The smallest tracked cache holds at least two blocks. -/
def Roomy (p : FALRUParams) : Prop := 2 ≤ p.capacity 0

theorem Roomy.two_le_capacity {p : FALRUParams} (h : p.Roomy) (i : ℕ) : 2 ≤ p.capacity i := by
  have hzero : p.capacity 0 = p.minTrackedCacheSize / p.blockSize := Nat.mul_one _
  exact (hzero ▸ h : 2 ≤ _).trans (Nat.le_mul_of_pos_right _ (Nat.two_pow_pos i))

end FALRUParams

namespace FALRU

/-- **The invariant**: the list is an order of the blocks, a block is in the tracked caches that
hold so many blocks from the head on, and the boundaries are the last blocks of these caches. -/
structure Tidy (s : FALRU) (l : List ℕ) : Prop where
  sized : s.params.Sized
  orders : s.links.Orders l
  mem : ∀ b, b ∈ l ↔ b < s.params.numBlocks
  mask : ∀ b ∈ l, ∀ i < 32, (s.blks b).inCachesMask.getLsbD i =
    decide (i < s.params.numTrackedCaches ∧ l.idxOf b < s.params.capacity i)
  boundaries : ∀ i < s.params.numTrackedCaches, s.boundaries i = l[s.params.capacity i - 1]?

variable {s s' : FALRU} {l : List ℕ} {b : ℕ} {p : ℕ} {c : Cursor}

theorem length_eq (hnodup : l.Nodup) {n : ℕ} (hmem : ∀ b, b ∈ l ↔ b < n) : l.length = n := by
  have hperm : l.Perm (List.range n) := by
    rw [List.perm_ext_iff_of_nodup hnodup List.nodup_range]
    intro b
    rw [hmem, List.mem_range]
  rw [hperm.length_eq, List.length_range]

theorem walk_eq {prev next : ℕ → Option ℕ} {q : Option ℕ} {n : ℕ} (hn : l.length ≤ n)
    (h : Links.Chain prev next q l none) : walk next n l.head? = l := by
  induction l generalizing n q with
  | nil => cases n <;> rfl
  | cons x l ih =>
      obtain ⟨-, hnext, h⟩ := h
      cases n with
      | zero => exact absurd hn (Nat.not_succ_le_zero _)
      | succ n =>
          rw [List.head?_cons, walk, hnext, Option.or_none, ih (Nat.le_of_succ_le_succ hn) h]

/-- The variables of the loops after so many blocks. -/
structure CursorAt (s : FALRU) (c : Cursor) (p : ℕ) : Prop where
  currSize : c.currSize = p * s.params.blockSize
  trackedCacheSize : c.trackedCacheSize = s.params.minTrackedCacheSize * 2 ^ c.j
  le : c.j ≤ s.params.numTrackedCaches
  lt_iff : ∀ i < s.params.numTrackedCaches, i < c.j ↔ s.params.capacity i ≤ p
  mask : ∀ i < 32, c.inCachesMask.getLsbD i =
    decide (i < s.params.numTrackedCaches ∧ p < s.params.capacity i)

theorem CursorAt.cursor (h : s.params.Sized) : CursorAt s s.cursor 0 where
  currSize := (Nat.zero_mul _).symm
  trackedCacheSize := (Nat.mul_one _).symm
  le := Nat.zero_le _
  lt_iff i _ := by
    have := h.capacity_pos i
    have hj : s.cursor.j = 0 := rfl
    omega
  mask i _ := by
    have := h.capacity_pos i
    rw [FALRU.cursor, getLsbD_inAllCachesMask h.numTrackedCaches_lt]
    congr 1
    exact propext ⟨fun hi => ⟨hi, by omega⟩, fun hi => hi.1⟩

/-- The loops come to a boundary where a tracked cache is full. -/
theorem CursorAt.isBoundary_iff (hs : s.params.Sized) (horders : s.links.Orders l)
    (hlength : l.length = s.params.numBlocks) (hc : CursorAt s c p) (hp : p < l.length) :
    s.isBoundary c l[p] = true ↔ c.j < s.params.numTrackedCaches ∧
    s.params.capacity c.j = p + 1 := by
  have hsize : c.currSize + s.params.blockSize = c.trackedCacheSize ↔
      s.params.capacity c.j = p + 1 := by
    rw [hc.currSize, hc.trackedCacheSize, ← hs.capacity_mul, ← Nat.succ_mul,
      Nat.mul_left_inj hs.blockSize_pos.ne']
    exact eq_comm
  have htail : l[p] ≠ s.links.tail ↔ p + 1 < l.length := by
    have hlast : l[l.length - 1] = s.links.tail := by
      have := horders.tail
      rw [List.getLast?_eq_getElem?, List.getElem?_eq_getElem (by omega)] at this
      exact Option.some.inj this
    rw [← hlast, Ne, horders.nodup.getElem_inj_iff]
    omega
  unfold isBoundary
  rw [decide_eq_true_iff, hsize, htail]
  constructor
  · rintro ⟨hcap, hlt⟩
    refine ⟨lt_of_le_of_ne hc.le fun heq => ?_, hcap⟩
    have := hs.numBlocks_le_capacity
    rw [heq] at hcap
    omega
  · rintro ⟨hj, hcap⟩
    have := hs.capacity_lt hj
    exact ⟨hcap, by omega⟩

theorem CursorAt.advance (hs : s.params.Sized) (horders : s.links.Orders l)
    (hlength : l.length = s.params.numBlocks) (hc : CursorAt s c p) (hp : p < l.length) :
    CursorAt s (s.advance c l[p]) (p + 1) := by
  have hiff := hc.isBoundary_iff hs horders hlength hp
  unfold FALRU.advance
  by_cases hb : s.isBoundary c l[p] = true
  · obtain ⟨hj, hcap⟩ := hiff.1 hb
    rw [if_pos hb]
    refine ⟨?_, ?_, hj, ?_, ?_⟩
    · change c.currSize + _ = _
      rw [hc.currSize, Nat.succ_mul]
    · change 2 * c.trackedCacheSize = _
      rw [hc.trackedCacheSize, Nat.pow_succ, Nat.mul_comm 2, Nat.mul_assoc]
    · intro i hi
      have hi' := hc.lt_iff i hi
      rcases Nat.lt_trichotomy i c.j with h | h | h
      · have := hs.capacity_lt_capacity h
        change i < c.j + 1 ↔ _
        omega
      · subst h
        change c.j < c.j + 1 ↔ _
        omega
      · have := hs.capacity_lt_capacity h
        change i < c.j + 1 ↔ _
        omega
    · intro i hi
      rw [getLsbD_clear hi, hc.mask i hi, ← decide_not, ← Bool.decide_and]
      congr 1
      refine propext ⟨?_, ?_⟩
      · rintro ⟨⟨hi, hlt⟩, hne⟩
        have hi' := hc.lt_iff i hi
        have := hs.capacity_lt_capacity (i := c.j) (j := i) (by omega)
        exact ⟨hi, by omega⟩
      · rintro ⟨hi, hlt⟩
        refine ⟨⟨hi, by omega⟩, ?_⟩
        rintro rfl
        omega
  · rw [if_neg hb]
    have hnot : ∀ i < s.params.numTrackedCaches, s.params.capacity i ≠ p + 1 := by
      intro i hi heq
      have hi' := hc.lt_iff i hi
      have hji : c.j ≤ i := by omega
      refine hb (hiff.2 ⟨by omega, ?_⟩)
      rcases Nat.eq_or_lt_of_le hji with h | h
      · rw [h, heq]
      · -- a smaller cache would be full already
        have hlt := hs.capacity_lt_capacity h
        have := hc.lt_iff c.j (by omega)
        omega
    refine ⟨?_, hc.trackedCacheSize, hc.le, ?_, ?_⟩
    · change c.currSize + _ = _
      rw [hc.currSize, Nat.succ_mul]
    · intro i hi
      have := hc.lt_iff i hi
      have := hnot i hi
      change i < c.j ↔ _
      omega
    · intro i hi
      change c.inCachesMask.getLsbD i = _
      rw [hc.mask i hi]
      congr 1
      refine propext (and_congr_right fun hi' => ?_)
      have := hnot i hi'
      omega

theorem Tidy.length (h : Tidy s l) : l.length = s.params.numBlocks := length_eq h.orders.nodup h.mem

/-- **Under the invariant the sanity check does not panic.** -/
theorem Tidy.check (h : Tidy s l) : s.check = true := by
  have hlist : s.list = l := by
    unfold FALRU.list
    rw [← h.orders.head]
    exact walk_eq h.length.le h.orders.chain
  have hloop : ∀ p ≤ l.length, ∃ c, (l.take p).foldlM s.checkStep s.cursor = some c ∧
      CursorAt s c p := by
    intro p
    induction p with
    | zero => exact fun _ => ⟨s.cursor, rfl, .cursor h.sized⟩
    | succ p ih =>
        intro hp
        obtain ⟨c, hfold, hc⟩ := ih (by omega)
        refine ⟨s.advance c l[p], ?_, hc.advance h.sized h.orders h.length (by omega)⟩
        rw [List.take_succ_eq_append_getElem (by omega), List.foldlM_append, hfold]
        have hmask : (s.blks l[p]).inCachesMask = c.inCachesMask := by
          refine BitVec.eq_of_getLsbD_eq fun i hi => ?_
          rw [h.mask _ (List.getElem_mem _) i hi, hc.mask i hi, h.orders.nodup.idxOf_getElem]
        have hboundary : ¬(s.isBoundary c l[p] = true ∧ s.boundaries c.j ≠ some l[p]) := by
          rintro ⟨hb, hne⟩
          obtain ⟨hj, hcap⟩ := (hc.isBoundary_iff h.sized h.orders h.length (by omega)).1 hb
          rw [h.boundaries _ hj, hcap, Nat.add_sub_cancel,
            List.getElem?_eq_getElem (by omega)] at hne
          exact hne rfl
        change (checkStep s c l[p]).bind _ = _
        rw [checkStep, if_neg (not_not.2 hmask), if_neg hboundary]
        rfl
  obtain ⟨c, hfold, -⟩ := hloop l.length le_rfl
  unfold FALRU.check
  rw [hlist, ← List.take_length (l := l), hfold]
  rfl

/-! ### What the tracking changes -/

/-- Whether a block is in a tracked cache. -/
def inCache (s : FALRU) (b i : ℕ) : Bool := (s.blks b).inCachesMask.getLsbD i

/-- Only the pointers, the masks and the boundaries differ. -/
structure Keeps (s s' : FALRU) : Prop where
  params : s'.params = s.params
  tagHash : s'.tagHash = s.tagHash
  stats : s'.stats = s.stats
  valid : ∀ b, (s'.blks b).valid = (s.blks b).valid
  key : ∀ b, (s'.blks b).key = (s.blks b).key
  extractTag : ∀ b, (s'.blks b).extractTag = (s.blks b).extractTag

theorem Keeps.refl (s : FALRU) : Keeps s s :=
  ⟨rfl, rfl, rfl, fun _ => rfl, fun _ => rfl, fun _ => rfl⟩

theorem Keeps.trans {s₁ s₂ s₃ : FALRU} (h : Keeps s₁ s₂) (h' : Keeps s₂ s₃) : Keeps s₁ s₃ :=
  ⟨h'.params.trans h.params, h'.tagHash.trans h.tagHash, h'.stats.trans h.stats,
    fun b => (h'.valid b).trans (h.valid b), fun b => (h'.key b).trans (h.key b),
    fun b => (h'.extractTag b).trans (h.extractTag b)⟩

theorem Keeps.setMask (s : FALRU) (b : ℕ) (m : CachesMask) : Keeps s (s.setMask b m) := by
  have hblk : ∀ x, ∃ m', (s.setMask b m).blks x = { s.blks x with inCachesMask := m' } := by
    intro x
    unfold FALRU.setMask
    by_cases h : x = b
    · subst h
      exact ⟨m, Function.update_self _ _ _⟩
    · exact ⟨_, Function.update_of_ne h _ _⟩
  refine ⟨rfl, rfl, rfl, fun x => ?_, fun x => ?_, fun x => ?_⟩
  · obtain ⟨m', hm'⟩ := hblk x
    rw [hm']
  · obtain ⟨m', hm'⟩ := hblk x
    rw [hm']
    rfl
  · obtain ⟨m', hm'⟩ := hblk x
    rw [hm']

theorem Keeps.setBoundary (s : FALRU) (i : ℕ) (p : Option ℕ) : Keeps s (s.setBoundary i p) :=
  ⟨rfl, rfl, rfl, fun _ => rfl, fun _ => rfl, fun _ => rfl⟩

theorem Keeps.setLinks (h : Keeps s s') (k : Links ℕ) : Keeps s { s' with links := k } :=
  ⟨h.params, h.tagHash, h.stats, h.valid, h.key, h.extractTag⟩

theorem inCache_setMask (s : FALRU) (b : ℕ) (m : CachesMask) (x i : ℕ) :
    (s.setMask b m).inCache x i = if x = b then m.getLsbD i else s.inCache x i := by
  unfold FALRU.inCache FALRU.setMask
  by_cases h : x = b
  · subst h
    simp only [Function.update_self, if_true]
  · simp only [Function.update_of_ne h, if_neg h]

@[simp] theorem inCache_setBoundary (s : FALRU) (i : ℕ) (p : Option ℕ) (x j : ℕ) :
    (s.setBoundary i p).inCache x j = s.inCache x j := rfl

theorem Tidy.inCache (h : Tidy s l) {x i : ℕ} (hx : x ∈ l) (hi : i < 32) :
    s.inCache x i =
      decide (i < s.params.numTrackedCaches ∧ l.idxOf x < s.params.capacity i) := h.mask x hx i hi

/-- A loop over the tracked caches whose body changes one boundary and one bit of the masks. -/
theorem loop_columns {step : FALRU → ℕ → Option FALRU} {B : ℕ → Option ℕ} {M : ℕ → ℕ → Bool} {k : ℕ}
    (hk : k ≤ 32)
    (hstep : ∀ n < k, ∀ s', Keeps s s' → s'.links = s.links → s'.boundaries n = s.boundaries n →
      (∀ x, s'.inCache x n = s.inCache x n) → ∃ s'', step s' n = some s'' ∧ Keeps s' s'' ∧
        s''.links = s'.links ∧ s''.boundaries = Function.update s'.boundaries n (B n) ∧
        ∀ x, ∀ i < 32, s''.inCache x i = if i = n then M x n else s'.inCache x i) :
    ∃ s', (List.range k).foldlM step s = some s' ∧ Keeps s s' ∧ s'.links = s.links ∧
      (∀ i, s'.boundaries i = if i < k then B i else s.boundaries i) ∧
      ∀ x, ∀ i < 32, s'.inCache x i = if i < k then M x i else s.inCache x i := by
  induction k with
  | zero => exact ⟨s, rfl, .refl s, rfl, fun i => rfl, fun x i _ => rfl⟩
  | succ k ih =>
      obtain ⟨s₁, hfold, hkeeps, hlinks, hboundaries, hmasks⟩ :=
        ih (by omega) fun n hn => hstep n (by omega)
      obtain ⟨s₂, hs₂, hkeeps', hlinks', hboundaries', hmasks'⟩ :=
        hstep k (Nat.lt_succ_self k) s₁ hkeeps hlinks
          ((hboundaries k).trans (if_neg (Nat.lt_irrefl k)))
          fun x => (hmasks x k (by omega)).trans (if_neg (Nat.lt_irrefl k))
      refine ⟨s₂, ?_, hkeeps.trans hkeeps', hlinks'.trans hlinks, fun i => ?_, fun x i hi => ?_⟩
      · rw [List.range_succ, List.foldlM_append, hfold]
        change (step s₁ k).bind _ = _
        rw [hs₂]
        rfl
      · rw [hboundaries']
        by_cases hik : i = k
        · subst hik
          rw [Function.update_self, if_pos (Nat.lt_succ_self i)]
        · rw [Function.update_of_ne hik, hboundaries i]
          have : i < k + 1 ↔ i < k := by omega
          simp only [this]
      · rw [hmasks' x i hi]
        by_cases hik : i = k
        · subst hik
          rw [if_pos rfl, if_pos (Nat.lt_succ_self i)]
        · rw [if_neg hik, hmasks x i hi]
          have : i < k + 1 ↔ i < k := by omega
          simp only [this]

/-! ### The moves -/

theorem Tidy.getElem_capacity (h : Tidy s l) {n : ℕ} (hn : n < s.params.numTrackedCaches) :
    ∃ last, s.boundaries n = some last ∧ l[s.params.capacity n - 1]? = some last ∧
      l.idxOf last = s.params.capacity n - 1 ∧ last ∈ l ∧
        ∀ x ∈ l, l.idxOf x = s.params.capacity n - 1 → x = last := by
  have hcap := h.sized.capacity_lt hn
  have hlength := h.length
  have hlt : s.params.capacity n - 1 < l.length := by omega
  refine ⟨l[s.params.capacity n - 1], ?_, List.getElem?_eq_getElem hlt,
    h.orders.nodup.idxOf_getElem _ hlt, List.getElem_mem hlt, fun x hx heq => ?_⟩
  · rw [h.boundaries n hn, List.getElem?_eq_getElem hlt]
  · have hget := List.getElem_idxOf (List.idxOf_lt_length_of_mem hx)
    simp only [heq] at hget
    exact hget.symm

theorem Tidy.idxOf_ne_zero (h : Tidy s l) (hb : b ∈ l) (hne : b ≠ s.links.head) :
    l.idxOf b ≠ 0 := by
  intro h0
  have hq := List.idxOf_lt_length_of_mem hb
  have hget := List.getElem_idxOf hq
  refine hne (Option.some.inj ?_).symm
  rw [← h.orders.head, List.head?_eq_getElem?, List.getElem?_eq_getElem (h0 ▸ hq)]
  simp only [← h0, hget]

theorem Tidy.prev_eq (h : Tidy s l) (hb : b ∈ l) :
    s.links.prev b = if l.idxOf b = 0 then none else l[l.idxOf b - 1]? := by
  have hprev := h.orders.prev_eq (List.idxOf_lt_length_of_mem hb)
  rwa [List.getElem_idxOf] at hprev

/-- The boundary of a tracked cache after a block was moved to the head.  A cache of a single block
loses it: the last one before the head is the null pointer. -/
def headBoundary (s : FALRU) (b : ℕ) (l : List ℕ) (n : ℕ) : Option ℕ :=
  if s.params.capacity n = 1 then none else (b :: l.erase b)[s.params.capacity n - 1]?

/-- One tracked cache, before a block is moved to the head. -/
theorem Tidy.headStep (h : Tidy s l) (hb : b ∈ l) (hne : b ≠ s.links.head) {n : ℕ}
    (hn : n < s.params.numTrackedCaches) (hlinks : s'.links = s.links)
    (hboundary : s'.boundaries n = s.boundaries n) (hmask : ∀ x, s'.inCache x n = s.inCache x n) :
    ∃ s'', headStep b (s.params.inAllCachesMask ^^^ (s.blks b).inCachesMask) s' n = some s'' ∧
      Keeps s' s'' ∧ s''.links = s'.links ∧
      s''.boundaries = Function.update s'.boundaries n (s.headBoundary b l n) ∧
      ∀ x, ∀ i < 32, s''.inCache x i = if i = n then
        (if x = b ∨ x ∉ l then s.inCache x n
          else decide ((b :: l.erase b).idxOf x < s.params.capacity n)) else s'.inCache x i := by
  have hK := h.sized.numTrackedCaches_lt
  have hcap1 := h.sized.capacity_pos n
  have hq0 := h.idxOf_ne_zero hb hne
  obtain ⟨last, hlast, hget, hidx, hmem, honly⟩ := h.getElem_capacity hn
  have hupdate : bit n &&& (s.params.inAllCachesMask ^^^ (s.blks b).inCachesMask) ≠ 0 ↔
      s.params.capacity n ≤ l.idxOf b := by
    rw [bit_and_ne_zero (by omega), BitVec.getLsbD_xor, getLsbD_inAllCachesMask hK,
      h.mask b hb n (by omega), decide_eq_true hn, Bool.true_xor, Bool.not_eq_true',
      decide_eq_false_iff_not]
    omega
  -- only the last block of a cache that does not hold the block is pushed out of it
  have hplace : ∀ x ∈ l, x ≠ b → ((b :: l.erase b).idxOf x < s.params.capacity n ↔
      l.idxOf x < s.params.capacity n ∧ ¬(s.params.capacity n ≤ l.idxOf b ∧ x = last)) := by
    intro x hx hxb
    have hxq : l.idxOf x ≠ l.idxOf b := fun heq => hxb ((List.idxOf_inj hx).1 heq)
    have hxlast : x = last ↔ l.idxOf x = s.params.capacity n - 1 :=
      ⟨fun heq => heq ▸ hidx, honly x hx⟩
    rw [LruStack.idxOf_cons_erase h.orders.nodup hb hx, if_neg hxb, hxlast]
    split <;> omega
  have hcolumn : ∀ x, ¬(s.params.capacity n ≤ l.idxOf b ∧ x = last) → s'.inCache x n =
      if x = b ∨ x ∉ l then s.inCache x n
        else decide ((b :: l.erase b).idxOf x < s.params.capacity n) := by
    intro x hx
    rw [hmask]
    split
    · rfl
    · next hxl =>
        obtain ⟨hxb, hxl⟩ := not_or.1 hxl
        have hxl := not_not.1 hxl
        rw [h.inCache hxl (by omega), decide_eq_decide, hplace x hxl hxb]
        exact ⟨fun hlt => ⟨hlt.2, hx⟩, fun hlt => ⟨hn, hlt.1⟩⟩
  have hother : ¬s.params.capacity n ≤ l.idxOf b → ∀ x, ∀ i < 32, s'.inCache x i = if i = n then
      (if x = b ∨ x ∉ l then s.inCache x n
        else decide ((b :: l.erase b).idxOf x < s.params.capacity n)) else s'.inCache x i := by
    intro hin x i _
    split
    · next hi => rw [hi, hcolumn x fun hx => hin hx.1]
    · rfl
  unfold FALRU.headStep
  rw [hboundary, hlast]
  by_cases hout : s.params.capacity n ≤ l.idxOf b
  · rw [if_pos (hupdate.2 hout)]
    refine ⟨_, rfl, (Keeps.setMask _ _ _).trans (.setBoundary _ _ _), rfl, ?_, fun x i hi => ?_⟩
    · change Function.update s'.boundaries n (s'.links.prev last) = _
      rw [hlinks, h.prev_eq hmem, hidx, headBoundary]
      by_cases hone : s.params.capacity n = 1
      · rw [if_pos hone, if_pos (by omega)]
      · rw [if_neg hone, if_neg (by omega), LruStack.getElem?_cons_erase (by omega),
          if_pos (by omega)]
        rfl
    · rw [inCache_setBoundary, inCache_setMask]
      by_cases hx : x = last
      · have hxb : x ≠ b := by
          rintro rfl
          rw [← hx] at hidx
          omega
        rw [if_pos hx, getLsbD_clear hi]
        by_cases hin : i = n
        · rw [if_pos hin, if_neg (not_or.2 ⟨hxb, not_not.2 (hx ▸ hmem)⟩), decide_eq_true hin.symm,
            Bool.not_true, Bool.and_false, eq_comm, decide_eq_false_iff_not,
            hplace x (hx ▸ hmem) hxb]
          exact fun hlt => hlt.2 ⟨hout, hx⟩
        · rw [if_neg hin, decide_eq_false (Ne.symm hin), Bool.not_false, Bool.and_true, hx]
          rfl
      · rw [if_neg hx]
        split
        · next hin => rw [hin, hcolumn x fun hx' => hx hx'.2]
        · rfl
  · rw [if_neg fun hu => hout (hupdate.1 hu)]
    by_cases heq : some last = some b
    · -- the block is the last one of the cache, and leaves its place to the one before it
      have heq' := Option.some.inj heq
      rw [if_pos heq]
      refine ⟨_, rfl, .setBoundary _ _ _, rfl, ?_, hother hout⟩
      change Function.update s'.boundaries n (s'.links.prev b) = _
      have hqb : l.idxOf b = s.params.capacity n - 1 := heq' ▸ hidx
      rw [hlinks, h.prev_eq hb, if_neg hq0, headBoundary, if_neg (by omega),
        LruStack.getElem?_cons_erase (by omega), if_pos (by omega), hqb]
      rfl
    · have hqne : l.idxOf b ≠ s.params.capacity n - 1 := fun hq =>
        heq (congrArg some (honly b hb hq).symm)
      rw [if_neg heq]
      refine ⟨s', rfl, .refl _, rfl, ?_, hother hout⟩
      rw [headBoundary, if_neg (by omega), LruStack.getElem?_cons_erase (by omega),
        if_neg (by omega), hget, ← hlast, ← hboundary, Function.update_eq_self]

/-- What `moveBlockToHead` does before the block is moved. -/
theorem Tidy.moveBlockToHead (h : Tidy s l) (hb : b ∈ l) (hne : b ≠ s.links.head) :
    ∃ s', s.moveBlockToHead b = some s' ∧ Keeps s s' ∧ s'.links = s.links ∧
      (∀ i < s.params.numTrackedCaches, s'.boundaries i = s.headBoundary b l i) ∧
      ∀ x ∈ l, ∀ i < 32, s'.inCache x i = decide (i < s.params.numTrackedCaches ∧
        (b :: l.erase b).idxOf x < s.params.capacity i) := by
  have hK := h.sized.numTrackedCaches_lt
  obtain ⟨s₁, hfold, hkeeps, hlinks, hboundaries, hmasks⟩ := loop_columns hK.le
    fun n hn s' _ hlinks hboundary hmask => h.headStep hb hne hn hlinks hboundary hmask
  refine ⟨s₁.setMask b s.params.inAllCachesMask, ?_, hkeeps.trans (.setMask _ _ _), hlinks, ?_, ?_⟩
  · exact congrArg (Option.map _) hfold
  · exact fun i hi => (hboundaries i).trans (if_pos hi)
  · intro x hx i hi
    rw [inCache_setMask]
    by_cases hxb : x = b
    · subst hxb
      have := h.sized.capacity_pos i
      rw [if_pos rfl, getLsbD_inAllCachesMask hK, List.idxOf_cons_self, decide_eq_decide]
      exact ⟨fun hi => ⟨hi, by omega⟩, fun hi => hi.1⟩
    · rw [if_neg hxb, hmasks x i hi]
      by_cases hik : i < s.params.numTrackedCaches
      · rw [if_pos hik, if_neg (not_or.2 ⟨hxb, not_not.2 hx⟩), decide_eq_decide]
        exact (and_iff_right hik).symm
      · rw [if_neg hik, h.inCache hx hi, decide_eq_decide]
        exact ⟨fun h => absurd h.1 hik, fun h => absurd h.1 hik⟩

/-- One tracked cache, before a block is moved to the tail. -/
theorem Tidy.tailStep (h : Tidy s l) (hb : b ∈ l) {n : ℕ} (hn : n < s.params.numTrackedCaches)
    (hlinks : s'.links = s.links) (hboundary : s'.boundaries n = s.boundaries n)
    (hmask : ∀ x, s'.inCache x n = s.inCache x n) :
    ∃ s'', tailStep b (s.blks b).inCachesMask s' n = some s'' ∧ Keeps s' s'' ∧
      s''.links = s'.links ∧
      s''.boundaries = Function.update s'.boundaries n
      (l.erase b ++ [b])[s.params.capacity n - 1]? ∧
      ∀ x, ∀ i < 32, s''.inCache x i = if i = n then
        (if x = b ∨ x ∉ l then s.inCache x n
          else decide ((l.erase b ++ [b]).idxOf x < s.params.capacity n)) else s'.inCache x i := by
  have hK := h.sized.numTrackedCaches_lt
  have hcap := h.sized.capacity_lt hn
  have hcap1 := h.sized.capacity_pos n
  have hlength := h.length
  obtain ⟨last, hlast, hget, hidx, hmem, honly⟩ := h.getElem_capacity hn
  have hcapl : s.params.capacity n < l.length := by omega
  have hupdate : bit n &&& (s.blks b).inCachesMask ≠ 0 ↔ l.idxOf b < s.params.capacity n := by
    rw [bit_and_ne_zero (by omega), h.mask b hb n (by omega), decide_eq_true_iff]
    exact and_iff_right hn
  have hplace : ∀ x ∈ l, x ≠ b → ((l.erase b ++ [b]).idxOf x < s.params.capacity n ↔
      l.idxOf x < s.params.capacity n ∨
        l.idxOf b < s.params.capacity n ∧ l.idxOf x = s.params.capacity n) := by
    intro x hx hxb
    have hxq : l.idxOf x ≠ l.idxOf b := fun heq => hxb ((List.idxOf_inj hx).1 heq)
    rw [LruStack.idxOf_erase_concat h.orders.nodup hb hx, if_neg hxb]
    split <;> omega
  have hcolumn : ∀ x, ¬(l.idxOf b < s.params.capacity n ∧ l.idxOf x = s.params.capacity n ∧ x ∈ l) →
      s'.inCache x n = if x = b ∨ x ∉ l then s.inCache x n
        else decide ((l.erase b ++ [b]).idxOf x < s.params.capacity n) := by
    intro x hx
    rw [hmask]
    split
    · rfl
    · next hxl =>
        obtain ⟨hxb, hxl⟩ := not_or.1 hxl
        have hxl := not_not.1 hxl
        rw [h.inCache hxl (by omega), decide_eq_decide, hplace x hxl hxb]
        constructor
        · exact fun hlt => Or.inl hlt.2
        · rintro (hlt | hlt)
          · exact ⟨hn, hlt⟩
          · exact absurd ⟨hlt.1, hlt.2, hxl⟩ hx
  rw [LruStack.getElem?_erase_concat hb (by omega) hcapl]
  unfold FALRU.tailStep
  rw [hboundary, hlast]
  by_cases hin : l.idxOf b < s.params.capacity n
  · -- the cache loses the block, and gets the one after its last one
    have hnext : s'.links.next last = some l[s.params.capacity n] := by
      have := h.orders.next_eq (i := s.params.capacity n - 1) (by omega)
      rw [Nat.sub_add_cancel (by omega), List.getElem?_eq_getElem hcapl] at this
      rw [List.getElem?_eq_getElem (by omega)] at hget
      rw [hlinks, ← this, Option.some.inj hget]
    have hidx' : l.idxOf l[s.params.capacity n] = s.params.capacity n :=
      h.orders.nodup.idxOf_getElem _ hcapl
    have hneb : l[s.params.capacity n] ≠ b := by
      intro heq
      rw [heq] at hidx'
      omega
    rw [if_pos (hupdate.2 hin), if_neg (by omega)]
    simp only [Option.bind_eq_bind, Option.bind_some, hnext,
      if_neg fun heq => hneb (Option.some.inj heq)]
    refine ⟨_, rfl, (Keeps.setBoundary _ _ _).trans (.setMask _ _ _), rfl, ?_, fun x i hi => ?_⟩
    · change Function.update s'.boundaries n _ = _
      rw [List.getElem?_eq_getElem hcapl]
    · rw [inCache_setMask]
      by_cases hx : x = l[s.params.capacity n]
      · have hxl : x ∈ l := hx ▸ List.getElem_mem hcapl
        have hxb : x ≠ b := hx ▸ hneb
        rw [if_pos hx, getLsbD_or_bit hi]
        by_cases hi' : i = n
        · rw [if_pos hi', if_neg (not_or.2 ⟨hxb, not_not.2 hxl⟩), decide_eq_true hi'.symm,
            Bool.or_true, eq_comm, decide_eq_true_iff, hplace x hxl hxb]
          exact Or.inr ⟨hin, hx ▸ hidx'⟩
        · rw [if_neg hi', decide_eq_false (Ne.symm hi'), Bool.or_false, hx]
          rfl
      · rw [if_neg hx, inCache_setBoundary]
        split
        · next hi' =>
            rw [hi']
            refine hcolumn x fun hx' => hx ?_
            have hgetx := List.getElem_idxOf (List.idxOf_lt_length_of_mem hx'.2.2)
            simp only [hx'.2.1] at hgetx
            exact hgetx.symm
        · rfl
  · rw [if_neg fun hu => hin (hupdate.1 hu), if_pos (by omega)]
    refine ⟨s', rfl, .refl _, rfl, ?_, fun x i _ => ?_⟩
    · rw [hget, ← hlast, ← hboundary, Function.update_eq_self]
    · split
      · next hi' => rw [hi', hcolumn x fun hx => hin hx.1]
      · rfl

/-- What `moveBlockToTail` does before the block is moved. -/
theorem Tidy.moveBlockToTail (h : Tidy s l) (hb : b ∈ l) :
    ∃ s', s.moveBlockToTail b = some s' ∧ Keeps s s' ∧ s'.links = s.links ∧
      (∀ i < s.params.numTrackedCaches,
        s'.boundaries i = (l.erase b ++ [b])[s.params.capacity i - 1]?) ∧
      ∀ x ∈ l, ∀ i < 32, s'.inCache x i = decide (i < s.params.numTrackedCaches ∧
        (l.erase b ++ [b]).idxOf x < s.params.capacity i) := by
  have hK := h.sized.numTrackedCaches_lt
  obtain ⟨s₁, hfold, hkeeps, hlinks, hboundaries, hmasks⟩ := loop_columns hK.le
    fun n hn s' _ hlinks hboundary hmask => h.tailStep hb hn hlinks hboundary hmask
  refine ⟨s₁.setMask b 0, ?_, hkeeps.trans (.setMask _ _ _), hlinks, ?_, ?_⟩
  · exact congrArg (Option.map _) hfold
  · exact fun i hi => (hboundaries i).trans (if_pos hi)
  · intro x hx i hi
    rw [inCache_setMask]
    by_cases hxb : x = b
    · subst hxb
      have hzero : (0 : CachesMask).getLsbD i = false := BitVec.getLsbD_zero
      rw [if_pos rfl, LruStack.idxOf_erase_concat h.orders.nodup hb hx, if_pos rfl, h.length,
        hzero, eq_comm, decide_eq_false_iff_not]
      rintro ⟨hi', hlt⟩
      have := h.sized.capacity_lt hi'
      omega
    · rw [if_neg hxb, hmasks x i hi]
      by_cases hik : i < s.params.numTrackedCaches
      · rw [if_pos hik, if_neg (not_or.2 ⟨hxb, not_not.2 hx⟩), decide_eq_decide]
        exact (and_iff_right hik).symm
      · rw [if_neg hik, h.inCache hx hi, decide_eq_decide]
        exact ⟨fun h => absurd h.1 hik, fun h => absurd h.1 hik⟩

/-- A move to the head of a block that is not there. -/
theorem Tidy.moveToHead_of_ne (h : Tidy s l) (hb : b ∈ l) (hne : b ≠ s.links.head) :
    ∃ s', s.moveToHead b = some s' ∧ Keeps s s' ∧ s'.links.Orders (b :: l.erase b) ∧
      (∀ i < s.params.numTrackedCaches, s'.boundaries i = s.headBoundary b l i) ∧
      ∀ x ∈ l, ∀ i < 32, s'.inCache x i = decide (i < s.params.numTrackedCaches ∧
        (b :: l.erase b).idxOf x < s.params.capacity i) := by
  obtain ⟨s₁, hs₁, hkeeps, hlinks, hboundaries, hmasks⟩ := h.moveBlockToHead hb hne
  obtain ⟨k, hk, horders⟩ := h.orders.toHead hb hne
  refine ⟨{ s₁ with links := k }, ?_, hkeeps.setLinks k, horders,
    hboundaries, hmasks⟩
  unfold FALRU.moveToHead
  rw [if_pos hne, hs₁, Option.bind_some, hlinks, hk]
  rfl

theorem mem_cons_erase (hb : b ∈ l) (x : ℕ) : x ∈ b :: l.erase b ↔ x ∈ l :=
  (List.perm_cons_erase hb).mem_iff.symm

/-- **A move to the head keeps the invariant**, and dereferences no null pointer, if the smallest
tracked cache has room for two blocks. -/
theorem Tidy.moveToHead (h : Tidy s l) (hroomy : s.params.Roomy) (hb : b ∈ l) :
    ∃ s', s.moveToHead b = some s' ∧ Keeps s s' ∧ Tidy s' (b :: l.erase b) := by
  by_cases hne : b ≠ s.links.head
  · obtain ⟨s', hs', hkeeps, horders, hboundaries, hmasks⟩ := h.moveToHead_of_ne hb hne
    refine ⟨s', hs', hkeeps, hkeeps.params ▸ h.sized, horders, fun x => ?_, fun x hx i hi => ?_,
      fun i hi => ?_⟩
    · rw [mem_cons_erase hb, h.mem, ← hkeeps.params]
    · rw [← hkeeps.params] at hmasks
      exact hmasks x ((mem_cons_erase hb x).1 hx) i hi
    · have hcap := hroomy.two_le_capacity i
      rw [hkeeps.params] at hi ⊢
      rw [hboundaries i hi, headBoundary, if_neg (by omega)]
  · have hhead : l.head? = some b := not_not.1 hne ▸ h.orders.head
    have hl : b :: l.erase b = l := by
      cases l with
      | nil => cases hhead
      | cons x l =>
          cases hhead
          rw [List.erase_cons_head]
    unfold FALRU.moveToHead
    rw [if_neg hne]
    exact ⟨s, rfl, .refl s, hl.symm ▸ h⟩

/-- **A move to the tail keeps the invariant**, and dereferences no null pointer. -/
theorem Tidy.moveToTail (h : Tidy s l) (hb : b ∈ l) :
    ∃ s', s.moveToTail b = some s' ∧ Keeps s s' ∧ Tidy s' (l.erase b ++ [b]) := by
  unfold FALRU.moveToTail
  by_cases hne : b ≠ s.links.tail
  · obtain ⟨s₁, hs₁, hkeeps, hlinks, hboundaries, hmasks⟩ := h.moveBlockToTail hb
    obtain ⟨k, hk, horders⟩ := h.orders.toTail hb hne
    rw [if_pos hne, hs₁, Option.bind_some, hlinks, hk]
    refine ⟨{ s₁ with links := k }, rfl, hkeeps.setLinks k, ?_⟩
    have hmem : ∀ x, x ∈ l.erase b ++ [b] ↔ x ∈ l := fun x =>
      ((List.perm_append_singleton b _).trans (List.perm_cons_erase hb).symm).mem_iff
    refine ⟨hkeeps.params ▸ h.sized, horders, fun x => ?_, fun x hx i hi => ?_, fun i hi => ?_⟩
    · rw [hmem, h.mem, ← hkeeps.params]
    · rw [← hkeeps.params] at hmasks
      exact hmasks x ((hmem x).1 hx) i hi
    · rw [← hkeeps.params] at hboundaries
      exact hboundaries i hi
  · rw [if_neg hne]
    have htail : l.getLast? = some b := not_not.1 hne ▸ h.orders.tail
    have hl : l.erase b ++ [b] = l := by
      obtain ⟨l, rfl⟩ := List.getLast?_eq_some_iff.1 htail
      have hnot : b ∉ l := fun hmem =>
        (List.nodup_append'.1 h.orders.nodup).2.2 hmem (List.mem_singleton_self b)
      rw [List.erase_append_right _ hnot, List.erase_cons_head, List.append_nil]
    exact ⟨s, rfl, .refl s, hl.symm ▸ h⟩

/-! ### The initialization -/

/-- Nothing is in the tag store, and nothing has been counted. -/
structure Fresh (s : FALRU) : Prop where
  valid : ∀ b, (s.blks b).valid = false
  secure : ∀ b, (s.blks b).secure = false
  tagHash : ∀ key, s.tagHash key = none
  stats : s.stats = ⟨fun _ => 0, fun _ => 0, 0, 0⟩

theorem Fresh.keeps (h : Fresh s) (hkeeps : Keeps s s') : Fresh s' where
  valid b := (hkeeps.valid b).trans (h.valid b)
  secure b := (congrArg TagHashKey.secure (hkeeps.key b)).trans (h.secure b)
  tagHash key := (congrFun hkeeps.tagHash key).trans (h.tagHash key)
  stats := hkeeps.stats.trans h.stats

/-- The loop of `init` gives the blocks their masks, and finds the boundaries. -/
theorem exists_init (hs : s.params.Sized) (horders : s.links.Orders l)
    (hlength : l.length = s.params.numBlocks) :
    ∀ p ≤ l.length, ∃ s' c, (l.take p).foldlM initStep (s, s.cursor) = some (s', c) ∧ Keeps s s' ∧
      s'.links = s.links ∧ CursorAt s' c p ∧
      (∀ x ∈ l.take p, ∀ i < 32, s'.inCache x i =
        decide (i < s.params.numTrackedCaches ∧ l.idxOf x < s.params.capacity i)) ∧
      ∀ i < s.params.numTrackedCaches, s.params.capacity i ≤ p →
        s'.boundaries i = l[s.params.capacity i - 1]? := by
  intro p
  induction p with
  | zero =>
      refine fun _ => ⟨s, s.cursor, rfl, .refl s, rfl, .cursor hs, ?_, fun i _ hi => ?_⟩
      · intro x hx
        exact absurd hx List.not_mem_nil
      · have := hs.capacity_pos i
        omega
  | succ p ih =>
      intro hp
      have hlt : p < l.length := by omega
      obtain ⟨s₁, c, hfold, hkeeps, hlinks, hc, hmasks, hboundaries⟩ := ih (by omega)
      have hparams := hkeeps.params
      have hs₁ : s₁.params.Sized := hparams ▸ hs
      have horders₁ : s₁.links.Orders l := hlinks ▸ horders
      have hlength₁ : l.length = s₁.params.numBlocks := hparams ▸ hlength
      have hiff := hc.isBoundary_iff hs₁ horders₁ hlength₁ hlt
      have hadvance := hc.advance hs₁ horders₁ hlength₁ hlt
      have htake : l.take (p + 1) = l.take p ++ [l[p]] := List.take_succ_eq_append_getElem hlt
      -- the masks, after this block has got its own
      have hmasks' : ∀ x ∈ l.take (p + 1), ∀ i < 32, (s₁.setMask l[p] c.inCachesMask).inCache x i =
          decide (i < s.params.numTrackedCaches ∧ l.idxOf x < s.params.capacity i) := by
        intro x hx i hi
        rw [inCache_setMask]
        split
        · next hxp =>
            rw [hc.mask i hi, hxp, horders.nodup.idxOf_getElem, hparams]
        · next hxp =>
            rw [htake] at hx
            rcases List.mem_append.1 hx with hx | hx
            · exact hmasks x hx i hi
            · exact absurd (List.mem_singleton.1 hx) hxp
      rw [htake, List.foldlM_append, hfold]
      change ∃ s' c', ([l[p]].foldlM initStep (s₁, c)) = some (s', c') ∧ _
      rw [← htake, List.foldlM_cons]
      by_cases hb : s₁.isBoundary c l[p] = true
      · obtain ⟨hj, hcap⟩ := hiff.1 hb
        refine ⟨_, s₁.advance c l[p], ?_, hkeeps.trans ((Keeps.setMask s₁ l[p] c.inCachesMask).trans
          (.setBoundary _ c.j (some l[p]))), hlinks,
          ⟨hadvance.1, hadvance.2, hadvance.3, hadvance.4, hadvance.5⟩, hmasks', fun i hi hle => ?_⟩
        · have hstep : initStep (s₁, c) l[p] =
              some ((s₁.setMask l[p] c.inCachesMask).setBoundary c.j
              (some l[p]), s₁.advance c l[p]) := (if_pos hb).trans (if_pos hj)
          rw [hstep]
          rfl
        · change Function.update s₁.boundaries c.j (some l[p]) i = _
          by_cases hij : i = c.j
          · subst hij
            rw [Function.update_self, ← hparams, hcap, Nat.add_sub_cancel,
              List.getElem?_eq_getElem hlt]
          · rw [Function.update_of_ne hij]
            refine hboundaries i hi ?_
            have hi₁ := hc.lt_iff i (hparams ▸ hi)
            rw [hparams] at hi₁ hcap
            rcases Nat.lt_or_gt_of_ne hij with h | h
            · exact hi₁.1 h
            · have := hs.capacity_lt_capacity h
              omega
      · refine ⟨_, s₁.advance c l[p], ?_,
          hkeeps.trans (Keeps.setMask s₁ l[p] c.inCachesMask), hlinks,
          ⟨hadvance.1, hadvance.2, hadvance.3, hadvance.4, hadvance.5⟩, hmasks',
          fun i hi hle => hboundaries i hi ?_⟩
        · have hstep : initStep (s₁, c) l[p] = some (s₁.setMask l[p] c.inCachesMask,
              s₁.advance c l[p]) := if_neg hb
          rw [hstep]
          rfl
        · have hi₁ := hadvance.lt_iff i (hparams ▸ hi)
          have hi₂ := hc.lt_iff i (hparams ▸ hi)
          rw [hparams] at hi₁ hi₂
          have hj : (s₁.advance c l[p]).j = c.j := by
            unfold FALRU.advance
            rw [if_neg hb]
          omega

/-- **The constructor**: with sizes that fit, it does not fail, and establishes the invariant.  It
registers no callback. -/
theorem exists_new {p : FALRUParams} (h : p.Sized) :
    ∃ s, new p = some s ∧ s.params = p ∧ Tidy s (List.range p.numBlocks) ∧ Fresh s ∧
      ∀ b, (s.blks b).extractTag = none := by
  have hpower : ∀ x : ℕ, x.isPowerOfTwo → isPowerOf2 x = true := by
    intro x hx
    have := Nat.ne_zero_and_sub_one_eq_zero_iff_isPowerOfTwo.2 hx
    unfold isPowerOf2
    simpa using this
  have hN := h.two_le_numBlocks
  have hcond : isPowerOf2 p.blockSize ∧ isPowerOf2 p.size ∧ p.numTrackedCaches ≤ 32 ∧
      2 ≤ p.numBlocks := ⟨hpower _ h.block, hpower _ h.size, h.numTrackedCaches_lt.le, hN⟩
  unfold new
  rw [if_pos hcond]
  generalize hs₀ : FALRU.mk p _ _ _ _ _ = s₀
  have hparams : s₀.params = p := by rw [← hs₀]
  have hfresh : Fresh s₀ := by
    rw [← hs₀]
    exact ⟨fun _ => rfl, fun _ => rfl, fun _ => rfl, rfl⟩
  have hext : ∀ b, (s₀.blks b).extractTag = none := by
    rw [← hs₀]
    exact fun _ => rfl
  have hlength : (List.range p.numBlocks).length = p.numBlocks := List.length_range
  have horders : s₀.links.Orders (List.range p.numBlocks) := by
    rw [← hs₀]
    refine ⟨List.nodup_range, ?_, ?_, Links.Chain.of_getElem (fun i hi => ?_) fun i hi => ?_⟩
    · rw [List.head?_range, if_neg (by omega)]
    · rw [List.getLast?_range, if_neg (by omega)]
    · rw [List.getElem_range]
      by_cases h0 : i = 0
      · rw [if_pos h0]
        exact if_pos h0
      · rw [if_neg h0, List.getElem?_range (by omega)]
        exact if_neg h0
    · rw [List.getElem_range, Option.or_none]
      by_cases hlt : i + 1 < p.numBlocks
      · rw [List.getElem?_range hlt]
        exact if_pos hlt
      · rw [List.getElem?_eq_none (by omega)]
        exact if_neg hlt
  have hmem : ∀ b, b ∈ List.range p.numBlocks ↔ b < s₀.params.numBlocks := by
    intro b
    rw [List.mem_range, hparams]
  unfold initTracking
  by_cases hK : s₀.params.numTrackedCaches = 0
  · rw [if_pos hK]
    refine ⟨s₀, rfl, hparams, ⟨hparams ▸ h, horders, hmem, fun b _ i hi => ?_, fun i hi => ?_⟩,
      hfresh, hext⟩
    · rw [hK, ← hs₀]
      change (0 : CachesMask).getLsbD i = _
      simp
    · omega
  · have hlist : s₀.list = List.range p.numBlocks := by
      unfold FALRU.list
      rw [← horders.head, hparams]
      exact walk_eq hlength.le horders.chain
    obtain ⟨s', c, hfold, hkeeps, hlinks, -, hmasks, hboundaries⟩ := exists_init (s := s₀)
      (hparams ▸ h) horders (hlength.trans (congrArg _ hparams.symm)) _ le_rfl
    rw [List.take_length] at hfold hmasks
    rw [if_neg hK, hlist, hfold]
    refine ⟨s', rfl, hkeeps.params.trans hparams, ⟨?_, hlinks ▸ horders, fun b => ?_,
      fun b hb i hi => ?_, fun i hi => ?_⟩, hfresh.keeps hkeeps,
      fun b => (hkeeps.extractTag b).trans (hext b)⟩
    · rw [hkeeps.params, hparams]
      exact h
    · rw [hmem, hkeeps.params]
    · rw [hkeeps.params]
      exact hmasks b hb i hi
    · rw [hkeeps.params] at hi ⊢
      refine hboundaries i hi ?_
      rw [hlength]
      rw [hparams] at hi ⊢
      exact (h.capacity_lt hi).le

end FALRU

end OpenCache
