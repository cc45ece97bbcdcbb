/-
`class cache_config`: the fields of a configuration, the checks of `cache_config::init` on the
scanned string, and the address functions `tag`, `block_addr`, `mshr_addr` and `set_index`.

* `OpenCache.CacheConfig.init` — the part of `cache_config::init` that follows `sscanf`;
* `OpenCache.CacheConfig.Accepted` — a configuration that `init` accepts, with the fields that
  have their own setters (`m_wr_percent`, `m_defer_hit_response`, `m_hit_response_queue_size`) free;
* `OpenCache.CacheConfig.setIndex` — the set of an address, with the assertions of `hash_function`;
* `OpenCache.CacheConfig.sectorOf`, `OpenCache.CacheConfig.mshrAddr_eq_iff` — which sector of its
  block an address lies in, and that `mshr_addr` identifies the block and, in a sector cache, the
  sector.
-/

import OpenCache.Types
import OpenCache.Alignment

set_option relaxedAutoImplicit false
set_option autoImplicit false

namespace OpenCache

/-! ### The fields -/

/-- The fields of `cache_config` that the caches read. -/
structure CacheConfig where
  cacheType : CacheType
  nset : ℕ
  nsetLog2 : ℕ
  lineSz : ℕ
  lineSzLog2 : ℕ
  assoc : ℕ
  originalAssoc : ℕ
  atomSz : ℕ
  isStreaming : Bool
  replacementPolicy : ReplacementPolicy
  writePolicy : WritePolicy
  allocPolicy : AllocationPolicy
  writeAllocPolicy : WriteAllocatePolicy
  mshrType : MshrConfig
  setIndexFunction : SetIndexFunction
  mshrEntries : ℕ
  mshrMaxMerge : ℕ
  missQueueSize : ℕ
  resultFifoEntries : ℕ
  dataPortWidth : ℕ
  deferHitResponse : Bool
  hitResponseQueueSize : ℕ
  wrPercent : ℕ

/-- What `sscanf` reads from the configuration string.  The first twelve fields are there whenever
`ntok` is at least 12; the last three may be missing. -/
structure ScannedConfig where
  ct : Char
  nset : ℕ
  lineSz : ℕ
  assoc : ℕ
  rp : Char
  wp : Char
  ap : Char
  wap : Char
  sif : Char
  mshrType : Char
  mshrEntries : ℕ
  mshrMaxMerge : ℕ
  missQueueSize : Option ℕ
  resultFifoEntries : Option ℕ
  dataPortWidth : Option ℕ

/-- The number of tokens `sscanf` reports. -/
def ScannedConfig.ntok (t : ScannedConfig) : ℕ :=
  12 + t.missQueueSize.toList.length + t.resultFifoEntries.toList.length +
    t.dataPortWidth.toList.length

namespace CacheConfig

/-! ### `cache_config::init` -/

/-- The `switch (ct)` of `init`. -/
def scanCacheType : Char → Step CacheType
  | 'N' => .ok .normal
  | 'S' => .ok .sector
  | _ => .error .configInit

/-- The `switch (rp)` of `init`. -/
def scanReplacementPolicy : Char → Step ReplacementPolicy
  | 'L' => .ok .lru
  | 'F' => .ok .fifo
  | _ => .error .configInit

/-- The `switch (wp)` of `init`. -/
def scanWritePolicy : Char → Step WritePolicy
  | 'R' => .ok .readOnly
  | 'B' => .ok .writeBack
  | 'T' => .ok .writeThrough
  | 'E' => .ok .writeEvict
  | 'L' => .ok .localWbGlobalWt
  | _ => .error .configInit

/-- The `switch (ap)` of `init`. -/
def scanAllocPolicy : Char → Step AllocationPolicy
  | 'm' => .ok .onMiss
  | 'f' => .ok .onFill
  | 's' => .ok .streaming
  | _ => .error .configInit

/-- The `switch (mshr_type)` of `init`, with the token count it asserts. -/
def scanMshrType (ntok : ℕ) : Char → Step MshrConfig
  | 'F' => if ntok = 14 then .ok .texFifo else .error .configInit
  | 'T' => if ntok = 14 then .ok .sectorTexFifo else .error .configInit
  | 'A' => .ok .assoc
  | 'S' => .ok .sectorAssoc
  | _ => .error .configInit

/-- The `switch (wap)` of `init`. -/
def scanWriteAllocPolicy : Char → Step WriteAllocatePolicy
  | 'N' => .ok .noWriteAllocate
  | 'W' => .ok .writeAllocate
  | 'F' => .ok .fetchOnWrite
  | 'L' => .ok .lazyFetchOnRead
  | _ => .error .configInit

/-- The `switch (sif)` of `init`. -/
def scanSetIndexFunction : Char → Step SetIndexFunction
  | 'H' => .ok .fermiHashSetFunction
  | 'P' => .ok .hashIpolyFunction
  | 'C' => .ok .customSetFunction
  | 'L' => .ok .linearSetFunction
  | 'X' => .ok .bitwiseXoringFunction
  | _ => .error .configInit

/-- `cache_config::init` after `sscanf`: a field that was not scanned keeps the value it had in
`old`. -/
def init (old : CacheConfig) (t : ScannedConfig) : Step CacheConfig := do
  let cacheType ← scanCacheType t.ct
  let replacementPolicy ← scanReplacementPolicy t.rp
  let writePolicy ← scanWritePolicy t.wp
  let scannedAlloc ← scanAllocPolicy t.ap
  -- a streaming cache is an allocate-on-fill cache
  let isStreaming := if scannedAlloc = .streaming then true else old.isStreaming
  let allocPolicy := if scannedAlloc = .streaming then .onFill else scannedAlloc
  let mshrType ← scanMshrType t.ntok t.mshrType
  let writeAllocPolicy ← scanWriteAllocPolicy t.wap
  assertThat (¬((allocPolicy = .onFill ∨ allocPolicy = .streaming) ∧ writePolicy = .writeBack))
    .configInit
  assertThat (¬((writeAllocPolicy = .fetchOnWrite ∨ writeAllocPolicy = .lazyFetchOnRead) ∧
    allocPolicy = .onFill)) .configInit
  assertThat (cacheType = .sector →
    t.lineSz / sectorSize = sectorChunckSize ∧ t.lineSz % sectorSize = 0) .configInit
  let scannedWidth := t.dataPortWidth.getD old.dataPortWidth
  let dataPortWidth := if scannedWidth = 0 then t.lineSz else scannedWidth
  -- with a width of zero the remainder is a division by zero
  assertThat (dataPortWidth ≠ 0 ∧ t.lineSz % dataPortWidth = 0) .configInit
  let setIndexFunction ← scanSetIndexFunction t.sif
  return { old with
    cacheType, replacementPolicy, writePolicy, allocPolicy, isStreaming, mshrType,
    writeAllocPolicy, dataPortWidth, setIndexFunction
    nset := t.nset
    nsetLog2 := Nat.log2 t.nset
    lineSz := t.lineSz
    lineSzLog2 := Nat.log2 t.lineSz
    assoc := t.assoc
    originalAssoc := t.assoc
    atomSz := if cacheType = .sector then sectorSize else t.lineSz
    mshrEntries := t.mshrEntries
    mshrMaxMerge := t.mshrMaxMerge
    missQueueSize := t.missQueueSize.getD old.missQueueSize
    resultFifoEntries := t.resultFifoEntries.getD old.resultFifoEntries }

/-- The public setters: `m_wr_percent`, `set_defer_hit_response`, `set_hit_response_queue_size`. -/
def setOptions (c : CacheConfig) (wrPercent : ℕ) (deferHitResponse : Bool)
    (hitResponseQueueSize : ℕ) : CacheConfig :=
  { c with wrPercent, deferHitResponse, hitResponseQueueSize }

/-- A configuration accepted by `init`, after any use of the setters. -/
def Accepted (cfg : CacheConfig) : Prop :=
  ∃ old t c wrPercent defer size, init old t = .ok c ∧ cfg = c.setOptions wrPercent defer size

/-! ### Addresses -/

/-- `cache_config::tag`. -/
def tag (cfg : CacheConfig) (addr : NewAddrType) : NewAddrType :=
  Alignment.alignDown cfg.lineSz addr

/-- `cache_config::block_addr`. -/
def blockAddr (cfg : CacheConfig) (addr : NewAddrType) : NewAddrType :=
  Alignment.alignDown cfg.lineSz addr

/-- `cache_config::mshr_addr`. -/
def mshrAddr (cfg : CacheConfig) (addr : NewAddrType) : NewAddrType :=
  Alignment.alignDown cfg.atomSz addr

/-- `bitwise_hash_function`. -/
def bitwiseHashFunction (higherBits : BitVec 64) (index bankSetNum : BitVec 32) : BitVec 32 :=
  ((index.setWidth 64 ^^^ higherBits) &&& (bankSetNum - 1).setWidth 64).setWidth 32

/-- `ipoly_hash_function`. -/
def ipolyHashFunction (higherBits : BitVec 64) (_index bankSetNum : BitVec 32) : BitVec 32 :=
  let h := higherBits.setWidth 32 ^^^ (higherBits >>> 32).setWidth 32
  let h := (h ^^^ (h >>> 16)) * 0x85ebca6b#32
  let h := (h ^^^ (h >>> 13)) * 0xc2b2ae35#32
  let h := h ^^^ (h >>> 16)
  h &&& (bankSetNum - 1)

/-- The `switch` of `cache_config::hash_function`. -/
def hashIndex (cfg : CacheConfig) (addr : NewAddrType) : Step (BitVec 32) :=
  let nset : BitVec 32 := BitVec.ofNat 32 cfg.nset
  let higherBits := addr >>> (cfg.lineSzLog2 + cfg.nsetLog2)
  let index : BitVec 32 := ((addr >>> cfg.lineSzLog2) &&& (nset - 1).setWidth 64).setWidth 32
  match cfg.setIndexFunction with
  | .fermiHashSetFunction =>
      if cfg.nset = 32 ∨ cfg.nset = 64 then
        -- bits 7-11, then bits 13, 14, 15, 17 and 19
        let lowerXor : BitVec 32 := ((addr >>> cfg.lineSzLog2) &&& 0x1F).setWidth 32
        let upperXor : BitVec 32 := ((addr &&& 0xE000) >>> 13).setWidth 32 |||
          ((addr &&& 0x20000) >>> 14).setWidth 32 ||| ((addr &&& 0x80000) >>> 15).setWidth 32
        let setIndex := lowerXor ^^^ upperXor
        .ok (if cfg.nset = 64 then setIndex ||| ((addr &&& 0x1000) >>> 7).setWidth 32 else setIndex)
      else .error .fermiNset
  | .bitwiseXoringFunction => .ok (bitwiseHashFunction higherBits index nset)
  | .hashIpolyFunction => .ok (ipolyHashFunction higherBits index nset)
  | .customSetFunction => .ok 0
  | .linearSetFunction => .ok index

/-- `cache_config::set_index`. -/
def setIndex (cfg : CacheConfig) (addr : NewAddrType) : Step ℕ := do
  let setIndex ← cfg.hashIndex addr
  assertThat (setIndex.toNat < cfg.nset) .setIndexOutOfBounds
  return setIndex.toNat

/-- `cache_config::get_num_lines`. -/
def getNumLines (cfg : CacheConfig) : ℕ := cfg.nset * cfg.assoc

/-- `sector_cache_block::get_sector_index`.  A line block ignores the mask, so in a `NORMAL` cache
there is nothing to look up and nothing to assert. -/
def getSectorIndex (cfg : CacheConfig) (mask : MemAccessSectorMask) : Step (Fin 4) :=
  match cfg.cacheType with
  | .normal => .ok 0
  | .sector =>
      if mask.card = 1 then
        .ok (if 0 ∈ mask then 0 else if 1 ∈ mask then 1 else if 2 ∈ mask then 2 else 3)
      else .error .sectorIndex

/-- The sector index of a mask, where `get_sector_index` has one. -/
def sectorIndex (cfg : CacheConfig) (mask : MemAccessSectorMask) : Fin 4 :=
  match cfg.getSectorIndex mask with
  | .ok i => i
  | .error _ => 0

theorem sectorIndex_eq {cfg : CacheConfig} {mask : MemAccessSectorMask} {i : Fin 4}
    (h : cfg.getSectorIndex mask = .ok i) : cfg.sectorIndex mask = i := by
  rw [sectorIndex, h]

/-! ### What `init` guarantees -/

/-- The checks that the configurations accepted by `init` pass. -/
structure Checked (cfg : CacheConfig) : Prop where
  /-- The streaming policy has been replaced by allocate-on-fill. -/
  alloc : cfg.allocPolicy = .onMiss ∨ cfg.allocPolicy = .onFill
  /-- A write-back cache allocates on misses. -/
  writeBack : cfg.writePolicy = .writeBack → cfg.allocPolicy = .onMiss
  /-- The two fetch policies need allocation on misses. -/
  fetch : cfg.writeAllocPolicy = .fetchOnWrite ∨ cfg.writeAllocPolicy = .lazyFetchOnRead →
    cfg.allocPolicy = .onMiss
  /-- A sector cache has lines of 128 bytes. -/
  sectorLine : cfg.cacheType = .sector → cfg.lineSz = 128
  /-- The atom of a sector cache is a sector. -/
  sectorAtom : cfg.cacheType = .sector → cfg.atomSz = 32
  /-- The atom of a normal cache is a line. -/
  normalAtom : cfg.cacheType = .normal → cfg.atomSz = cfg.lineSz
  /-- The data port has a width. -/
  portWidth : 0 < cfg.dataPortWidth

/-- What `init` accepts, and what it makes of it: its `switch`es know the letters, its three checks
pass, and the width of the data port divides the line. -/
theorem init_eq_ok {old c : CacheConfig} {t : ScannedConfig} : init old t = .ok c ↔
    ∃ ct rp wp ap mt wap sif, scanCacheType t.ct = .ok ct ∧ scanReplacementPolicy t.rp = .ok rp ∧
      scanWritePolicy t.wp = .ok wp ∧ scanAllocPolicy t.ap = .ok ap ∧
      scanMshrType t.ntok t.mshrType = .ok mt ∧ scanWriteAllocPolicy t.wap = .ok wap ∧
      ¬(((if ap = .streaming then .onFill else ap) = .onFill ∨
        (if ap = .streaming then .onFill else ap) = .streaming) ∧ wp = .writeBack) ∧
      ¬((wap = .fetchOnWrite ∨ wap = .lazyFetchOnRead) ∧
        (if ap = .streaming then .onFill else ap) = .onFill) ∧
      (ct = .sector → t.lineSz / sectorSize = sectorChunckSize ∧ t.lineSz % sectorSize = 0) ∧
      ((if t.dataPortWidth.getD old.dataPortWidth = 0 then t.lineSz
        else t.dataPortWidth.getD old.dataPortWidth) ≠ 0 ∧
        t.lineSz % (if t.dataPortWidth.getD old.dataPortWidth = 0 then t.lineSz
          else t.dataPortWidth.getD old.dataPortWidth) = 0) ∧
      scanSetIndexFunction t.sif = .ok sif ∧
      c = { old with
        cacheType := ct
        replacementPolicy := rp
        writePolicy := wp
        allocPolicy := if ap = .streaming then .onFill else ap
        isStreaming := if ap = .streaming then true else old.isStreaming
        mshrType := mt
        writeAllocPolicy := wap
        dataPortWidth := if t.dataPortWidth.getD old.dataPortWidth = 0 then t.lineSz
          else t.dataPortWidth.getD old.dataPortWidth
        setIndexFunction := sif
        nset := t.nset
        nsetLog2 := Nat.log2 t.nset
        lineSz := t.lineSz
        lineSzLog2 := Nat.log2 t.lineSz
        assoc := t.assoc
        originalAssoc := t.assoc
        atomSz := if ct = .sector then sectorSize else t.lineSz
        mshrEntries := t.mshrEntries
        mshrMaxMerge := t.mshrMaxMerge
        missQueueSize := t.missQueueSize.getD old.missQueueSize
        resultFifoEntries := t.resultFifoEntries.getD old.resultFifoEntries } := by
  unfold init
  constructor
  · intro h
    obtain ⟨ct, hct, h⟩ := bind_eq_ok.1 h
    obtain ⟨rp, hrp, h⟩ := bind_eq_ok.1 h
    obtain ⟨wp, hwp, h⟩ := bind_eq_ok.1 h
    obtain ⟨ap, hap, h⟩ := bind_eq_ok.1 h
    obtain ⟨mt, hmt, h⟩ := bind_eq_ok.1 h
    obtain ⟨wap, hwap, h⟩ := bind_eq_ok.1 h
    obtain ⟨_, hwb, h⟩ := bind_eq_ok.1 h
    obtain ⟨_, hfetch, h⟩ := bind_eq_ok.1 h
    obtain ⟨_, hsector, h⟩ := bind_eq_ok.1 h
    obtain ⟨_, hwidth, h⟩ := bind_eq_ok.1 h
    obtain ⟨sif, hsif, h⟩ := bind_eq_ok.1 h
    cases h
    exact ⟨ct, rp, wp, ap, mt, wap, sif, hct, hrp, hwp, hap, hmt, hwap, assertThat_eq_ok.1 hwb,
      assertThat_eq_ok.1 hfetch, assertThat_eq_ok.1 hsector, assertThat_eq_ok.1 hwidth, hsif, rfl⟩
  · rintro ⟨ct, rp, wp, ap, mt, wap, sif, hct, hrp, hwp, hap, hmt, hwap, hwb, hfetch, hsector,
      hwidth, hsif, rfl⟩
    exact bind_eq_ok.2 ⟨ct, hct, bind_eq_ok.2 ⟨rp, hrp, bind_eq_ok.2 ⟨wp, hwp,
      bind_eq_ok.2 ⟨ap, hap, bind_eq_ok.2 ⟨mt, hmt, bind_eq_ok.2 ⟨wap, hwap,
      bind_eq_ok.2 ⟨(), assertThat_of _ hwb, bind_eq_ok.2 ⟨(), assertThat_of _ hfetch,
      bind_eq_ok.2 ⟨(), assertThat_of _ hsector, bind_eq_ok.2 ⟨(), assertThat_of _ hwidth,
      bind_eq_ok.2 ⟨sif, hsif, rfl⟩⟩⟩⟩⟩⟩⟩⟩⟩⟩⟩

theorem checked_of_init {old c : CacheConfig} {t : ScannedConfig} (h : init old t = .ok c) :
    c.Checked := by
  obtain ⟨ct, rp, wp, ap, mt, wap, sif, -, -, -, -, -, -, hwb, hfetch, hsector, hwidth, -, rfl⟩ :=
    init_eq_ok.1 h
  have halloc : (if ap = .streaming then .onFill else ap) = AllocationPolicy.onMiss ∨
      (if ap = .streaming then .onFill else ap) = AllocationPolicy.onFill := by
    cases ap <;> decide
  refine ⟨halloc, fun hw => ?_, fun hf => ?_, fun hs => ?_, fun hs => if_pos hs, fun hs => ?_,
    Nat.pos_of_ne_zero hwidth.1⟩
  · exact halloc.resolve_right fun hfill => hwb ⟨Or.inl hfill, hw⟩
  · exact halloc.resolve_right fun hfill => hfetch ⟨hf, hfill⟩
  · have hline := hsector hs
    change t.lineSz = 128
    simp only [sectorSize, sectorChunckSize] at hline
    omega
  · change ct = .normal at hs
    subst hs
    rfl

theorem Accepted.checked {cfg : CacheConfig} (h : cfg.Accepted) : cfg.Checked := by
  obtain ⟨old, t, c, wrPercent, defer, size, hinit, rfl⟩ := h
  have hc := checked_of_init hinit
  exact ⟨hc.alloc, hc.writeBack, hc.fetch, hc.sectorLine, hc.sectorAtom, hc.normalAtom,
    hc.portWidth⟩

/-! ### Blocks and sectors -/

/-- The sector of its block that an address lies in. -/
def sectorOf (addr : NewAddrType) : Fin 4 := ⟨addr.toNat / 32 % 4, Nat.mod_lt _ (by decide)⟩

@[simp] theorem blockAddr_blockAddr (cfg : CacheConfig) (addr : NewAddrType) :
    cfg.blockAddr (cfg.blockAddr addr) = cfg.blockAddr addr :=
  Alignment.alignDown_alignDown _ _

@[simp] theorem tag_eq_blockAddr (cfg : CacheConfig) (addr : NewAddrType) :
    cfg.tag addr = cfg.blockAddr addr := rfl

@[simp] theorem mshrAddr_mshrAddr (cfg : CacheConfig) (addr : NewAddrType) :
    cfg.mshrAddr (cfg.mshrAddr addr) = cfg.mshrAddr addr :=
  Alignment.alignDown_alignDown _ _

section Checked

variable {cfg : CacheConfig} (hcfg : cfg.Checked)

include hcfg

theorem Checked.mshrAddr_normal (hn : cfg.cacheType = .normal) (addr : NewAddrType) :
    cfg.mshrAddr addr = cfg.blockAddr addr := by
  rw [mshrAddr, blockAddr, hcfg.normalAtom hn]

/-- The MSHR address of a request lies in the block of the request. -/
theorem Checked.blockAddr_mshrAddr (addr : NewAddrType) :
    cfg.blockAddr (cfg.mshrAddr addr) = cfg.blockAddr addr := by
  cases hct : cfg.cacheType with
  | normal => rw [hcfg.mshrAddr_normal hct, blockAddr_blockAddr]
  | sector =>
      rw [blockAddr, mshrAddr, blockAddr, hcfg.sectorAtom hct, hcfg.sectorLine hct]
      exact @Alignment.alignDown_alignDown_of_le 64 5 7 (by decide) (by decide) addr

/-- In a sector cache the MSHR address of a request lies in the sector of the request. -/
theorem Checked.sectorOf_mshrAddr (hs : cfg.cacheType = .sector) (addr : NewAddrType) :
    sectorOf (cfg.mshrAddr addr) = sectorOf addr := by
  have hdiv := @Alignment.toNat_alignDown_div 64 5 (by decide) addr
  simp only [sectorOf, mshrAddr, hcfg.sectorAtom hs, Fin.mk.injEq]
  exact congrArg (· % 4) hdiv

/-- In a normal cache the MSHR addresses are the block addresses. -/
theorem Checked.mshrAddr_eq_iff_normal (hn : cfg.cacheType = .normal) (a b : NewAddrType) :
    cfg.mshrAddr a = cfg.mshrAddr b ↔ cfg.blockAddr a = cfg.blockAddr b := by
  rw [hcfg.mshrAddr_normal hn, hcfg.mshrAddr_normal hn]

/-- In a sector cache two requests have the same MSHR address exactly when they lie in the same
sector of the same block. -/
theorem Checked.mshrAddr_eq_iff_sector (hs : cfg.cacheType = .sector) (a b : NewAddrType) :
    cfg.mshrAddr a = cfg.mshrAddr b ↔
      cfg.blockAddr a = cfg.blockAddr b ∧ sectorOf a = sectorOf b := by
  have hm := @Alignment.alignDown_eq_iff 64 5 (by decide) a b
  have hb := @Alignment.alignDown_eq_iff 64 7 (by decide) a b
  simp only [mshrAddr, blockAddr, hcfg.sectorAtom hs, hcfg.sectorLine hs, sectorOf, Fin.mk.injEq]
  refine hm.trans ?_
  rw [show (Alignment.alignDown 128 a = Alignment.alignDown 128 b) ↔ _ from hb]
  omega

end Checked

/-! ### Small configurations -/

/-- A configuration before `init`, as the examples of runs use it. -/
def blank : CacheConfig where
  cacheType := .normal
  nset := 0
  nsetLog2 := 0
  lineSz := 0
  lineSzLog2 := 0
  assoc := 0
  originalAssoc := 0
  atomSz := 0
  isStreaming := false
  replacementPolicy := .lru
  writePolicy := .readOnly
  allocPolicy := .onMiss
  writeAllocPolicy := .noWriteAllocate
  mshrType := .assoc
  setIndexFunction := .linearSetFunction
  mshrEntries := 0
  mshrMaxMerge := 0
  missQueueSize := 0
  resultFifoEntries := 0
  dataPortWidth := 0
  deferHitResponse := true
  hitResponseQueueSize := 0
  wrPercent := 0

/-- `<ct>:1:128:<assoc>,L:<wp>:<ap>:<wap>:L,A:4:4,4:0,32`. -/
def smallScan (ct wp ap wap : Char) (assoc : ℕ) : ScannedConfig where
  ct
  nset := 1
  lineSz := 128
  assoc
  rp := 'L'
  wp
  ap
  wap
  sif := 'L'
  mshrType := 'A'
  mshrEntries := 4
  mshrMaxMerge := 4
  missQueueSize := some 4
  resultFifoEntries := some 0
  dataPortWidth := some 32

/-- A small cache, with every percentage of dirty lines allowed and room for four deferred hits. -/
def small (ct wp ap wap : Char) (assoc : ℕ) (deferHitResponse : Bool) : CacheConfig :=
  match init blank (smallScan ct wp ap wap assoc) with
  | .ok c => c.setOptions 0 deferHitResponse 4
  | .error _ => blank

theorem small_accepted {ct wp ap wap : Char} {assoc : ℕ}
    (h : (init blank (smallScan ct wp ap wap assoc)).isOk = true) (deferHitResponse : Bool) :
    (small ct wp ap wap assoc deferHitResponse).Accepted := by
  cases hinit : init blank (smallScan ct wp ap wap assoc) with
  | error e =>
      rw [hinit] at h
      cases h
  | ok c => exact ⟨blank, _, c, 0, deferHitResponse, 4, hinit, by rw [small, hinit]⟩

end CacheConfig

/-- A read of the sector of an address. -/
def MemFetch.load (addr : NewAddrType) : MemFetch :=
  .new .globalAccR addr 32 false (sectorBytes (CacheConfig.sectorOf addr))
    {CacheConfig.sectorOf addr} 0 none none

/-- A write of some bytes of the sector of an address. -/
def MemFetch.store (addr : NewAddrType) (bytes : MemAccessByteMask) : MemFetch :=
  .new .globalAccW addr bytes.card true bytes {CacheConfig.sectorOf addr} 0 none none

end OpenCache
