/-
The set functions as maps from blocks to sets.

With a power-of-two number of sets `n` the block number of an address splits into a set field, the
lowest bits, and the bits above it.  The linear function takes the set field, the XOR function
combines it with the bits above, and both send `n` aligned consecutive blocks to `n` different sets.
The polynomial hash is given the set field and does not look at it: it is a function of the bits
above, which are the same for all blocks of such a group.

* `OpenCache.CacheConfig.PermutesGroups` — a set function is in range, looks at the block only, and
  sends each aligned group of blocks one to one onto the sets;
* `OpenCache.CacheConfig.Sets` — a configuration whose number of sets and line size are powers of
  two;
* `OpenCache.CacheConfig.Sets.hashIndex_groupBlock_ipoly` — **the polynomial hash is constant on
  every aligned group**;
* `OpenCache.set_index_permutes_groups_iff` — which of the three functions permute the groups.
-/

import OpenCache.Config
import Mathlib.Data.Nat.Bitwise

set_option relaxedAutoImplicit false
set_option autoImplicit false

namespace OpenCache

namespace CacheConfig

/-! ### Groups of blocks -/

/-- The address of the `k`-th block of the `g`-th aligned group of `m_nset` blocks. -/
def groupBlock (cfg : CacheConfig) (g k : ℕ) : NewAddrType :=
  BitVec.ofNat 64 ((g * cfg.nset + k) * cfg.lineSz)

/-- A set function sends every aligned group of blocks one to one onto the sets. -/
structure PermutesGroups (cfg : CacheConfig) : Prop where
  /-- Every address has a set, and the assertion on the number of sets holds. -/
  below : ∀ addr, ∃ s, cfg.setIndex addr = .ok s ∧ s < cfg.nset
  /-- Two addresses of one block have the same set. -/
  block : ∀ a b, cfg.blockAddr a = cfg.blockAddr b → cfg.setIndex a = cfg.setIndex b
  /-- Every set is the set of exactly one block of every group. -/
  group : ∀ g s, s < cfg.nset → ∃! k, k < cfg.nset ∧ cfg.setIndex (cfg.groupBlock g k) = .ok s

/-- A configuration with `2 ^ s` sets of lines of `2 ^ b` bytes, both `unsigned`. -/
structure Sets (cfg : CacheConfig) (s b : ℕ) : Prop where
  nset : cfg.nset = 2 ^ s
  lineSz : cfg.lineSz = 2 ^ b
  nsetLog2 : cfg.nsetLog2 = s
  lineSzLog2 : cfg.lineSzLog2 = b
  nset_lt : s < 32
  lineSz_lt : b < 32

/-- The two logarithms are those of the numbers in the string. -/
theorem Accepted.logs {cfg : CacheConfig} (h : cfg.Accepted) :
    cfg.nsetLog2 = Nat.log2 cfg.nset ∧ cfg.lineSzLog2 = Nat.log2 cfg.lineSz := by
  obtain ⟨old, t, c, wrPercent, defer, size, hinit, rfl⟩ := h
  obtain ⟨_, _, _, _, _, _, _, -, -, -, -, -, -, -, -, -, -, -, rfl⟩ := init_eq_ok.1 hinit
  exact ⟨rfl, rfl⟩

theorem Accepted.sets {cfg : CacheConfig} (h : cfg.Accepted) {s b : ℕ} (hs : s < 32) (hb : b < 32)
    (hnset : cfg.nset = 2 ^ s) (hline : cfg.lineSz = 2 ^ b) : cfg.Sets s b := by
  obtain ⟨hlogn, hlogb⟩ := h.logs
  rw [hnset, Nat.log2_two_pow] at hlogn
  rw [hline, Nat.log2_two_pow] at hlogb
  exact ⟨hnset, hline, hlogn, hlogb, hs, hb⟩

namespace Sets

variable {cfg : CacheConfig} {s b : ℕ} (h : cfg.Sets s b)

include h

/-- `m_nset - 1` is the mask of the set field. -/
theorem toNat_mask : (BitVec.ofNat 32 cfg.nset - 1 : BitVec 32).toNat = 2 ^ s - 1 := by
  have hlt : 2 ^ s < 2 ^ 32 := Nat.pow_lt_pow_right (by omega) h.nset_lt
  have hpos : 0 < 2 ^ s := Nat.two_pow_pos s
  rw [h.nset, BitVec.toNat_sub, BitVec.toNat_ofNat, Nat.mod_eq_of_lt hlt]
  change (2 ^ 32 - 1 + 2 ^ s) % 2 ^ 32 = 2 ^ s - 1
  omega

/-- The set field of an address. -/
theorem toNat_index (addr : NewAddrType) :
    (((addr >>> cfg.lineSzLog2) &&& (BitVec.ofNat 32 cfg.nset - 1).setWidth 64).setWidth 32 :
      BitVec 32).toNat = addr.toNat / 2 ^ b % 2 ^ s := by
  have hlt : 2 ^ s < 2 ^ 32 := Nat.pow_lt_pow_right (by omega) h.nset_lt
  have hfield : addr.toNat / 2 ^ b % 2 ^ s < 2 ^ s := Nat.mod_lt _ (Nat.two_pow_pos s)
  rw [BitVec.toNat_setWidth, BitVec.toNat_and, BitVec.toNat_setWidth, h.toNat_mask,
    Nat.mod_eq_of_lt (by omega : 2 ^ s - 1 < 2 ^ 64), BitVec.toNat_ushiftRight, h.lineSzLog2,
    Nat.shiftRight_eq_div_pow, Nat.and_two_pow_sub_one_eq_mod, Nat.mod_eq_of_lt (by omega)]

/-- The bits above the set field. -/
theorem toNat_higherBits (addr : NewAddrType) :
    (addr >>> (cfg.lineSzLog2 + cfg.nsetLog2)).toNat = addr.toNat / 2 ^ b / 2 ^ s := by
  rw [BitVec.toNat_ushiftRight, h.lineSzLog2, h.nsetLog2, Nat.shiftRight_eq_div_pow,
    Nat.pow_add, Nat.div_div_eq_div_mul]

/-- `bitwise_hash_function` on the two parts of a block number. -/
theorem toNat_bitwiseHashFunction (higherBits : BitVec 64) (index : BitVec 32) :
    (bitwiseHashFunction higherBits index (BitVec.ofNat 32 cfg.nset)).toNat =
      (index.toNat % 2 ^ s) ^^^ (higherBits.toNat % 2 ^ s) := by
  have hlt : 2 ^ s < 2 ^ 32 := Nat.pow_lt_pow_right (by omega) h.nset_lt
  have hindex : index.toNat < 2 ^ 64 := lt_trans index.isLt (by omega)
  have hfield : (index.toNat ^^^ higherBits.toNat) % 2 ^ s < 2 ^ s :=
    Nat.mod_lt _ (Nat.two_pow_pos s)
  rw [bitwiseHashFunction, BitVec.toNat_setWidth, BitVec.toNat_and, BitVec.toNat_xor,
    BitVec.toNat_setWidth, BitVec.toNat_setWidth, h.toNat_mask, Nat.mod_eq_of_lt hindex,
    Nat.mod_eq_of_lt (by omega : 2 ^ s - 1 < 2 ^ 64), Nat.and_two_pow_sub_one_eq_mod,
    Nat.mod_eq_of_lt (by omega), Nat.xor_mod_two_pow]

/-- `ipoly_hash_function` stays below the number of sets. -/
theorem toNat_ipolyHashFunction_lt (higherBits : BitVec 64) (index : BitVec 32) :
    (ipolyHashFunction higherBits index (BitVec.ofNat 32 cfg.nset)).toNat < cfg.nset := by
  have hpos : 0 < 2 ^ s := Nat.two_pow_pos s
  have hle : ∀ x : BitVec 32, (x &&& (BitVec.ofNat 32 cfg.nset - 1)).toNat ≤ 2 ^ s - 1 := by
    intro x
    rw [BitVec.toNat_and, h.toNat_mask]
    exact Nat.and_le_right
  have := hle (let x := higherBits.setWidth 32 ^^^ (higherBits >>> 32).setWidth 32
    let x := (x ^^^ (x >>> 16)) * 0x85ebca6b#32
    let x := (x ^^^ (x >>> 13)) * 0xc2b2ae35#32
    x ^^^ (x >>> 16))
  rw [h.nset] at this ⊢
  rw [ipolyHashFunction]
  dsimp only at this ⊢
  omega

/-! ### Blocks in a group -/

/-- The block number of a block of a group, within the address space. -/
theorem toNat_groupBlock_div (g k : ℕ) :
    (cfg.groupBlock g k).toNat / 2 ^ b = (g * 2 ^ s + k) % 2 ^ (64 - b) := by
  have hb := h.lineSz_lt
  have hpow : 2 ^ 64 = 2 ^ (64 - b) * 2 ^ b := by
    rw [← Nat.pow_add]
    congr 1
    omega
  rw [groupBlock, BitVec.toNat_ofNat, h.nset, h.lineSz, hpow, Nat.mul_mod_mul_right,
    Nat.mul_div_cancel _ (Nat.two_pow_pos b)]

/-- The set field of a block is its position in its group. -/
theorem groupBlock_index {k : ℕ} (g : ℕ) (hk : k < 2 ^ s) :
    (cfg.groupBlock g k).toNat / 2 ^ b % 2 ^ s = k := by
  have hb := h.lineSz_lt
  have hs := h.nset_lt
  rw [h.toNat_groupBlock_div, Nat.mod_mod_of_dvd _ (Nat.pow_dvd_pow 2 (by omega)),
    Nat.add_comm, Nat.add_mul_mod_self_right, Nat.mod_eq_of_lt hk]

/-- The bits above the set field are those of the group. -/
theorem groupBlock_higherBits {k : ℕ} (g : ℕ) (hk : k < 2 ^ s) :
    (cfg.groupBlock g k).toNat / 2 ^ b / 2 ^ s = g % 2 ^ (64 - b - s) := by
  have hb := h.lineSz_lt
  have hs := h.nset_lt
  have hpow : 2 ^ (64 - b) = 2 ^ s * 2 ^ (64 - b - s) := by
    rw [← Nat.pow_add]
    congr 1
    omega
  rw [h.toNat_groupBlock_div, hpow, Nat.mod_mul_right_div_self, Nat.add_comm,
    Nat.add_mul_div_right _ _ (Nat.two_pow_pos s), Nat.div_eq_of_lt hk, Nat.zero_add]

/-- **The polynomial hash is constant on every aligned group.** -/
theorem hashIndex_groupBlock_ipoly (hf : cfg.setIndexFunction = .hashIpolyFunction) {k k' : ℕ}
    (g : ℕ) (hk : k < 2 ^ s) (hk' : k' < 2 ^ s) :
    cfg.hashIndex (cfg.groupBlock g k) = cfg.hashIndex (cfg.groupBlock g k') := by
  have hhigh : cfg.groupBlock g k >>> (cfg.lineSzLog2 + cfg.nsetLog2) =
      cfg.groupBlock g k' >>> (cfg.lineSzLog2 + cfg.nsetLog2) := by
    apply BitVec.eq_of_toNat_eq
    rw [h.toNat_higherBits, h.toNat_higherBits, h.groupBlock_higherBits g hk,
      h.groupBlock_higherBits g hk']
  simp only [hashIndex, hf, hhigh, ipolyHashFunction]

/-! ### The three functions -/

/-- The three functions look at the block number only. -/
theorem hashIndex_congr (hf : cfg.setIndexFunction = .linearSetFunction ∨
    cfg.setIndexFunction = .bitwiseXoringFunction ∨ cfg.setIndexFunction = .hashIpolyFunction)
    {x y : NewAddrType} (hxy : x.toNat / 2 ^ b = y.toNat / 2 ^ b) :
    cfg.hashIndex x = cfg.hashIndex y := by
  have hblock : x >>> cfg.lineSzLog2 = y >>> cfg.lineSzLog2 := by
    apply BitVec.eq_of_toNat_eq
    rw [BitVec.toNat_ushiftRight, BitVec.toNat_ushiftRight, h.lineSzLog2,
      Nat.shiftRight_eq_div_pow, Nat.shiftRight_eq_div_pow, hxy]
  have hhigh : x >>> (cfg.lineSzLog2 + cfg.nsetLog2) = y >>> (cfg.lineSzLog2 + cfg.nsetLog2) := by
    apply BitVec.eq_of_toNat_eq
    rw [h.toNat_higherBits, h.toNat_higherBits, hxy]
  rcases hf with hf | hf | hf
  · simp only [hashIndex, hf, hblock]
  · simp only [hashIndex, hf, hblock, hhigh]
  · simp only [hashIndex, hf, hhigh, ipolyHashFunction]

/-- A set in range is returned. -/
theorem setIndex_of_hashIndex {addr : NewAddrType} {x : BitVec 32}
    (hx : cfg.hashIndex addr = .ok x) (hlt : x.toNat < 2 ^ s) :
    cfg.setIndex addr = .ok x.toNat := by
  rw [setIndex, hx]
  change (assertThat (x.toNat < cfg.nset) .setIndexOutOfBounds >>= fun _ => .ok x.toNat) = _
  rw [assertThat_of _ (h.nset ▸ hlt)]
  rfl

/-- The linear function takes the set field. -/
theorem setIndex_linear (hf : cfg.setIndexFunction = .linearSetFunction) (addr : NewAddrType) :
    cfg.setIndex addr = .ok (addr.toNat / 2 ^ b % 2 ^ s) := by
  have hindex := h.toNat_index addr
  rw [← hindex]
  refine h.setIndex_of_hashIndex (by simp only [hashIndex, hf]) ?_
  rw [hindex]
  exact Nat.mod_lt _ (Nat.two_pow_pos s)

/-- The XOR function combines the set field with the bits above it. -/
theorem setIndex_bitwiseXoring (hf : cfg.setIndexFunction = .bitwiseXoringFunction)
    (addr : NewAddrType) :
    cfg.setIndex addr =
      .ok ((addr.toNat / 2 ^ b % 2 ^ s) ^^^ (addr.toNat / 2 ^ b / 2 ^ s % 2 ^ s)) := by
  have hvalue := h.toNat_bitwiseHashFunction (addr >>> (cfg.lineSzLog2 + cfg.nsetLog2))
    (((addr >>> cfg.lineSzLog2) &&& (BitVec.ofNat 32 cfg.nset - 1).setWidth 64).setWidth 32)
  rw [h.toNat_index, h.toNat_higherBits, Nat.mod_mod] at hvalue
  rw [← hvalue]
  refine h.setIndex_of_hashIndex (by simp only [hashIndex, hf]) ?_
  rw [hvalue]
  exact Nat.xor_lt_two_pow (Nat.mod_lt _ (Nat.two_pow_pos s)) (Nat.mod_lt _ (Nat.two_pow_pos s))

/-- The polynomial hash has a set for every address. -/
theorem setIndex_ipoly (hf : cfg.setIndexFunction = .hashIpolyFunction) (addr : NewAddrType) :
    ∃ set, cfg.setIndex addr = .ok set ∧ set < cfg.nset := by
  have hlt := h.toNat_ipolyHashFunction_lt (addr >>> (cfg.lineSzLog2 + cfg.nsetLog2))
    (((addr >>> cfg.lineSzLog2) &&& (BitVec.ofNat 32 cfg.nset - 1).setWidth 64).setWidth 32)
  exact ⟨_, h.setIndex_of_hashIndex (by simp only [hashIndex, hf]) (h.nset ▸ hlt), hlt⟩

/-- What is left to show is that every set is the set of one block of each group. -/
theorem permutesGroups_iff (hf : cfg.setIndexFunction = .linearSetFunction ∨
    cfg.setIndexFunction = .bitwiseXoringFunction ∨ cfg.setIndexFunction = .hashIpolyFunction) :
    cfg.PermutesGroups ↔
      ∀ g set, set < cfg.nset →
        ∃! k, k < cfg.nset ∧ cfg.setIndex (cfg.groupBlock g k) = .ok set := by
  constructor
  · exact fun hperm => hperm.group
  · intro hgroup
    refine ⟨?_, ?_, hgroup⟩
    · intro addr
      have hpos := Nat.two_pow_pos s
      rcases hf with hf | hf | hf
      · refine ⟨_, h.setIndex_linear hf addr, ?_⟩
        rw [h.nset]
        exact Nat.mod_lt _ hpos
      · refine ⟨_, h.setIndex_bitwiseXoring hf addr, ?_⟩
        rw [h.nset]
        exact Nat.xor_lt_two_pow (Nat.mod_lt _ hpos) (Nat.mod_lt _ hpos)
      · exact h.setIndex_ipoly hf addr
    · intro x y hxy
      have hb := h.lineSz_lt
      rw [blockAddr, blockAddr, h.lineSz, Alignment.alignDown_eq_iff (by omega)] at hxy
      rw [setIndex, setIndex, h.hashIndex_congr hf hxy]

/-- The linear function numbers the blocks of a group. -/
theorem setIndex_groupBlock_linear (hf : cfg.setIndexFunction = .linearSetFunction) {k : ℕ} (g : ℕ)
    (hk : k < 2 ^ s) : cfg.setIndex (cfg.groupBlock g k) = .ok k := by
  rw [h.setIndex_linear hf, h.groupBlock_index g hk]

/-- The XOR function combines all blocks of a group with the same bits. -/
theorem setIndex_groupBlock_bitwiseXoring (hf : cfg.setIndexFunction = .bitwiseXoringFunction)
    {k : ℕ} (g : ℕ) (hk : k < 2 ^ s) :
    cfg.setIndex (cfg.groupBlock g k) = .ok (k ^^^ (g % 2 ^ (64 - b - s) % 2 ^ s)) := by
  rw [h.setIndex_bitwiseXoring hf, h.groupBlock_index g hk, h.groupBlock_higherBits g hk]

theorem permutesGroups_linear (hf : cfg.setIndexFunction = .linearSetFunction) :
    cfg.PermutesGroups := by
  refine (h.permutesGroups_iff (Or.inl hf)).2 fun g set hset => ?_
  rw [h.nset] at hset ⊢
  refine ⟨set, ⟨hset, h.setIndex_groupBlock_linear hf g hset⟩, ?_⟩
  rintro k ⟨hk, heq⟩
  rw [h.setIndex_groupBlock_linear hf g hk] at heq
  exact Except.ok.inj heq

theorem permutesGroups_bitwiseXoring (hf : cfg.setIndexFunction = .bitwiseXoringFunction) :
    cfg.PermutesGroups := by
  refine (h.permutesGroups_iff (Or.inr (Or.inl hf))).2 fun g set hset => ?_
  rw [h.nset] at hset ⊢
  -- the block is found by combining the set with the same bits once more
  have hbits : g % 2 ^ (64 - b - s) % 2 ^ s < 2 ^ s := Nat.mod_lt _ (Nat.two_pow_pos s)
  refine ⟨set ^^^ (g % 2 ^ (64 - b - s) % 2 ^ s), ⟨Nat.xor_lt_two_pow hset hbits, ?_⟩, ?_⟩
  · rw [h.setIndex_groupBlock_bitwiseXoring hf g (Nat.xor_lt_two_pow hset hbits), Nat.xor_assoc,
      Nat.xor_self, Nat.xor_zero]
  · rintro k ⟨hk, heq⟩
    rw [h.setIndex_groupBlock_bitwiseXoring hf g hk] at heq
    rw [← Except.ok.inj heq, Nat.xor_assoc, Nat.xor_self, Nat.xor_zero]

theorem permutesGroups_ipoly_iff (hf : cfg.setIndexFunction = .hashIpolyFunction) :
    cfg.PermutesGroups ↔ cfg.nset = 1 := by
  constructor
  · intro hperm
    by_contra hne
    have hpos := Nat.two_pow_pos s
    have hnset := h.nset
    -- the first two blocks of the first group have the same set
    obtain ⟨set, hzero, hset⟩ := hperm.below (cfg.groupBlock 0 0)
    have hone : cfg.setIndex (cfg.groupBlock 0 1) = .ok set := by
      rw [← hzero, setIndex, setIndex, h.hashIndex_groupBlock_ipoly hf 0 (by omega) (by omega)]
    have heq := (hperm.group 0 set hset).unique ⟨by omega, hzero⟩ ⟨by omega, hone⟩
    cases heq
  · intro hnset
    refine (h.permutesGroups_iff (Or.inr (Or.inr hf))).2 fun g set hset => ?_
    obtain ⟨set', hzero, hset'⟩ := h.setIndex_ipoly hf (cfg.groupBlock g 0)
    obtain rfl : set' = set := by omega
    refine ⟨0, ⟨by omega, hzero⟩, ?_⟩
    rintro k ⟨hk, -⟩
    omega

end Sets

end CacheConfig

/-! ### Which functions permute the groups -/

/-- **Of the linear, the XOR and the polynomial function, the first two send every aligned group of
as many blocks as there are sets one to one onto the sets; the third does so only where there is
one set.** -/
theorem set_index_permutes_groups_iff {cfg : CacheConfig} (hcfg : cfg.Accepted) {s b : ℕ}
    (hs : s < 32) (hb : b < 32) (hnset : cfg.nset = 2 ^ s) (hline : cfg.lineSz = 2 ^ b)
    (hf : cfg.setIndexFunction = .linearSetFunction ∨
      cfg.setIndexFunction = .bitwiseXoringFunction ∨
      cfg.setIndexFunction = .hashIpolyFunction) :
    cfg.PermutesGroups ↔ cfg.setIndexFunction ≠ .hashIpolyFunction ∨ cfg.nset = 1 := by
  have h := hcfg.sets hs hb hnset hline
  constructor
  · intro hperm
    by_cases hipoly : cfg.setIndexFunction = .hashIpolyFunction
    · exact Or.inr ((h.permutesGroups_ipoly_iff hipoly).1 hperm)
    · exact Or.inl hipoly
  · intro hcond
    rcases hf with hf | hf | hf
    · exact h.permutesGroups_linear hf
    · exact h.permutesGroups_bitwiseXoring hf
    · exact (h.permutesGroups_ipoly_iff hf).2 (hcond.resolve_left fun hne => hne hf)

/-- A cache of two sets with the given set function. -/
def CacheConfig.twoSets (sif : Char) : CacheConfig :=
  match CacheConfig.init .blank { CacheConfig.smallScan 'N' 'R' 'm' 'N' 1 with nset := 2, sif } with
  | .ok c => c
  | .error _ => .blank

theorem CacheConfig.twoSets_accepted {sif : Char} (h : (CacheConfig.init .blank
      { CacheConfig.smallScan 'N' 'R' 'm' 'N' 1 with nset := 2, sif }).isOk = true) :
    (CacheConfig.twoSets sif).Accepted := by
  cases hinit : CacheConfig.init .blank
      { CacheConfig.smallScan 'N' 'R' 'm' 'N' 1 with nset := 2, sif } with
  | error e =>
      rw [hinit] at h
      cases h
  | ok c => exact ⟨.blank, _, c, c.wrPercent, c.deferHitResponse, c.hitResponseQueueSize, hinit,
      by rw [CacheConfig.twoSets, hinit]; rfl⟩

/-- The XOR function permutes the groups of a cache of two sets. -/
theorem set_index_permutes_groups_two_sets : (CacheConfig.twoSets 'X').PermutesGroups := by
  have hcfg : (CacheConfig.twoSets 'X').Accepted := CacheConfig.twoSets_accepted (by decide)
  have hiff := set_index_permutes_groups_iff hcfg (s := 1) (b := 7) (by decide) (by decide)
    (by decide) (by decide) (by decide)
  exact hiff.2 (by decide)

/-- In a cache of two sets, the polynomial hash sends two consecutive blocks to the same set. -/
theorem ipoly_sends_group_to_one_set :
    ∃ cfg : CacheConfig, cfg.Accepted ∧ cfg.nset = 2 ^ 1 ∧ cfg.lineSz = 2 ^ 7 ∧
      cfg.setIndexFunction = .hashIpolyFunction ∧
      cfg.setIndex 0 = cfg.setIndex 128 ∧ ¬cfg.PermutesGroups := by
  have hcfg : (CacheConfig.twoSets 'P').Accepted := CacheConfig.twoSets_accepted (by decide)
  refine ⟨CacheConfig.twoSets 'P', hcfg, by decide, by decide, by decide, by decide,
    fun hperm => ?_⟩
  have h := hcfg.sets (s := 1) (b := 7) (by decide) (by decide) (by decide) (by decide)
  have hone := (h.permutesGroups_ipoly_iff (by decide)).1 hperm
  exact absurd hone (by decide)

end OpenCache
