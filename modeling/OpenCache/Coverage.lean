/-
The accepted writes of a write-back cache that fetches on writes.

A write leaves no trace but the state of its sector, its bits in the dirty byte mask and the flags
that tell a fill what to do.  It is covered as long as its sector is `MODIFIED` with its bytes
dirty, or reserved for a fill that will make it so, until a write-back takes the bytes down.  Two
things go wrong: a fill that comes to a sector which a full write has made `MODIFIED`, and cleans
it; and a write that joins a fetch, whose own bytes are the only ones that the fill will mark.

* `OpenCache.CacheBlock.Keeps` — a line that covers a byte, or will after the fill;
* `OpenCache.LineAfter.keeps`, `OpenCache.LineAfter.keeps_written` — what an access keeps and adds;
* `OpenCache.Owed`, `OpenCache.Owed.note` — the bytes of accepted writes that no write-back has
  taken down;
* `OpenCache.System.KeepsWrites` — fills that find no such sector, and writes that join
  no such fetch;
* `OpenCache.accepted_writes_stay_covered` — **no accepted write is lost by such steps**;
* `OpenCache.accepted_writes_are_lost` — runs that lose one.
-/

import OpenCache.Flushes
import OpenCache.Writebacks
import OpenCache.Outstanding

set_option relaxedAutoImplicit false
set_option autoImplicit false

namespace OpenCache

variable {cfg : CacheConfig}

/-! ### Bytes and atoms -/

/-- The sector that a byte of a line lies in. -/
def byteSector (k : Fin 128) : Fin 4 := ⟨k.val / 32, by omega⟩

namespace CacheConfig

theorem mem_bytesOf {j : Fin 4} {k : Fin 128} :
    k ∈ cfg.bytesOf j ↔ cfg.SameSector j (byteSector k) := by
  unfold bytesOf SameSector byteSector
  cases cfg.cacheType with
  | normal => simp
  | sector =>
      rw [mem_sectorBytes, Fin.ext_iff]
      simp only [reduceCtorEq, false_or]
      omega

/-- The bytes of the atom that an address lies in: of its sector, or of its line. -/
def atomBytes (cfg : CacheConfig) (addr : NewAddrType) : MemAccessByteMask :=
  (cfg.bytesOf (cfg.addrSector addr)).filter fun k => k.val < cfg.lineSz

/-- A request inside one atom: its sector mask names the sector of its address, and the bytes that
it writes lie in the atom. -/
def InAtom (cfg : CacheConfig) (m : MemFetch) : Prop :=
  cfg.Matches m ∧ (m.isWrite = true → m.accessByteMask ⊆ cfg.atomBytes m.addr)

instance (cfg : CacheConfig) (m : MemFetch) : Decidable (cfg.InAtom m) := by
  unfold InAtom
  infer_instance

theorem Checked.card_atomBytes_le (hcfg : cfg.Checked) (addr : NewAddrType) :
    (cfg.atomBytes addr).card ≤ cfg.atomSz := by
  unfold atomBytes bytesOf
  cases hct : cfg.cacheType with
  | normal =>
      rw [hcfg.normalAtom hct]
      calc (Finset.univ.filter fun k : Fin 128 => k.val < cfg.lineSz).card
          = ((Finset.univ.filter fun k : Fin 128 => k.val < cfg.lineSz).map
            Fin.valEmbedding).card :=
            (Finset.card_map _).symm
        _ ≤ (Finset.range cfg.lineSz).card := Finset.card_le_card fun n hn => by
            obtain ⟨k, hk, rfl⟩ := Finset.mem_map.1 hn
            exact Finset.mem_range.2 (Finset.mem_filter.1 hk).2
        _ = cfg.lineSz := Finset.card_range _
  | sector =>
      rw [hcfg.sectorAtom hct]
      refine (Finset.card_filter_le _ _).trans ?_
      generalize cfg.addrSector addr = i
      revert i
      decide

/-- A write of a whole atom has all its bytes. -/
theorem InAtom.eq_atomBytes {m : MemFetch} (h : cfg.InAtom m) (hcfg : cfg.Checked)
    (hwrite : m.isWrite = true) (hfull : m.accessByteMask.card = cfg.atomSz) :
    m.accessByteMask = cfg.atomBytes m.addr :=
  Finset.eq_of_subset_of_card_le (h.2 hwrite) (by rw [hfull]; exact hcfg.card_atomBytes_le _)

end CacheConfig

/-- Sectors that share their state have one. -/
theorem CacheConfig.SameSector.sectorAt_eq {i j : Fin 4} (h : cfg.SameSector i j)
    (b : CacheBlock cfg.cacheType) : b.sectorAt i = b.sectorAt j := by
  rcases h with hn | rfl
  · exact b.sectorAt_of_normal hn i j
  · rfl

/-! ### Lines that cover a byte -/

namespace CacheBlock

variable {k : CacheType} {b b' : CacheBlock k} {x : Fin 128} {fetched : Prop}

theorem sectorAt_modifySector_same (b : CacheBlock k) {i j : Fin 4} (hj : k = .normal ∨ i = j)
    (f : SectorState → SectorState) : (b.modifySector i f).sectorAt j = f (b.sectorAt j) := by
  rw [sectorAt_modifySector, if_pos hj]

theorem setModifiedOnFill_writtenOnFill (b : CacheBlock k) {i j : Fin 4}
    (hj : k = .normal ∨ i = j) : ((b.writtenOnFill i).sectorAt j).setModifiedOnFill = true := by
  change ((b.setModifiedOnFill true i).sectorAt j).setModifiedOnFill = true
  rw [CacheBlock.setModifiedOnFill, sectorAt_modifySector_same _ hj]

/-- A line that covers a byte: the sector is `MODIFIED` and the byte is dirty, or the sector is
reserved and the fill will make it `MODIFIED`, with the byte dirty already or among those of the
fetch, if it is `fetched`. -/
def Keeps (b : CacheBlock k) (x : Fin 128) (fetched : Prop) : Prop :=
  b.getStatus (byteSector x) = .modified ∧ x ∈ b.dirtyByteMask ∨
    b.getStatus (byteSector x) = .reserved ∧ (b.sectorAt (byteSector x)).setModifiedOnFill = true ∧
      (x ∈ b.dirtyByteMask ∨ b.setByteMaskOnFill = true ∧ fetched)

namespace Keeps

/-- The sector stays as it is, and the dirty bytes and the flag of the line grow. -/
theorem of_sector (h : b.Keeps x fetched)
    (hsector : b'.sectorAt (byteSector x) = b.sectorAt (byteSector x))
    (hdirty : b.dirtyByteMask ⊆ b'.dirtyByteMask)
    (hflag : b.setByteMaskOnFill = true → b'.setByteMaskOnFill = true) : b'.Keeps x fetched := by
  unfold Keeps getStatus
  rw [hsector]
  rcases h with ⟨hs, hx⟩ | ⟨hs, hm, hx⟩
  · exact Or.inl ⟨hs, hdirty hx⟩
  · exact Or.inr ⟨hs, hm, hx.imp (fun h => hdirty h) fun h => ⟨hflag h.1, h.2⟩⟩

theorem mono (h : b.Keeps x fetched) {fetched' : Prop} (hfetched : fetched → fetched') :
    b.Keeps x fetched' :=
  h.imp id fun h => ⟨h.1, h.2.1, h.2.2.imp id fun h => ⟨h.1, hfetched h.2⟩⟩

/-- A sector that covers a byte is not invalid. -/
theorem ne_invalid (h : b.Keeps x fetched) : b.getStatus (byteSector x) ≠ .invalid := by
  rcases h with ⟨hs, -⟩ | ⟨hs, -⟩ <;> simp [hs]

/-- A line that waits for no byte of a fetch has the byte dirty. -/
theorem mem_dirty (h : b.Keeps x False) : x ∈ b.dirtyByteMask := by
  rcases h with ⟨-, hx⟩ | ⟨-, -, hx⟩
  · exact hx
  · exact hx.resolve_right fun hf => hf.2

/-- A fetch for a write is still to come: the sector will be modified, and the byte dirty. -/
theorem writtenOnFill (i : Fin 4) (h : b.Keeps x fetched) :
    (b.writtenOnFill i).Keeps x fetched := by
  rcases h with ⟨hs, hx⟩ | ⟨hs, hm, hx⟩
  · exact Or.inl ⟨(b.getStatus_writtenOnFill i _).trans hs, hx⟩
  · refine Or.inr ⟨(b.getStatus_writtenOnFill i _).trans hs, ?_, hx.imp id fun h => ⟨rfl, h.2⟩⟩
    change ((b.setModifiedOnFill true i).sectorAt (byteSector x)).setModifiedOnFill = true
    unfold CacheBlock.setModifiedOnFill
    rw [sectorAt_modifySector]
    split
    · rfl
    · exact hm

/-- A write hit makes its sector modified. -/
theorem hitWritten (m : MemFetch) {i : Fin 4} (hi : k = .normal ∨ i = byteSector x)
    (hx : x ∈ b.dirtyByteMask ∪ m.accessByteMask) :
    ((b.marked m i).readableUpdated m i).Keeps x fetched := by
  refine Or.inl ⟨?_, ?_⟩
  · rw [getStatus_readableUpdated, getStatus_marked, if_pos hi]
  · rwa [dirtyByteMask_readableUpdated]

/-- And so does a full write. -/
theorem fullWritten (m : MemFetch) {i : Fin 4} (hi : k = .normal ∨ i = byteSector x)
    (hx : x ∈ b.dirtyByteMask ∪ m.accessByteMask) (status : CacheRequestStatus) :
    (b.fullWritten m i status).Keeps x fetched := by
  refine Or.inl ⟨?_, ?_⟩
  · rw [getStatus_fullWritten, getStatus_marked, if_pos hi]
  · rwa [dirtyByteMask_fullWritten]

/-- A fill for another sector adds dirty bytes at most. -/
theorem fill_other {i : Fin 4} (hi : ¬(k = .normal ∨ i = byteSector x))
    (byteMask : MemAccessByteMask)
    (h : b.Keeps x fetched) : (b.fill i byteMask).Keeps x fetched := by
  refine h.of_sector ?_ ?_ ?_
  · rw [sectorAt_fill, if_neg hi]
  · rw [dirtyByteMask_fill]
    split
    · exact Finset.subset_union_left
    · exact subset_rfl
  · intro hflag
    unfold CacheBlock.fill
    dsimp only
    split <;> exact hflag

/-- The fill that a reserved sector waits for makes it modified.  It leaves a modified sector so if
it finds the flag. -/
theorem fill {i : Fin 4} (hi : k = .normal ∨ i = byteSector x) {byteMask : MemAccessByteMask}
    (hflag : b.getStatus (byteSector x) = .modified →
      (b.sectorAt (byteSector x)).setModifiedOnFill = true)
    (hfetched : fetched → x ∈ byteMask) (h : b.Keeps x fetched) {fetched' : Prop} :
    (b.fill i byteMask).Keeps x fetched' := by
  have hm : (b.sectorAt (byteSector x)).setModifiedOnFill = true := by
    rcases h with ⟨hs, -⟩ | ⟨-, hm, -⟩
    · exact hflag hs
    · exact hm
  refine Or.inl ⟨?_, ?_⟩
  · rw [getStatus_fill, if_pos hi, if_pos hm]
  · rw [dirtyByteMask_fill]
    rcases h with ⟨-, hx⟩ | ⟨-, -, hx | ⟨hmask, hf⟩⟩
    · split
      · exact Finset.mem_union_left _ hx
      · exact hx
    · split
      · exact Finset.mem_union_left _ hx
      · exact hx
    · rw [if_pos hmask]
      exact Finset.mem_union_right _ (hfetched hf)

end Keeps

end CacheBlock

/-! ### The line of an access -/

section Access

variable {c : Cache cfg} {cls : CacheClass} {addr : NewAddrType} {mf : Token} {time : Time}
  {p : ProbeResult} {line : CacheBlock cfg.cacheType} {x : Fin 128} {fetched : Prop}

/-- A line that an access has found, and that it is about to read or to write. -/
theorem keeps_touched (hon : cfg.allocPolicy = .onMiss) (hp : c.Probes addr (c.mfs mf) p)
    (hs : p.status = .hit ∨ p.status = .hitReserved ∨ p.status = .sectorMiss)
    (h : (c.tagArray.lines p.idx).Keeps x fetched) :
    (c.touched addr (c.mfs mf) time p).Keeps x fetched := by
  have hmatch := (hp.sectorIndex hs).2
  unfold Cache.touched
  rcases hs with hs | hs | hs
  · rw [hs]
    exact h.of_sector rfl subset_rfl id
  · rw [hs]
    exact h.of_sector rfl subset_rfl id
  · rw [hs, CacheBlock.matchStatus_eq_sectorMiss] at hmatch
    rw [hs]
    simp only [TagArray.touchedLine, if_pos hon]
    by_cases hj : cfg.SameSector (cfg.sectorIndex (c.mfs mf).accessSectorMask) (byteSector x)
    · -- a modified sector that is read before it is readable is reserved again
      simp only [CacheBlock.getStatus, hj.sectorAt_eq] at hmatch
      rcases h with ⟨hmodified, hx⟩ | ⟨hreserved, -⟩
      · refine Or.inr ⟨?_, ?_, Or.inl hx⟩
        · change (((c.tagArray.lines p.idx).modifySector _ CacheBlock.reserveSectorAgain).sectorAt
            (byteSector x)).status = .reserved
          rw [CacheBlock.sectorAt_modifySector_same _ hj]
          rfl
        · change (((c.tagArray.lines p.idx).modifySector _ CacheBlock.reserveSectorAgain).sectorAt
            (byteSector x)).setModifiedOnFill = true
          rw [CacheBlock.sectorAt_modifySector_same _ hj]
          exact decide_eq_true hmodified
      · rw [CacheBlock.getStatus] at hreserved
        simp [hreserved] at hmatch
    · exact h.of_sector (CacheBlock.sectorAt_modifySector_other _ hj _) subset_rfl id

/-- **What an access keeps**: a byte that a line has covered, unless the line is taken, and if a
full write of its sector has the byte. -/
theorem LineAfter.keeps (hline : LineAfter c cls addr mf time p line)
    (hon : cfg.allocPolicy = .onMiss) (hback : cfg.writePolicy = .writeBack)
    (hfetch : cfg.writeAllocPolicy = .fetchOnWrite) (hp : c.Probes addr (c.mfs mf) p)
    (hmiss : p.status ≠ .miss)
    (hfull : (c.mfs mf).isWrite = true → (c.mfs mf).accessByteMask.card = cfg.atomSz →
      cfg.SameSector (cfg.sectorIndex (c.mfs mf).accessSectorMask) (byteSector x) →
        x ∈ (c.mfs mf).accessByteMask)
    (h : (c.tagArray.lines p.idx).Keeps x fetched) : line.Keeps x fetched := by
  have hfound := hline.found hmiss
  have htouched : (c.touched addr (c.mfs mf) time p).Keeps x fetched :=
    keeps_touched hon hp hfound h
  cases hline with
  | hit hs line _ heffect =>
      cases heffect with
      | read => exact h.of_sector rfl subset_rfl id
      | write =>
          by_cases hj : cfg.SameSector (cfg.sectorIndex (c.mfs mf).accessSectorMask) (byteSector x)
          · -- the sector of a hit is not reserved
            refine .hitWritten _ hj (Finset.mem_union_left _ ?_)
            rcases h with ⟨-, hx⟩ | ⟨hreserved, -⟩
            · exact hx
            · have hmatch := (hp.sectorIndex hfound).2
              rw [hs, CacheBlock.matchStatus_eq_hit] at hmatch
              rw [CacheBlock.getStatus, ← hj.sectorAt_eq, ← CacheBlock.getStatus] at hreserved
              simp [hreserved] at hmatch
          · refine h.of_sector ?_ ?_ ?_
            · rw [CacheBlock.sectorAt_readableUpdated_other _ _ hj,
                CacheBlock.sectorAt_marked_other _ _ hj]
              rfl
            · rw [CacheBlock.dirtyByteMask_readableUpdated]
              exact Finset.subset_union_left
            · intro hflag
              unfold CacheBlock.readableUpdated
              split <;> exact hflag
      | evict _ _ _ hevicts => simp [evictsOnWriteHit, hback] at hevicts
  | write hs hwrite line _ heffect =>
      cases heffect with
      | full _ hbytes =>
          by_cases hj : cfg.SameSector (cfg.sectorIndex (c.mfs mf).accessSectorMask) (byteSector x)
          · exact .fullWritten _ hj (Finset.mem_union_right _ (hfull hwrite hbytes hj)) _
          · refine htouched.of_sector (CacheBlock.sectorAt_fullWritten_other _ _ hj _) ?_ ?_
            · rw [CacheBlock.dirtyByteMask_fullWritten]
              exact Finset.subset_union_left
            · intro hflag
              unfold CacheBlock.fullWritten
              split <;> exact hflag
      | onRead hpolicy =>
          rw [hfetch] at hpolicy
          cases hpolicy
  | fetch hs reader s written hfetcher =>
      cases hfetcher with
      | read => exact htouched
      | naive => exact htouched
      | fetchOnWrite => exact htouched.writtenOnFill _

/-- **What a write adds**: its bytes are covered, if a fetch that it waits for has them or they are
dirty. -/
theorem LineAfter.keeps_written (hline : LineAfter c cls addr mf time p line)
    (hon : cfg.allocPolicy = .onMiss) (hback : cfg.writePolicy = .writeBack)
    (hfetch : cfg.writeAllocPolicy = .fetchOnWrite) (hp : c.Probes addr (c.mfs mf) p)
    (hwrite : (c.mfs mf).isWrite = true)
    (hj : cfg.SameSector (cfg.sectorIndex (c.mfs mf).accessSectorMask) (byteSector x))
    (hx : x ∈ (c.mfs mf).accessByteMask)
    (hfetched : p.status ≠ .hit → (c.mfs mf).accessByteMask.card ≠ cfg.atomSz →
      x ∈ line.dirtyByteMask ∨ fetched) : line.Keeps x fetched := by
  cases hline with
  | hit hs line _ heffect =>
      cases heffect with
      | read hread =>
          rw [hread] at hwrite
          cases hwrite
      | write => exact .hitWritten _ hj (Finset.mem_union_right _ hx)
      | evict _ _ _ hevicts => simp [evictsOnWriteHit, hback] at hevicts
  | write hs _ line _ heffect =>
      cases heffect with
      | full => exact .fullWritten _ hj (Finset.mem_union_right _ hx) _
      | onRead hpolicy =>
          rw [hfetch] at hpolicy
          cases hpolicy
  | fetch hs reader s written hfetcher =>
      cases hfetcher with
      | read hread =>
          have hread' : (c.mfs mf).isWrite = false := hread
          rw [hread'] at hwrite
          cases hwrite
      | naive _ _ _ hpolicy =>
          rw [hfetch] at hpolicy
          cases hpolicy
      | fetchOnWrite _ _ _ _ hbytes =>
          have hhit : p.status ≠ .hit := by rcases hs with hs | hs | hs <;> simp [hs]
          have hreserved : (c.touched addr (c.mfs mf) time p).getStatus (byteSector x) =
              .reserved :=
            LineAfter.getStatus_touched_own hon hp hs hj
          refine Or.inr ⟨(CacheBlock.getStatus_writtenOnFill _ _ _).trans hreserved, ?_, ?_⟩
          · exact CacheBlock.setModifiedOnFill_writtenOnFill _ hj
          · exact (hfetched hhit hbytes).imp id fun h => ⟨rfl, h⟩

/-- A line that is not taken keeps its dirty bytes. -/
theorem LineAfter.dirtyByteMask_subset (hline : LineAfter c cls addr mf time p line)
    (hon : cfg.allocPolicy = .onMiss) (hmiss : p.status ≠ .miss) :
    (c.tagArray.lines p.idx).dirtyByteMask ⊆ line.dirtyByteMask := by
  have htouched : (c.touched addr (c.mfs mf) time p).dirtyByteMask =
      (c.tagArray.lines p.idx).dirtyByteMask := by
    unfold Cache.touched
    rcases hline.found hmiss with hs | hs | hs
    · rw [hs]
      rfl
    · rw [hs]
      rfl
    · rw [hs]
      simp only [TagArray.touchedLine, if_pos hon]
      rfl
  cases hline with
  | hit _ _ _ heffect =>
      cases heffect with
      | read => exact subset_rfl
      | write =>
          rw [CacheBlock.dirtyByteMask_readableUpdated]
          exact Finset.subset_union_left
      | evict => exact subset_rfl
  | write _ _ _ _ heffect =>
      rw [← htouched]
      cases heffect with
      | full =>
          rw [CacheBlock.dirtyByteMask_fullWritten]
          exact Finset.subset_union_left
      | onRead =>
          rw [CacheBlock.dirtyByteMask_lazyWritten]
          exact Finset.subset_union_left
  | fetch _ _ _ _ hfetcher =>
      rw [← htouched]
      cases hfetcher <;> exact subset_rfl

/-- A write that misses and is not a full one reserves its sector. -/
theorem LineAfter.reserved_of_partial (hline : LineAfter c cls addr mf time p line)
    (hon : cfg.allocPolicy = .onMiss) (hfetch : cfg.writeAllocPolicy = .fetchOnWrite)
    (hp : c.Probes addr (c.mfs mf) p) (hhit : p.status ≠ .hit)
    (hnotFull : (c.mfs mf).accessByteMask.card ≠ cfg.atomSz)
    (hj : cfg.SameSector (cfg.sectorIndex (c.mfs mf).accessSectorMask) (byteSector x)) :
    line.getStatus (byteSector x) = .reserved := by
  cases hline with
  | hit hs => exact absurd hs hhit
  | write _ _ _ _ heffect =>
      cases heffect with
      | full _ hfull => exact absurd hfull hnotFull
      | onRead hpolicy =>
          rw [hfetch] at hpolicy
          cases hpolicy
  | fetch hs _ _ _ hfetcher =>
      rw [hfetcher.getStatus]
      exact LineAfter.getStatus_touched_own hon hp hs hj

end Access

/-! ### Covered bytes -/

namespace Core

/-- A fetch under way that will fill a sector of a line, with a byte of its own. -/
def FetchesByte (s : Core cfg) (i : ℕ) (x : Fin 128) : Prop :=
  ∃ t e, s.extra.lookup t = some e ∧ e.cacheIndex = i ∧
    cfg.SameSector (cfg.sectorIndex (s.mfs t).accessSectorMask) (byteSector x) ∧
      x ∈ (s.mfs t).accessByteMask

/-- A line of the block covers the byte. -/
def Keeps (s : Core cfg) (block : NewAddrType) (x : Fin 128) : Prop :=
  ∃ i, (s.lines i).tag = block ∧ (s.lines i).Keeps x (s.FetchesByte i x)

/-- **A byte of a block is covered**: its sector is `MODIFIED` and it is dirty, or its sector is
reserved with modified-on-fill set, and after the fill that is under way it will be dirty. -/
def Covers (s : Core cfg) (block : NewAddrType) (x : Fin 128) : Prop :=
  ∃ i, (s.lines i).tag = block ∧
    ((s.lines i).getStatus (byteSector x) = .modified ∧ x ∈ (s.lines i).dirtyByteMask ∨
      (s.lines i).getStatus (byteSector x) = .reserved ∧
        ((s.lines i).sectorAt (byteSector x)).setModifiedOnFill = true ∧
        ∃ t e, s.extra.lookup t = some e ∧ e.cacheIndex = i ∧
          cfg.SameSector (cfg.sectorIndex (s.mfs t).accessSectorMask) (byteSector x) ∧
          (x ∈ (s.lines i).dirtyByteMask ∨
            (s.lines i).setByteMaskOnFill = true ∧ x ∈ (s.mfs t).accessByteMask))

/-- The fetch that a reserved sector waits for is under way. -/
theorem Keeps.covers {s : Core cfg} {block : NewAddrType} {x : Fin 128} (h : s.Keeps block x)
    (hbacked : Backed s) : s.Covers block x := by
  obtain ⟨i, htag, ⟨hs, hx⟩ | ⟨hs, hm, hx⟩⟩ := h
  · exact ⟨i, htag, Or.inl ⟨hs, hx⟩⟩
  · refine ⟨i, htag, Or.inr ⟨hs, hm, ?_⟩⟩
    rcases hx with hx | ⟨hmask, t, e, he, hidx, hsame, hbyte⟩
    · obtain ⟨t, e, he, hidx, hsame⟩ := hbacked.reserved i _ hs
      exact ⟨t, e, he, hidx, by rwa [hbacked.matched t e he], Or.inl hx⟩
    · exact ⟨t, e, he, hidx, hsame, Or.inr ⟨hmask, hbyte⟩⟩

/-- The fetches for a byte stay, if the fetches stay. -/
theorem FetchesByte.of_stays {s s' : Core cfg} {i : ℕ} {x : Fin 128} (h : s.FetchesByte i x)
    (hstays : ∀ t e, s.extra.lookup t = some e → e.cacheIndex = i →
      cfg.SameSector (cfg.sectorIndex (s.mfs t).accessSectorMask) (byteSector x) →
      ∃ e', s'.extra.lookup t = some e' ∧ e'.cacheIndex = e.cacheIndex ∧ SameMasks s s' t) :
    s'.FetchesByte i x := by
  obtain ⟨t, e, he, hidx, hsame, hx⟩ := h
  obtain ⟨e', he', hidx', hmasks⟩ := hstays t e he hidx hsame
  exact ⟨t, e', he', hidx'.trans hidx, by rwa [hmasks.sectors], by rwa [hmasks.bytes]⟩

/-- Nothing changes but pins, access times, and the number of missing responses. -/
theorem Keeps.of_same {s s' : Core cfg} {block : NewAddrType} {x : Fin 128} (h : s.Keeps block x)
    (hlines : ∀ i, (s'.lines i).tag = (s.lines i).tag ∧
      ∀ fetched, (s.lines i).Keeps x fetched → (s'.lines i).Keeps x fetched)
    (hstays : ∀ t e, s.extra.lookup t = some e →
      ∃ e', s'.extra.lookup t = some e' ∧ e'.cacheIndex = e.cacheIndex ∧ SameMasks s s' t) :
    s'.Keeps block x := by
  obtain ⟨i, htag, hkeeps⟩ := h
  exact ⟨i, (hlines i).1.trans htag, ((hlines i).2 _ hkeeps).mono fun hf =>
    hf.of_stays fun t e he _ _ => hstays t e he⟩

/-- The return of a request keeps what a line covers. -/
theorem keeps_unpin (s : Core cfg) (mf : Token) (i : ℕ) {x : Fin 128} {fetched : Prop}
    (h : (s.lines i).Keeps x fetched) : ((s.unpin mf).lines i).Keeps x fetched := by
  obtain ⟨n, hn⟩ := s.unpin_pins mf i
  rw [hn]
  exact h.of_sector rfl subset_rfl id

end Core

/-- A line with a reserved sector is no victim. -/
theorem TagArray.getStatus_of_miss {ta : TagArray cfg} {addr : NewAddrType} {idx : ℕ}
    {mask : MemAccessSectorMask} {isWrite : Bool} {p : ProbeResult}
    (hp : ta.probe addr idx mask isWrite = .ok p) (hs : p.status = .miss) (j : Fin 4) :
    (ta.lines p.idx).getStatus j ≠ .reserved := by
  obtain ⟨setIndex, -, hprobed⟩ := TagArray.probed_of_probe hp
  have he := (hprobed.miss hs).2
  simp only [eligible, Bool.and_eq_true, Bool.not_eq_true'] at he
  intro hreserved
  have hline := ((ta.lines p.idx).isReservedLine_iff).2 ⟨j, hreserved⟩
  rw [he.1.2] at hline
  cases hline

section Access

variable {c : Cache cfg} {cls : CacheClass} {mf : Token} {time : Time}
  {status : CacheRequestStatus} {s' : Core cfg} {block : NewAddrType} {x : Fin 128}

/-- The line that an access leaves, pinned or not. -/
theorem LineAfter.exists_keeps {addr : NewAddrType} {p : ProbeResult}
    {line : CacheBlock cfg.cacheType} (hline : LineAfter c cls addr mf time p line)
    (hon : cfg.allocPolicy = .onMiss) (htagged : Tagged c.core) (hp : c.Probes addr (c.mfs mf) p)
    (hlines : s'.lines = Function.update c.tagArray.lines p.idx line ∨
      s'.lines = Function.update c.tagArray.lines p.idx line.pin) :
    (s'.lines p.idx).tag = cfg.blockAddr addr ∧
      (∀ fetched, line.Keeps x fetched → (s'.lines p.idx).Keeps x fetched) ∧
      (s'.lines p.idx).dirtyByteMask = line.dirtyByteMask ∧
      (∀ j, (s'.lines p.idx).getStatus j = line.getStatus j) ∧
      ∀ i ≠ p.idx, s'.lines i = c.core.lines i := by
  have htag := (hline.belongsTo hon htagged hp).1
  rcases hlines with hlines | hlines
  · simp only [hlines, Function.update_self]
    exact ⟨htag, fun _ h => h, trivial, fun _ => trivial, fun i hi => Function.update_of_ne hi _ _⟩
  · simp only [hlines, Function.update_self]
    exact ⟨htag, fun _ h => h.of_sector rfl subset_rfl id, rfl, fun _ => rfl,
      fun i hi => Function.update_of_ne hi _ _⟩

/-- **A byte that was covered** is still covered after an access, unless its line was taken. -/
theorem Core.Keeps.access (h : c.core.Keeps block x) (hon : cfg.allocPolicy = .onMiss)
    (hback : cfg.writePolicy = .writeBack) (hfetch : cfg.writeAllocPolicy = .fetchOnWrite)
    (hcfg : cfg.Checked) (htagged : Tagged c.core) (hatom : cfg.InAtom (c.mfs mf))
    (hx : x.val < cfg.lineSz)
    (hstays : ∀ t e, c.core.extra.lookup t = some e → s'.extra.lookup t = some e ∧
      SameMasks c.core s' t)
    (hcase : AccessCase c cls (c.mfs mf).addr mf time status s') :
    s'.Keeps block x ∨ ∃ p, c.Probes (c.mfs mf).addr (c.mfs mf) p ∧
      takesLine cfg (c.mfs mf) p.status ∧ (c.core.lines p.idx).tag = block ∧
      (c.core.lines p.idx).getStatus (byteSector x) = .modified ∧
      x ∈ (c.core.lines p.idx).dirtyByteMask := by
  obtain ⟨i, htag, hkeeps⟩ := h
  have hbytes : ∀ i, c.core.FetchesByte i x → s'.FetchesByte i x := fun i hf =>
    hf.of_stays fun t e he _ _ => ⟨e, (hstays t e he).1, rfl, (hstays t e he).2⟩
  rcases hcase.line_after with ⟨hlines, -⟩ | ⟨p, line, hp, hline, hlines⟩
  · left
    refine ⟨i, ?_, ?_⟩
    · rw [hlines]
      exact htag
    · rw [hlines]
      exact hkeeps.mono (hbytes i)
  obtain ⟨htag', hafter, -, -, hother⟩ := @LineAfter.exists_keeps _ _ _ _ _ _ x _ _ _ hline hon
    htagged hp hlines
  by_cases hi : i = p.idx
  · subst hi
    by_cases hmiss : p.status = .miss
    · right
      refine ⟨p, hp, hline.takesLine hon hmiss, htag, ?_⟩
      rcases hkeeps with hmodified | ⟨hreserved, -⟩
      · exact hmodified
      · exact absurd hreserved (TagArray.getStatus_of_miss hp hmiss _)
    · left
      refine ⟨p.idx, ?_, hafter _ ?_⟩
      · exact htag'.trans ((hp.holds (hline.found hmiss)).1.symm.trans htag)
      · refine (hline.keeps hon hback hfetch hp hmiss (fun hwrite hfull hsame => ?_) hkeeps).mono
          (hbytes p.idx)
        rw [hatom.eq_atomBytes hcfg hwrite hfull, CacheConfig.atomBytes, Finset.mem_filter,
          CacheConfig.mem_bytesOf, ← hatom.1.sectorIndex]
        exact ⟨hsame, hx⟩
  · left
    refine ⟨i, ?_, ?_⟩
    · rw [hother i hi]
      exact htag
    · rw [hother i hi]
      exact hkeeps.mono (hbytes i)

/-- **The bytes of an accepted write are covered**, if those that join a fetch are bytes of the
fetch or dirty. -/
theorem AccessCase.keeps_written (hon : cfg.allocPolicy = .onMiss)
    (hback : cfg.writePolicy = .writeBack) (hfetch : cfg.writeAllocPolicy = .fetchOnWrite)
    (htagged : Tagged c.core) (hatom : cfg.InAtom (c.mfs mf)) (haccept : status ≠ .reservationFail)
    (hcaller : ∀ n, mf ≠ .created n) (hwrite : (c.mfs mf).isWrite = true)
    (hx : x ∈ (c.mfs mf).accessByteMask) (hbacked : Backed s')
    (hstays : ∀ t e, c.core.extra.lookup t = some e → s'.extra.lookup t = some e ∧
      SameMasks c.core s' t)
    (hspares : ∀ p, c.Probes (c.mfs mf).addr (c.mfs mf) p → ∀ t e,
      c.core.extra.lookup t = some e → e.cacheIndex = p.idx → p.status ≠ .miss)
    (hjoins : (c.mfs mf).accessByteMask.card ≠ cfg.atomSz →
      ∀ p, c.Probes (c.mfs mf).addr (c.mfs mf) p → p.status ≠ .hit →
        ∀ t e, c.core.extra.lookup t = some e → e.cacheIndex = p.idx →
          cfg.SameSector (cfg.sectorIndex (c.mfs t).accessSectorMask)
            (cfg.sectorIndex (c.mfs mf).accessSectorMask) →
          (c.mfs mf).accessByteMask ⊆
            (c.tagArray.lines p.idx).dirtyByteMask ∪ (c.mfs t).accessByteMask)
    (hcase : AccessCase c cls (c.mfs mf).addr mf time status s') :
    s'.Keeps (cfg.blockAddr (c.mfs mf).addr) x := by
  have hj : cfg.SameSector (cfg.sectorIndex (c.mfs mf).accessSectorMask) (byteSector x) := by
    rw [hatom.1.sectorIndex, ← CacheConfig.mem_bytesOf]
    exact (Finset.mem_filter.1 (hatom.2 hwrite hx)).1
  rcases hcase.line_after with ⟨-, hrefused | ⟨hpolicy, -⟩⟩ | ⟨p, line, hp, hline, hlines⟩
  · exact absurd hrefused haccept
  · rw [hfetch] at hpolicy
    cases hpolicy
  obtain ⟨htag, hafter, hdirty, hstatus, -⟩ := @LineAfter.exists_keeps _ _ _ _ _ _ x _ _ _ hline
    hon htagged hp hlines
  refine ⟨p.idx, htag, hafter _ ?_⟩
  refine hline.keeps_written hon hback hfetch hp hwrite hj hx fun hhit hnotFull => ?_
  -- a write that is not full reserves its sector, and waits for a fetch
  have hreserved : (s'.lines p.idx).getStatus (byteSector x) = .reserved := by
    rw [hstatus]
    exact hline.reserved_of_partial hon hfetch hp hhit hnotFull hj
  obtain ⟨t, e, he, hidx, hsame⟩ := hbacked.reserved _ _ hreserved
  have hsector : cfg.SameSector (cfg.sectorIndex (s'.mfs t).accessSectorMask) (byteSector x) := by
    rwa [hbacked.matched t e he]
  rcases hcase.fetch_origin hcaller he with he' | ⟨q, hl⟩
  · obtain ⟨-, hmasks⟩ := hstays t e he'
    have hsector' : cfg.SameSector (cfg.sectorIndex (c.core.mfs t).accessSectorMask)
        (byteSector x) := by rwa [← hmasks.sectors]
    have hbytes := hjoins hnotFull p hp hhit t e he' hidx (hsector'.trans hj.symm) hx
    rcases Finset.mem_union.1 hbytes with hold | hown
    · exact Or.inl (hline.dirtyByteMask_subset hon (hspares p hp t e he' hidx) hold)
    · refine Or.inr ⟨t, e, he, hidx, hsector, ?_⟩
      rw [hmasks.bytes]
      exact hown
  · exact Or.inr ⟨t, e, he, hidx, hsector, by rwa [hl.bytes]⟩

end Access

/-! ### A complete response -/

/-- Two fetches for a sector of a line are one. -/
theorem Tracked.fetch_unique {s : Core cfg} {sent : List Token} (htracked : Tracked s sent)
    (hcfg : cfg.Checked) (hanchored : Anchored s) (hbacked : Backed s) {t t' : Token}
    {e e' : ExtraMfFields} (he : s.extra.lookup t = some e) (he' : s.extra.lookup t' = some e')
    (hidx : e'.cacheIndex = e.cacheIndex)
    (hsame : cfg.SameSector (cfg.sectorIndex (s.mfs t').accessSectorMask)
      (cfg.sectorIndex (s.mfs t).accessSectorMask)) : t' = t := by
  have hblock : cfg.blockAddr e'.blockAddr = cfg.blockAddr e.blockAddr := by
    rw [← (hanchored.tenant t' e' he').1, hidx, (hanchored.tenant t e he).1]
  rw [hbacked.matched t' e' he', hbacked.matched t e he] at hsame
  refine htracked.unique t' e' t e he' he ?_
  rw [← (htracked.fetching t' e' he').1.aligned, ← (htracked.fetching t e he).1.aligned]
  exact hcfg.mshrAddr_eq hblock hsame

/-- The fetch that a byte of a line waits for is the only one for its sector. -/
theorem Core.FetchesByte.of_complete {s : Core cfg} {sent : List Token} (hcfg : cfg.Checked)
    (htracked : Tracked s sent) (hresident : Resident s) (hbacked : Backed s) {x : Fin 128}
    {mf : Token} {e : ExtraMfFields} (he : s.extra.lookup mf = some e)
    (hj : cfg.SameSector (cfg.sectorIndex (s.mfs mf).accessSectorMask) (byteSector x))
    (h : s.FetchesByte e.cacheIndex x) : x ∈ (s.mfs mf).accessByteMask := by
  obtain ⟨t, e', he', hidx, hsame, hx⟩ := h
  obtain rfl := htracked.fetch_unique hcfg hresident.anchored hbacked he he' hidx
    (hsame.trans hj.symm)
  exact hx

/-- A fetch whose sector would be cleaned by the fill: it was written as a whole in the meantime,
and nothing tells the fill. -/
def Core.CleansWritten (s : Core cfg) (r : Token × ExtraMfFields) : Prop :=
  (s.lines r.2.cacheIndex).getStatus (cfg.sectorIndex (s.mfs r.1).accessSectorMask) = .modified ∧
    ((s.lines r.2.cacheIndex).sectorAt
      (cfg.sectorIndex (s.mfs r.1).accessSectorMask)).setModifiedOnFill = false

instance (s : Core cfg) (r : Token × ExtraMfFields) : Decidable (s.CleansWritten r) := by
  unfold Core.CleansWritten
  infer_instance

/-- **A response keeps what is covered**, unless it cleans a sector that was written as a whole. -/
theorem Core.Keeps.complete {s s' : Core cfg} {sent : List Token} {block : NewAddrType}
    {x : Fin 128} (h : s.Keeps block x) (hcfg : cfg.Checked) (htracked : Tracked s sent)
    (hresident : Resident s) (hbacked : Backed s) {mf : Token} {e : ExtraMfFields}
    (he : s.extra.lookup mf = some e) (hdone : Completed s s' mf e)
    (hspares : ¬s.CleansWritten (mf, e)) : s'.Keeps block x := by
  obtain ⟨i, htag, hkeeps⟩ := h
  have hlines := hdone.lines
  have hother : ¬(i = e.cacheIndex ∧
      cfg.SameSector (cfg.sectorIndex (s.mfs mf).accessSectorMask) (byteSector x)) →
      s.FetchesByte i x → s'.FetchesByte i x := by
    intro hne hf
    refine hf.of_stays fun t e' he' hidx hsame => ?_
    have ht : t ≠ mf := by
      rintro rfl
      obtain rfl := Option.some_inj.1 (he'.symm.trans he)
      exact hne ⟨hidx.symm, hsame⟩
    refine ⟨e', ?_, rfl, hdone.masks t (AList.lookup_isSome.1 (by rw [he']; rfl))⟩
    rw [hdone.extra, AList.lookup_erase_ne ht]
    exact he'
  by_cases hi : i = e.cacheIndex
  · subst hi
    refine ⟨e.cacheIndex, ?_, ?_⟩
    · rw [hlines, Function.update_self, (SameTenant.fill _ _ _).tag]
      exact htag
    · rw [hlines, Function.update_self]
      by_cases hj : cfg.SameSector (cfg.sectorIndex (s.mfs mf).accessSectorMask) (byteSector x)
      · refine hkeeps.fill hj (fun hs => ?_)
          (Core.FetchesByte.of_complete hcfg htracked hresident hbacked he hj)
        by_contra hflag
        refine hspares ⟨?_, ?_⟩
        · rw [CacheBlock.getStatus, hj.sectorAt_eq]
          exact hs
        · rw [hj.sectorAt_eq]
          exact Bool.eq_false_iff.2 hflag
      · exact (hkeeps.mono (hother fun hsame => hj hsame.2)).fill_other hj _
  · refine ⟨i, ?_, ?_⟩
    · rw [hlines, Function.update_of_ne hi]
      exact htag
    · rw [hlines, Function.update_of_ne hi]
      exact hkeeps.mono (hother fun hsame => hi hsame.1)

/-! ### The bytes of accepted writes -/

namespace System

/-- The bytes of a block in the write-backs that a call has queued. -/
def writtenBack (types : DataCacheTypes) (sys sys' : System cfg) (block : NewAddrType) :
    MemAccessByteMask :=
  Finset.univ.filter fun x => ∃ t ∈ sys'.core.missQueue.drop sys.core.missQueue.length,
    (sys'.core.mfs t).isWrite = true ∧ (sys'.core.mfs t).accessType = types.wrbkType ∧
      (sys'.core.mfs t).addr = block ∧ x ∈ (sys'.core.mfs t).accessByteMask ∧
      byteSector x ∈ (sys'.core.mfs t).accessSectorMask

/-- The write-back of a victim has the bytes that the victim has covered. -/
theorem mem_writtenBack {sys sys' : System cfg} {types : DataCacheTypes} {w : MemFetch}
    {block : NewAddrType} {x : Fin 128} (hsent : sys.lastSent sys' = some w)
    (hwrite : w.isWrite = true) (htype : w.accessType = types.wrbkType) (haddr : w.addr = block)
    (hx : x ∈ w.accessByteMask) (hsector : byteSector x ∈ w.accessSectorMask) :
    x ∈ sys.writtenBack types sys' block := by
  obtain ⟨t, ht, rfl⟩ := Option.map_eq_some_iff.1 hsent
  exact Finset.mem_filter.2
    ⟨Finset.mem_univ x, t, List.mem_of_getLast? ht, hwrite, htype, haddr, hx, hsector⟩

end System

/-- For each block, the bytes that accepted writes have written and that no write-back has
taken down since. -/
abbrev Owed : Type := NewAddrType → MemAccessByteMask

namespace Owed

/-- Nothing has been written. -/
def init : Owed := fun _ => ∅

/-- What a call adds and takes away. -/
def note (cfg : CacheConfig) (types : DataCacheTypes) (h : Owed) (sys : System cfg) (_o : Op)
    (sys' : System cfg) : Obs → Owed
  | .access _ m status _ =>
      if status = .reservationFail then h
      else fun block => (h block \ sys.writtenBack types sys' block) ∪
        if m.isWrite = true ∧ block = cfg.blockAddr m.addr then m.accessByteMask else ∅
  | _ => h

end Owed

/-- The runs of a data cache with the bytes that are owed. -/
abbrev System.OwedRun (types : DataCacheTypes) (promise : System cfg → Op → Prop) :
    System cfg × Owed → List Obs → System cfg × Owed → Prop :=
  Runs.Run (Runs.withHistory (System.perform (.dataCache types)) (Owed.note cfg types))
    (fun s => promise s.1)

/-! ### Steps that keep the writes -/

namespace System

/-- A write that is answered with `p` finds no fetch for its sector that will leave out one of its
bytes: the fill marks the bytes of the request that has sent the fetch. -/
def JoinsItsBytes (sys : System cfg) (m : MemFetch) (p : ProbeResult) : Prop :=
  p.status ≠ .hit → ∀ r ∈ sys.core.extra.entries, r.2.cacheIndex = p.idx →
    cfg.SameSector (cfg.sectorIndex (sys.core.mfs r.1).accessSectorMask)
      (cfg.sectorIndex m.accessSectorMask) →
    m.accessByteMask ⊆
      (sys.core.lines p.idx).dirtyByteMask ∪ (sys.core.mfs r.1).accessByteMask

instance (sys : System cfg) (m : MemFetch) (p : ProbeResult) :
    Decidable (sys.JoinsItsBytes m p) := by
  unfold JoinsItsBytes
  infer_instance

/-- Requests lie in one atom; a write that is no full one joins no fetch that leaves out its bytes;
and no response cleans a sector that has been written in the meantime. -/
def KeepsWrites (types : DataCacheTypes) (sys : System cfg) : Op → Prop
  | .access n m time events => cfg.InAtom m ∧
      (sys.accepts (.dataCache types) (.access n m time events) = true → m.isWrite = true →
        m.accessByteMask.card ≠ cfg.atomSz → ∀ p ∈ sys.answer m, sys.JoinsItsBytes m p)
  | o => o.clears = false ∧ ∀ r ∈ sys.completes o, ¬sys.core.CleansWritten r

instance (types : DataCacheTypes) (sys : System cfg) (o : Op) :
    Decidable (sys.KeepsWrites types o) := by
  induction o using Op.casesOn <;> unfold KeepsWrites <;> infer_instance

theorem KeepsWrites.clears {types : DataCacheTypes} {sys : System cfg} {o : Op}
    (h : sys.KeepsWrites types o) : o.clears = false := by
  cases o with
  | access => rfl
  | _ => exact h.1

theorem KeepsWrites.careful {types : DataCacheTypes} {sys : System cfg} {o : Op}
    (h : sys.KeepsWrites types o) : sys.Careful o := by
  cases o with
  | access => exact h.1.1
  | flush => cases h.1
  | invalidate => cases h.1
  | _ => trivial

end System

/-- The bytes that are owed are bytes of lines, and they are covered. -/
def Core.KeepsOwed (s : Core cfg) (h : Owed) : Prop :=
  ∀ block, ∀ x ∈ h block, x.val < cfg.lineSz ∧ s.Keeps block x

namespace Core.KeepsOwed

variable {types : DataCacheTypes} {sys sys' : System cfg} {h : Owed} {o : Op} {b : Obs}

/-- Nothing changes but pins, access times, and the number of missing responses. -/
theorem of_same {s s' : Core cfg} (hs : s.KeepsOwed h)
    (hlines : ∀ x, ∀ i, (s'.lines i).tag = (s.lines i).tag ∧
      ∀ fetched, (s.lines i).Keeps x fetched → (s'.lines i).Keeps x fetched)
    (hstays : ∀ t e, s.extra.lookup t = some e →
      ∃ e', s'.extra.lookup t = some e' ∧ e'.cacheIndex = e.cacheIndex ∧ SameMasks s s' t) :
    s'.KeepsOwed h := fun block x hx =>
  ⟨(hs block x hx).1, (hs block x hx).2.of_same (hlines x) hstays⟩

/-- **An accepted access that keeps the writes**: what it owes then is covered. -/
theorem access (hs : sys.core.KeepsOwed h) (hcfg : cfg.Checked) (hon : cfg.allocPolicy = .onMiss)
    (hback : cfg.writePolicy = .writeBack) (hfetch : cfg.writeAllocPolicy = .fetchOnWrite)
    (htracked : Tracked sys.core sys.sent) (hresident : Resident sys.core)
    (hpinned : PinnedEntries sys.core) (hacc : Accounted sys.core) (hbacked : Backed sys'.core)
    {n : ℕ} {m : MemFetch} {time : Time} {events : List CacheEvent} {status : CacheRequestStatus}
    (hpromise : sys.Promise (.access n m time events))
    (hkeeps : sys.KeepsWrites types (.access n m time events))
    (haccepts : sys.accepts (.dataCache types) (.access n m time events) = true)
    (haccept : status ≠ .reservationFail)
    (hcase : AccessCase (sys.build n m) (.dataCache types) m.addr (.caller n) time status
      sys'.core) {block : NewAddrType} {x : Fin 128}
    (hx : x ∈ (h block \ sys.writtenBack types sys' block) ∪
      if m.isWrite = true ∧ block = cfg.blockAddr m.addr then m.accessByteMask else ∅) :
    x.val < cfg.lineSz ∧ sys'.core.Keeps block x := by
  have hm := sys.build_mfs_caller n m
  have hcase' := System.access_of_build hcase
  have hwaits : ∀ {t}, t ∈ sys.core.extra → t ∈ sys.sent := htracked.mem_sent_of_mem
  have hextra : ∀ {t e}, sys.core.extra.lookup t = some e → t ∈ sys.core.extra :=
    fun he => AList.lookup_isSome.1 (Option.isSome_of_mem he)
  have hstays : ∀ t e, (sys.build n m).core.extra.lookup t = some e →
      sys'.core.extra.lookup t = some e ∧ SameMasks (sys.build n m).core sys'.core t := by
    intro t e he
    refine ⟨hcase'.fetch_stays (fun hmem => hpromise (List.mem_append_right _ (hwaits hmem)))
      (fun hmem => lt_irrefl _ (htracked.created _ (hwaits hmem))) he, ?_⟩
    exact hcase'.sameMasks fun k hk => htracked.created k (hwaits (hk ▸ hextra he))
  have hbuild : ∀ {block x}, sys.core.Keeps block x → (sys.build n m).core.Keeps block x :=
    fun hold => hold.of_same (fun i => ⟨rfl, fun _ hi => hi⟩) fun t e he =>
      ⟨e, he, rfl, .of_eq (System.build_mfs htracked hpromise m (hextra he))⟩
  have htagged : Tagged (sys.build n m).core := hresident.tagged
  have hatom : cfg.InAtom ((sys.build n m).mfs (.caller n)) := by
    rw [hm]
    exact hkeeps.1
  rcases Finset.mem_union.1 hx with howed | hnew
  · -- what was owed is still covered, or the write-back of its line has it
    obtain ⟨hold, hnot⟩ := Finset.mem_sdiff.1 howed
    obtain ⟨hlt, hcovered⟩ := hs block x hold
    refine ⟨hlt, ?_⟩
    rcases (hbuild hcovered).access hon hback hfetch hcfg htagged hatom hlt hstays hcase' with
      hafter | ⟨p, hp, htakes, htag, hmodified, hdirty⟩
    · exact hafter
    · rw [hm] at hp htakes
      have hline : (sys.core.lines p.idx).isModifiedLine = true :=
        (CacheBlock.isModifiedLine_iff _).2 ⟨_, hmodified⟩
      have hsent := System.lastSent_of_evicts hback hcase haccept
        ((System.answer_eq_some n).2 hp) htakes hline
      refine absurd (System.mem_writtenBack hsent rfl rfl ?_ hdirty ?_) hnot
      · exact (hresident.tagged p.idx).2.trans htag
      · have hsector := (CacheBlock.mem_getDirtySectorMask (sys.core.lines p.idx) _).2 hmodified
        change byteSector x ∈ memAccessSectorMask _
        rw [memAccessSectorMask, if_neg (Finset.card_ne_zero_of_mem hsector)]
        exact hsector
  · split at hnew
    · next hwrites =>
        obtain ⟨hwrite, rfl⟩ := hwrites
        have hbyte := hkeeps.1.2 hwrite hnew
        refine ⟨(Finset.mem_filter.1 hbyte).2, ?_⟩
        have hkept := hcase'.keeps_written hon hback hfetch htagged hatom haccept (by simp)
          (by rwa [hm]) (by rwa [hm]) hbacked hstays (fun p hp t e he hidx hmiss => ?_)
          fun hnotFull p hp hhit t e he hidx hsame => ?_
        · rwa [hm] at hkept
        · -- the line of a fetch is pinned by the request that has sent it
          have htakes : takesLine cfg ((sys.build n m).mfs (.caller n)) p.status :=
            ⟨hmiss, hon, fun _ => by simp [hfetch]⟩
          have hentry : e.blockAddr ∈ (sys.build n m).core.entries := (htracked.entry t e he).1
          have hbuilt : Accounted (sys.build n m).core :=
            hacc.of_same (List.Perm.refl _) rfl (fun _ => rfl) le_rfl
          have hpinned' : PinnedEntries (sys.build n m).core := hpinned
          have hlive := CacheBlock.isInvalidLine_of_getStatus _ (hresident.anchored.sector t e he)
          have htenant := (hresident.anchored.tenant t e he).1
          rw [hidx] at hlive htenant
          exact hpinned'.takes_no_entry hbuilt (hresident.build htracked hpromise m).housed
            htracked.nonempty hp htakes hlive hentry htenant.symm
        · rw [hm] at hp hnotFull hsame ⊢
          rw [System.build_mfs htracked hpromise m (hextra he)] at hsame ⊢
          exact hkeeps.2 haccepts hwrite hnotFull p ((System.answer_eq_some n).2 hp) hhit ⟨t, e⟩
            (AList.mem_lookup_iff.1 he) hidx hsame
    · exact absurd hnew (Finset.notMem_empty x)

/-- **One step that keeps the writes keeps what is owed covered.** -/
theorem step (hs : sys.core.KeepsOwed h) (hcfg : cfg.Checked) (hon : cfg.allocPolicy = .onMiss)
    (hback : cfg.writePolicy = .writeBack) (hfetch : cfg.writeAllocPolicy = .fetchOnWrite)
    (htracked : Tracked sys.core sys.sent) (hresident : Resident sys.core)
    (hbacked : Backed sys.core) (hpinned : PinnedEntries sys.core) (hacc : Accounted sys.core)
    (hbacked' : Backed sys'.core) (hpromise : sys.Promise o) (hkeeps : sys.KeepsWrites types o)
    (hperform : sys.perform (.dataCache types) o = .ok (sys', b)) :
    sys'.core.KeepsOwed (h.note cfg types sys o sys' b) := by
  have hsame : ∀ {s' : Core cfg}, s'.lines = sys.core.lines → s'.extra = sys.core.extra →
      s'.mfs = sys.core.mfs → s'.KeepsOwed h := by
    intro s' hlines hextra hmfs
    refine hs.of_same (fun x i => ?_) fun t e he => ⟨e, hextra ▸ he, rfl, .of_eq (by rw [hmfs])⟩
    rw [hlines]
    exact ⟨rfl, fun _ hi => hi⟩
  have hunpin : ∀ {s₁ : Core cfg} (mf : Token), s₁.lines = sys.core.lines →
      s₁.extra = sys.core.extra → s₁.mfs = sys.core.mfs → (s₁.unpin mf).KeepsOwed h := by
    intro s₁ mf hlines hextra hmfs
    have hs₁ : s₁.KeepsOwed h := hsame hlines hextra hmfs
    refine hs₁.of_same (fun x i => ⟨?_, fun _ hi => s₁.keeps_unpin mf i hi⟩) fun t e he =>
      ⟨e, by simpa using he, rfl, .of_eq (by simp)⟩
    have htagged : (s₁.lines i).BelongsTo (s₁.lines i).tag := by
      rw [hlines]
      exact hresident.tagged i
    exact ((Resident.unpin_line s₁ mf i).1 _ htagged).1
  cases System.step_cases hpromise.suits hperform with
  | access n m time events status hcase hbelow =>
      unfold Owed.note
      dsimp only
      split
      · next hrefused =>
          subst hrefused
          rw [hcase.refused_eq]
          refine hs.of_same (fun x i => ⟨rfl, fun _ hi => hi⟩) fun t e he => ⟨e, he, rfl, .of_eq ?_⟩
          exact System.build_mfs htracked hpromise m
            (AList.lookup_isSome.1 (Option.isSome_of_mem he))
      · next haccept =>
          have haccepts : sys.accepts (.dataCache types) (.access n m time events) = true := by
            rw [System.accepts, hperform]
            exact decide_eq_true haccept
          exact fun block x hx => hs.access hcfg hon hback hfetch htracked hresident hpinned hacc
            hbacked' hpromise hkeeps haccepts haccept hcase hx
  | tick memportFull waiting done htick hcore hbelow =>
      rw [hcore]
      exact hsame rfl rfl rfl
  | push memportFull waiting done htick mf rest hqueue hcore hbelow =>
      rw [hcore]
      exact hsame rfl rfl rfl
  | wait n m time original horiginal e pendingRead he hcore hbelow =>
      rw [hcore]
      have hmasks : ∀ {t e'}, sys.core.extra.lookup t = some e' →
          SameMasks sys.core { (sys.build n m).core with
            extra := sys.core.extra.insert original { e with pendingRead } } t := fun hlookup =>
        .of_eq (System.build_mfs htracked hpromise.2.1 m
          (AList.lookup_isSome.1 (Option.isSome_of_mem hlookup)))
      refine hs.of_same (fun x i => ⟨rfl, fun _ hi => hi⟩) fun t e' he' => ?_
      by_cases ht : t = original
      · subst ht
        obtain rfl := Option.some_inj.1 (he'.symm.trans he)
        exact ⟨_, AList.lookup_insert _, rfl, hmasks he'⟩
      · exact ⟨e', (AList.lookup_insert_ne ht).trans he', rfl, hmasks he'⟩
  | complete o c mf time horigin e he hentry lines hfill hcore hbelow =>
      have hdone := System.completed hon htracked hpromise horigin he hfill hcore
      have hcompletes : sys.completes o = some (mf, e) := by
        refine (System.completes_eq_some_iff hpromise hperform he).2 ⟨rfl, ?_⟩
        rw [hdone.extra]
        exact AList.lookup_erase _ _
      have hclean : ¬sys.core.CleansWritten (mf, e) := by
        rcases horigin with ⟨rfl, -⟩ | ⟨n, m, rfl, -, -⟩
        · exact hkeeps.2 _ hcompletes
        · exact hkeeps.2 _ hcompletes
      exact fun block x hx => ⟨(hs block x hx).1,
        (hs block x hx).2.complete hcfg htracked hresident hbacked he hdone hclean⟩
  | ready mf rest hqueue hpinned hcore hbelow =>
      rw [hcore]
      exact hunpin mf rfl rfl rfl
  | deliver mf a rest addresses hready hanswered hentry hpinned hcore hbelow =>
      rw [hcore]
      refine hunpin mf ?_ ?_ ?_ <;>
        · unfold Core.deliver
          split <;> rfl
  | flush => cases hkeeps.clears
  | invalidate => cases hkeeps.clears
  | retire mf hcore hbelow =>
      rw [hcore]
      exact hs

end Core.KeepsOwed

/-! ### Whole runs -/

section Run

variable {types : DataCacheTypes} {mfs : Token → MemFetch} {trace : List Obs}
  {s : System cfg × Owed}

/-- **No accepted write is lost**, in every run whose steps keep the writes: a byte that an accepted
write has written, and that no write-back has taken down since, is dirty in a `MODIFIED` sector, or
its sector is reserved, and the fill that is under way makes it so. -/
theorem accepted_writes_stay_covered (hcfg : cfg.Accepted) (hon : cfg.allocPolicy = .onMiss)
    (hback : cfg.writePolicy = .writeBack) (hfetch : cfg.writeAllocPolicy = .fetchOnWrite)
    (hdefer : cfg.deferHitResponse = true)
    (hrun : System.OwedRun types (fun sys o => sys.Promise o ∧ sys.KeepsWrites types o)
      (System.init cfg mfs, .init) trace s) :
    ∀ block, ∀ x ∈ s.2 block, s.1.core.Covers block x := by
  have hforget : ∀ {trace : List Obs} {s : System cfg × Owed}, System.OwedRun types
      (fun sys o => sys.Promise o ∧ sys.KeepsWrites types o) (System.init cfg mfs, .init) trace s →
      System.Run (.dataCache types) (fun sys o => sys.Promise o ∧ sys.Careful o)
        (System.init cfg mfs) trace s.1 :=
    fun hrun => hrun.forget fun _ _ h => ⟨h.1, h.2.careful⟩
  have hhits : KeepsHits cfg (.dataCache types) := .of_policy (Or.inr (Or.inl hback))
  have howed : s.1.core.KeepsOwed s.2 := by
    refine hrun.reachable_invariant (fun _ s => s.1.core.KeepsOwed s.2) ?_ ?_
    · exact fun block x hx => absurd hx (Finset.notMem_empty x)
    · rintro trace ⟨sys, h⟩ o ⟨sys', h'⟩ b hbefore hs ⟨hpromise, hkeeps⟩ hstep
      have hafter := hforget (hbefore.snoc ⟨hpromise, hkeeps⟩ hstep)
      obtain ⟨hperform, rfl⟩ := Runs.withHistory_eq_ok.1 hstep
      obtain ⟨⟨hacc, htracked, -⟩, -⟩ :=
        homed_of_run hon hdefer ((hforget hbefore).mono fun _ _ h => h.1)
      obtain ⟨hresident, hbacked, hpinned⟩ :=
        pinnedEntries_of_run hcfg.checked hon hdefer hhits (hforget hbefore)
      obtain ⟨-, hbacked', -⟩ := pinnedEntries_of_run hcfg.checked hon hdefer hhits hafter
      exact hs.step hcfg.checked hon hback hfetch htracked hresident hbacked hpinned hacc hbacked'
        hpromise hkeeps hperform
  intro block x hx
  obtain ⟨-, hbacked, -⟩ := pinnedEntries_of_run hcfg.checked hon hdefer hhits (hforget hrun)
  exact (howed block x hx).2.covers hbacked

end Run

/-- A write of one byte waits for its fetch, and the fill makes the byte dirty. -/
theorem accepted_writes_stay_covered_after_fill :
    ∃ trace s, System.OwedRun .l1 (fun sys o => sys.Promise o ∧ sys.KeepsWrites .l1 o)
        (System.init (CacheConfig.small 'S' 'B' 'm' 'F' 2 true) fun _ => MemFetch.load 0, .init)
          trace s ∧
      0 ∈ s.2 0 ∧ s.1.core.extra.entries.isEmpty = true ∧ s.1.core.Covers 0 0 := by
  obtain ⟨trace, s, hrun, howed, hextra⟩ :
      ∃ trace s, System.OwedRun .l1 (fun sys o => sys.Promise o ∧ sys.KeepsWrites .l1 o)
          (System.init (CacheConfig.small 'S' 'B' 'm' 'F' 2 true) fun _ => MemFetch.load 0, .init)
            trace s ∧
        0 ∈ s.2 0 ∧ s.1.core.extra.entries.isEmpty = true :=
    Runs.exists_run_of_exec [.access 0 (MemFetch.store 0 {0}) 0 [], .cycle false,
      .fill (.created 0) 1] (by decide)
  exact ⟨trace, s, hrun, howed, hextra, accepted_writes_stay_covered
    (CacheConfig.small_accepted (by decide) true) rfl rfl rfl rfl hrun 0 0 howed⟩

/-! ### Writes that are lost -/

/-- With no fetch under way, a covered byte is dirty in a line of the cache. -/
theorem System.dirty_of_covers {sys : System cfg} (hrange : sys.InRange)
    (hquiet : sys.core.extra.entries.isEmpty = true) {block : NewAddrType} {x : Fin 128}
    (h : sys.core.Covers block x) :
    ∃ i < cfg.getNumLines, (sys.core.lines i).getStatus (byteSector x) = .modified ∧
      x ∈ (sys.core.lines i).dirtyByteMask := by
  obtain ⟨i, -, ⟨hmodified, hx⟩ | ⟨-, -, t, e, he, -⟩⟩ := h
  · refine ⟨i, ?_, hmodified, hx⟩
    by_contra hi
    have hclean := hrange.2 i (not_lt.1 hi)
    rw [(CacheBlock.isModifiedLine_iff _).2 ⟨_, hmodified⟩] at hclean
    cases hclean
  · have hmem := AList.mem_lookup_iff.1 he
    rw [List.isEmpty_iff.1 hquiet] at hmem
    cases hmem

/-- A full write is lost by the fill of a read that its sector waits for, which cleans the sector;
and a write of one byte is lost by the fill that it waits for, when another write has sent the
fetch. -/
theorem accepted_writes_are_lost :
    (CacheConfig.small 'S' 'B' 'm' 'F' 2 true).Accepted ∧
      (∃ trace s, System.OwedRun .l1 (fun sys o => sys.Promise o ∧ o.clears = false)
        (System.init (CacheConfig.small 'S' 'B' 'm' 'F' 2 true) fun _ => MemFetch.load 0, .init)
          trace s ∧
        sectorBytes 0 ⊆ s.2 0 ∧ ∀ x ∈ sectorBytes 0, ¬s.1.core.Covers 0 x) ∧
      ∃ trace s, System.OwedRun .l1 (fun sys o => sys.Promise o ∧ o.clears = false)
        (System.init (CacheConfig.small 'S' 'B' 'm' 'F' 2 true) fun _ => MemFetch.load 0, .init)
          trace s ∧
        1 ∈ s.2 0 ∧ ¬s.1.core.Covers 0 1 := by
  have hforget : ∀ {trace : List Obs}
      {s : System (CacheConfig.small 'S' 'B' 'm' 'F' 2 true) × Owed},
      System.OwedRun .l1 (fun sys o => sys.Promise o ∧ o.clears = false)
        (System.init _ fun _ => MemFetch.load 0, .init) trace s → s.1.InRange :=
    fun hrun => System.inRange_of_run (hrun.forget fun _ _ h => h.1)
  refine ⟨CacheConfig.small_accepted (by decide) true, ?_, ?_⟩
  · obtain ⟨trace, s, hrun, howed, hquiet, hclean⟩ :
        ∃ trace s, System.OwedRun .l1 (fun sys o => sys.Promise o ∧ o.clears = false)
          (System.init (CacheConfig.small 'S' 'B' 'm' 'F' 2 true) fun _ => MemFetch.load 0, .init)
            trace s ∧
          sectorBytes 0 ⊆ s.2 0 ∧ s.1.core.extra.entries.isEmpty = true ∧
          ∀ i : Fin 2, (s.1.core.lines i).isModifiedLine = false :=
      Runs.exists_run_of_exec [.access 0 (MemFetch.load 0) 0 [],
        .access 1 (MemFetch.store 0 (sectorBytes 0)) 1 [], .cycle false, .fill (.caller 0) 2]
        (by decide)
    refine ⟨trace, s, hrun, howed, fun x _ hcovers => ?_⟩
    obtain ⟨i, hi, hmodified, -⟩ := System.dirty_of_covers (hforget hrun) hquiet hcovers
    have hline := hclean ⟨i, hi⟩
    rw [(CacheBlock.isModifiedLine_iff _).2 ⟨_, hmodified⟩] at hline
    cases hline
  · obtain ⟨trace, s, hrun, howed, hquiet, hbyte⟩ :
        ∃ trace s, System.OwedRun .l1 (fun sys o => sys.Promise o ∧ o.clears = false)
          (System.init (CacheConfig.small 'S' 'B' 'm' 'F' 2 true) fun _ => MemFetch.load 0, .init)
            trace s ∧
          1 ∈ s.2 0 ∧ s.1.core.extra.entries.isEmpty = true ∧
          ∀ i : Fin 2, 1 ∉ (s.1.core.lines i).dirtyByteMask :=
      Runs.exists_run_of_exec [.access 0 (MemFetch.store 0 {0}) 0 [],
        .access 1 (MemFetch.store 0 {1}) 1 [], .cycle false, .fill (.created 0) 2] (by decide)
    refine ⟨trace, s, hrun, howed, fun hcovers => ?_⟩
    obtain ⟨i, hi, -, hx⟩ := System.dirty_of_covers (hforget hrun) hquiet hcovers
    exact hbyte ⟨i, hi⟩ hx

end OpenCache
