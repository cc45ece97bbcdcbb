/-
`SECTOR_MISS` in `NORMAL` caches.

A line of a `NORMAL` cache is one sector, so the tags should never find the line of a block without
its sector.  They do when the line is `MODIFIED` and not readable: the state in which the
handler for `LAZY_FETCH_ON_READ` leaves a line after a write of a part of it, and which the
next read runs into.

* `OpenCache.CacheBlock.AllReadable` — no sector of a line waits for the rest of its bytes;
* `OpenCache.CacheBlock.isReadable_lazyWritten` — what a lazy write leaves readable;
* `OpenCache.System.LeavesUnreadable` — the writes that leave a line unreadable;
* `OpenCache.System.leavesUnreadable_of_step` — and that they do;
* `OpenCache.sector_miss_only_in_sector_caches` — **in the runs without such writes, no call fails
  on a `SECTOR_MISS` in a `NORMAL` cache**; the next step leaves an unreadable line exactly when it
  is such a write; and the assertion never fails in a texture cache;
* `OpenCache.read_fails_after_lazy_write` — a write of one byte, and a read of its line.
-/

import OpenCache.Residence
import OpenCache.Refusals
import OpenCache.TextureSectors

set_option relaxedAutoImplicit false
set_option autoImplicit false

namespace OpenCache

/-! ### Readable lines -/

namespace CacheBlock

variable {k : CacheType} {b : CacheBlock k}

/-- Every sector of the line is readable. -/
def AllReadable (b : CacheBlock k) : Prop := ∀ j, b.isReadable j = true

namespace AllReadable

theorem init (k : CacheType) : (init k).AllReadable := fun j => by
  rw [isReadable, sectorAt_init]
  rfl

theorem of_sectors {b' : CacheBlock k} (h : b.AllReadable)
    (hs : ∀ j, b'.sectorAt j = b.sectorAt j) :
    b'.AllReadable := fun j => by
  rw [isReadable, hs j]
  exact h j

theorem modifySector (h : b.AllReadable) (i : Fin 4) {f : SectorState → SectorState}
    (hf : ∀ s, s.readable = true → (f s).readable = true) : (b.modifySector i f).AllReadable := by
  intro j
  rw [isReadable, sectorAt_modifySector]
  split
  · exact hf _ (h j)
  · exact h j

theorem allocate (h : b.AllReadable) (tag blockAddr : NewAddrType) (time : Time) (i : Fin 4) :
    (b.allocate tag blockAddr time i).AllReadable := by
  rcases b with ⟨_, _, _, _, _, _, _, _, ⟨s⟩ | ⟨s⟩⟩
  · exact fun j => h j
  · intro j
    rw [isReadable, sectorAt, CacheBlock.allocate]
    dsimp only
    rw [BlockSectors.get_modify, BlockSectors.get_init]
    split <;> rfl

theorem reserveAgain (h : b.AllReadable) (i : Fin 4) (time : Time) :
    ({ b.modifySector i reserveSectorAgain with lastAccessTime := time } :
      CacheBlock k).AllReadable :=
  (h.modifySector i fun _ _ => rfl).of_sectors fun _ => rfl

theorem readableUpdated (h : b.AllReadable) (m : MemFetch) (i : Fin 4) :
    (b.readableUpdated m i).AllReadable := by
  unfold CacheBlock.readableUpdated
  split
  · exact h.modifySector i fun _ _ => rfl
  · exact h

theorem fullWritten (h : b.AllReadable) (m : MemFetch) (i : Fin 4) (status : CacheRequestStatus) :
    (b.fullWritten m i status).AllReadable := by
  have hmark : (b.marked m i).AllReadable := h.modifySector i fun _ hs => hs
  unfold CacheBlock.fullWritten
  split
  · exact hmark.modifySector i fun _ hs => hs
  · exact hmark

theorem fill (h : b.AllReadable) (i : Fin 4) (byteMask : MemAccessByteMask) :
    (b.fill i byteMask).AllReadable := by
  have hfill : (b.modifySector i (fillSector k)).AllReadable := by
    refine h.modifySector i fun s hs => ?_
    simp [fillSector, hs]
  unfold CacheBlock.fill
  dsimp only
  split
  · exact hfill
  · exact hfill

theorem invalidateLine {cfg : CacheConfig} {b : CacheBlock cfg.cacheType} (h : b.AllReadable) :
    (TagArray.invalidateLine b).AllReadable := by
  unfold TagArray.invalidateLine
  have hfold : ∀ (js : List (Fin 4)) (b : CacheBlock cfg.cacheType), b.AllReadable →
      (js.foldl (fun b i => b.setStatus .invalid i) b).AllReadable := by
    intro js
    induction js with
    | nil => exact fun _ h => h
    | cons j js ih => exact fun b h => ih _ (h.modifySector j fun _ hs => hs)
  exact hfold _ b h

theorem touchedLine {cfg : CacheConfig} {b : CacheBlock cfg.cacheType} (h : b.AllReadable)
    (addr : NewAddrType) (time : Time) (i : Fin 4) (status : CacheRequestStatus) :
    (TagArray.touchedLine cfg addr time i status b).AllReadable := by
  unfold TagArray.touchedLine
  split
  · exact h
  · exact h
  · split
    · exact h.allocate _ _ time i
    · exact h
  · split
    · exact h.reserveAgain i time
    · exact h
  · exact h

theorem fillTarget {cfg : CacheConfig} {b : CacheBlock cfg.cacheType} (h : b.AllReadable)
    (addr : NewAddrType) (time : Time) (i : Fin 4) (status : CacheRequestStatus) :
    (TagArray.fillTarget cfg addr time i status b).AllReadable := by
  unfold TagArray.fillTarget
  split
  · exact h.allocate _ _ time i
  · exact h.reserveAgain i time
  · exact h

theorem fetcher {cfg : CacheConfig} {cls : CacheClass} {mf reader : Token} {s s' : Core cfg}
    {written : CacheBlock cfg.cacheType → CacheBlock cfg.cacheType}
    (hfetcher : Fetcher cfg cls mf s reader s' written) {b : CacheBlock cfg.cacheType}
    (h : b.AllReadable) : (written b).AllReadable := by
  cases hfetcher with
  | read => exact h
  | naive => exact h
  | fetchOnWrite => exact h.modifySector _ fun _ hs => hs

theorem hitEffect {cfg : CacheConfig} {cls : CacheClass} {m : MemFetch} {time : Time} {i : Fin 4}
    {b line : CacheBlock cfg.cacheType} {forward : Bool}
    (heffect : HitEffect cfg cls m time i b line forward) (h : b.AllReadable) :
    line.AllReadable := by
  cases heffect with
  | read => exact h
  | write =>
      have htime : (b.setLastAccessTime time).AllReadable := h
      have hmark : ((b.setLastAccessTime time).marked m i).AllReadable :=
        htime.modifySector i fun _ hs => hs
      exact hmark.readableUpdated m i
  | evict => exact h.modifySector i fun _ hs => hs

end AllReadable

/-! ### Lazy writes -/

/-- A lazy write leaves its sector `MODIFIED`, and readable exactly when it has all the bytes, or
the dirty bytes of the line and its own cover a sector of its mask. -/
theorem isReadable_lazyWritten (b : CacheBlock k) (m : MemFetch) (i : Fin 4)
    (status : CacheRequestStatus) (atomSz : ℕ) :
    (b.lazyWritten m i status atomSz).isReadable i = true ↔ m.accessByteMask.card = atomSz ∨
      ∃ j ∈ m.accessSectorMask, sectorBytes j ⊆ b.dirtyByteMask ∪ m.accessByteMask := by
  have hset : ∀ (b' : CacheBlock k) (r : Bool), (b'.setMReadable r i).isReadable i = r := by
    intro b' r
    rw [isReadable, setMReadable, sectorAt_modifySector_self]
  have hkeep : ∀ b' : CacheBlock k, (b'.setReadableOnFill true i).isReadable i =
      b'.isReadable i := by
    intro b'
    rw [isReadable, setReadableOnFill, sectorAt_modifySector_self]
    rfl
  -- the last update sees the bytes of the line and of the request
  have hlast : ∀ b' : CacheBlock k, b'.dirtyByteMask = b.dirtyByteMask ∪ m.accessByteMask →
      (b'.isReadable i = true ↔ m.accessByteMask.card = atomSz) →
      ((b'.readableUpdated m i).isReadable i = true ↔ m.accessByteMask.card = atomSz ∨
        ∃ j ∈ m.accessSectorMask, sectorBytes j ⊆ b.dirtyByteMask ∪ m.accessByteMask) := by
    intro b' hmask hread
    unfold readableUpdated
    rw [hmask]
    split
    · next hcover => exact ⟨fun _ => Or.inr hcover, fun _ => hset b' true⟩
    · next hcover => rw [hread, or_iff_left hcover]
  unfold lazyWritten
  dsimp only
  refine hlast _ ?_ ?_
  · split <;> split <;> rfl
  · by_cases hfull : m.accessByteMask.card = atomSz
    · rw [if_pos hfull, hset]
      exact ⟨fun _ => hfull, fun _ => rfl⟩
    · have hnot : false = true ↔ m.accessByteMask.card = atomSz := by simp [hfull]
      rw [if_neg hfull]
      by_cases hs : status = .hitReserved
      · rw [if_pos hs, hkeep, hset]
        exact hnot
      · rw [if_neg hs, hset]
        exact hnot

/-- In a line block, one readable sector is all of them. -/
theorem allReadable_of_normal (hk : k = .normal) {i : Fin 4} (h : b.isReadable i = true) :
    b.AllReadable := fun j => by
  rw [isReadable, b.sectorAt_of_normal hk j i]
  exact h

end CacheBlock

variable {cfg : CacheConfig}

/-! ### The lines of a normal cache -/

/-- Every line of a `NORMAL` cache is readable. -/
def Core.Readable (s : Core cfg) : Prop := cfg.cacheType = .normal → ∀ i, (s.lines i).AllReadable

/-- No line of a `NORMAL` cache is `MODIFIED` and not readable. -/
def Core.ModifiedReadable (s : Core cfg) : Prop :=
  cfg.cacheType = .normal → ∀ i j, (s.lines i).getStatus j = .modified →
    (s.lines i).isReadable j = true

/-- The tags answer `SECTOR_MISS` in a `NORMAL` cache only for a line that is `MODIFIED` and not
readable. -/
theorem TagArray.sector_of_sectorMiss {ta : TagArray cfg} (h : cfg.cacheType = .normal →
      ∀ i j, (ta.lines i).getStatus j = .modified → (ta.lines i).isReadable j = true)
    {addr : NewAddrType} {idx : ℕ} {mask : MemAccessSectorMask} {isWrite : Bool} {p : ProbeResult}
    (hp : ta.probe addr idx mask isWrite = .ok p) (hs : p.status = .sectorMiss) :
    cfg.cacheType = .sector := by
  cases hk : cfg.cacheType with
  | sector => rfl
  | normal =>
      obtain ⟨setIndex, -, hprobed⟩ := TagArray.probed_of_probe hp
      obtain ⟨-, -, -, hmatch⟩ := hprobed.found (Or.inr (Or.inr hs))
      rw [hs, CacheBlock.matchStatus_eq_sectorMiss] at hmatch
      rcases hmatch with ⟨hmodified, -, hread⟩ | ⟨hinvalid, hlive⟩
      · rw [h hk _ _ hmodified] at hread
        cases hread
      · have hall : (ta.lines p.idx).isInvalidLine = true := by
          refine (CacheBlock.isInvalidLine_iff _).2 fun j => ?_
          rw [CacheBlock.getStatus, (ta.lines p.idx).sectorAt_of_normal hk j]
          exact hinvalid
        rw [hlive] at hall
        cases hall

theorem Core.Readable.modified {s : Core cfg} (h : s.Readable) : s.ModifiedReadable :=
  fun hk i j _ => h hk i j

namespace Core.Readable

variable {s s' : Core cfg}

theorem of_lines (h : s.Readable) (hlines : s'.lines = s.lines) : s'.Readable := by
  intro hk i
  rw [hlines]
  exact h hk i

theorem of_update (h : s.Readable) {idx : ℕ} {b : CacheBlock cfg.cacheType}
    (hlines : s'.lines = Function.update s.lines idx b)
    (hb : cfg.cacheType = .normal → (s.lines idx).AllReadable → b.AllReadable) : s'.Readable := by
  intro hk i
  rw [hlines]
  by_cases hi : i = idx
  · subst hi
    rw [Function.update_self]
    exact hb hk (h hk i)
  · rw [Function.update_of_ne hi]
    exact h hk i

theorem unpin (h : s.Readable) (mf : Token) : (s.unpin mf).Readable := by
  intro hk i
  refine (h hk i).of_sectors fun j => ?_
  rw [CacheBlock.sectorAt, (Resident.unpin_line s mf i).2]
  rfl

end Core.Readable

/-! ### The writes that leave a line unreadable -/

/-- A write of a part of the line that is not there, and whose bytes do not complete a sector of its
mask. -/
def Cache.leavesUnreadable (c : Cache cfg) (addr : NewAddrType) (m : MemFetch) : Bool :=
  decide (cfg.cacheType = .normal ∧ cfg.writeAllocPolicy = .lazyFetchOnRead ∧ m.isWrite = true) &&
    !c.missQueueFull 0 &&
    match c.tagArray.probe (cfg.blockAddr addr) noIndex m.accessSectorMask m.isWrite with
    | .ok p => decide (p.status ≠ .hit ∧ p.status ≠ .reservationFail ∧
        m.accessByteMask.card ≠ cfg.atomSz ∧ ¬∃ j ∈ m.accessSectorMask,
          sectorBytes j ⊆ (c.tagArray.lines p.idx).dirtyByteMask ∪ m.accessByteMask)
    | .error _ => false

theorem Cache.leavesUnreadable_iff {c : Cache cfg} {addr : NewAddrType} {m : MemFetch}
    {p : ProbeResult} (hp : c.Probes addr m p) : c.leavesUnreadable addr m = true ↔
      (cfg.cacheType = .normal ∧ cfg.writeAllocPolicy = .lazyFetchOnRead ∧ m.isWrite = true) ∧
        c.missQueueFull 0 = false ∧ p.status ≠ .hit ∧ p.status ≠ .reservationFail ∧
        m.accessByteMask.card ≠ cfg.atomSz ∧ ¬∃ j ∈ m.accessSectorMask,
          sectorBytes j ⊆ (c.tagArray.lines p.idx).dirtyByteMask ∪ m.accessByteMask := by
  have hprobe : c.tagArray.probe (cfg.blockAddr addr)
      noIndex m.accessSectorMask m.isWrite = .ok p :=
    hp
  simp only [leavesUnreadable, hprobe, Bool.and_eq_true, decide_eq_true_eq, Bool.not_eq_true',
    and_assoc]

/-- The calls that leave a line unreadable. -/
def System.LeavesUnreadable (sys : System cfg) : Op → Bool
  | .access _ m _ _ => sys.cache.leavesUnreadable m.addr m
  | _ => false

section Access

variable {c c' : Cache cfg} {cls : CacheClass} {addr : NewAddrType} {mf : Token} {time : Time}
  {events events' : List CacheEvent} {status : CacheRequestStatus} {s' : Core cfg} {p : ProbeResult}

/-- An access that is no such write leaves the lines readable. -/
theorem Core.Readable.access (h : c.core.Readable) (hcase : AccessCase c cls addr mf time status s')
    (hcond : c.leavesUnreadable addr (c.mfs mf) = false) : s'.Readable := by
  have htouched : ∀ p : ProbeResult, (c.tagArray.lines p.idx).AllReadable →
      (c.touched addr (c.mfs mf) time p).AllReadable :=
    fun p hb => hb.touchedLine _ _ _ _
  cases hcase with
  | refused => exact h
  | hit p hp _ _ line forward heffect =>
      have hline : ((c.core.setLine p.idx line).enqueueIf forward mf).Readable :=
        h.of_update (by simp [Core.setLine]) fun _ hb => .hitEffect heffect hb
      unfold Core.respond
      split
      · exact hline.of_update rfl fun _ hb => hb
      · exact hline
  | forward => exact h
  | write p hp hs hwrite types hcls hi line forward heffect hroom =>
      refine h.of_update (show _ = Function.update c.core.lines p.idx line by simp [Core.setLine])
        fun hk hb => ?_
      have htouch := htouched p hb
      cases heffect with
      | full => exact htouch.fullWritten _ _ _
      | onRead hpolicy =>
          refine CacheBlock.allReadable_of_normal hk
            ((CacheBlock.isReadable_lazyWritten _ _ _ _ _).2 ?_)
          rw [dirtyByteMask_touched hk]
          by_contra hpart
          rw [not_or] at hpart
          have hbad := (Cache.leavesUnreadable_iff hp).2 ⟨⟨hk, hpolicy, hwrite⟩, hroom,
            by rcases hs with hs | hs | hs <;> simp [hs], by
              rcases hs with hs | hs | hs <;> simp [hs],
            hpart⟩
          rw [hcond] at hbad
          cases hbad
  | fetch p hp _ _ reader s written hfetcher =>
      have hlines := fetched_line hfetcher (cfg.mshrAddr (c.mfs mf).addr) p.idx
        (c.touched addr (c.mfs mf) time p)
        (writebackOf cfg cls (c.mfs mf) p.status (c.tagArray.lines p.idx))
      rcases hlines with hlines | hlines
      · exact h.of_update hlines fun _ hb => .fetcher hfetcher (htouched p hb)
      · exact h.of_update hlines fun _ hb => .fetcher hfetcher (htouched p hb)

/-- The handler for lazy writes accepts a write when the miss queue has room. -/
theorem Cache.wrMissWaLazyFetchOnRead_status (types : DataCacheTypes)
    (hp : c.Probes addr (c.mfs mf) p) (hfail : p.status ≠ .reservationFail)
    (hroom : c.missQueueFull 0 = false) {idx : ℕ}
    (h : c.wrMissWaLazyFetchOnRead types addr idx mf time events = .ok (c', status, events')) :
    status = .miss := by
  unfold wrMissWaLazyFetchOnRead at h
  dsimp only at h
  rw [if_neg (by simp [hroom])] at h
  obtain ⟨⟨ta, r⟩, hta, h⟩ := bind_eq_ok.1 h
  have hacc : c.tagArray.access (cfg.blockAddr addr) time idx (c.mfs mf) = .ok (ta, r) := by
    rw [← hta]
    split <;> rfl
  have hne := access_ne_reservationFail hp hfail hacc
  obtain ⟨_, -, h⟩ := bind_eq_ok.1 h
  obtain ⟨_, -, h⟩ := bind_eq_ok.1 h
  obtain ⟨_, -, h⟩ := bind_eq_ok.1 h
  obtain ⟨_, -, h⟩ := bind_eq_ok.1 h
  rw [if_pos hne] at h
  cases h
  rfl

/-- Every access method accepts such a write. -/
theorem Cache.access_status_of_leavesUnreadable (hbad : c.leavesUnreadable addr (c.mfs mf) = true)
    (h : c.access cls addr mf time events = .ok (c', status, events')) : status = .miss := by
  cases cls with
  | readOnlyCache =>
      obtain ⟨_, -, h⟩ := bind_eq_ok.1 h
      obtain ⟨_, -, h⟩ := bind_eq_ok.1 h
      obtain ⟨_, hread, -⟩ := bind_eq_ok.1 h
      rw [assertThat_eq_ok] at hread
      simp [leavesUnreadable, hread] at hbad
  | dataCache types =>
      obtain ⟨_, -, h⟩ := bind_eq_ok.1 h
      obtain ⟨_, -, h⟩ := bind_eq_ok.1 h
      obtain ⟨⟨c₁, p⟩, h₁, h⟩ := bind_eq_ok.1 h
      obtain ⟨⟨c₂, status₂, events₂⟩, h₂, h⟩ := bind_eq_ok.1 h
      cases h
      obtain ⟨⟨-, hpolicy, hwrite⟩, hroom, hhit, hfail, -⟩ :=
        (leavesUnreadable_iff (probes_of_probeTags h₁)).1 hbad
      obtain ⟨rfl, hp⟩ := probeTags_eq_ok h₁
      unfold processTagProbe at h₂
      dsimp only at h₂
      rw [if_neg fun hn => hhit hn.1] at h₂
      obtain ⟨⟨c₃, status₃, events₃⟩, h₃, h₂⟩ := bind_eq_ok.1 h₂
      obtain ⟨c₄, -, h₂⟩ := bind_eq_ok.1 h₂
      cases h₂
      rw [callHandler, if_pos hwrite, if_neg hhit, if_pos (Or.inl hfail), wrMiss, hpolicy] at h₃
      exact wrMissWaLazyFetchOnRead_status types hp hfail hroom h₃

/-- And leaves an unreadable line. -/
theorem AccessCase.not_modifiedReadable (hcase : AccessCase c cls addr mf time .miss s')
    (hbad : c.leavesUnreadable addr (c.mfs mf) = true) : ¬s'.ModifiedReadable := by
  generalize hstatus : CacheRequestStatus.miss = status at hcase
  cases hcase with
  | refused => cases hstatus
  | hit => cases hstatus
  | forward p hp _ _ _ _ hpolicy =>
      obtain ⟨⟨-, hlazy, -⟩, -⟩ := (Cache.leavesUnreadable_iff hp).1 hbad
      rw [hlazy] at hpolicy
      cases hpolicy
  | write p hp hs hwrite types hcls hi line forward heffect hroom =>
      obtain ⟨⟨hk, hlazy, -⟩, -, -, -, hpart, hcover⟩ := (Cache.leavesUnreadable_iff hp).1 hbad
      cases heffect with
      | full hpolicy =>
          rw [hlazy] at hpolicy
          cases hpolicy
      | onRead =>
          intro hread
          have hline := hread hk p.idx (cfg.sectorIndex (c.mfs mf).accessSectorMask)
          simp only [Core.sendOwn_frame, Core.setLine_lines_self] at hline
          rw [CacheBlock.isReadable_lazyWritten, dirtyByteMask_touched hk,
            CacheBlock.getStatus_lazyWritten, CacheBlock.getStatus_marked,
            if_pos (Or.inl hk)] at hline
          rcases hline rfl with hfull | hsector
          · exact hpart hfull
          · exact hcover hsector
  | fetch p hp _ _ reader s written hfetcher =>
      obtain ⟨⟨-, hlazy, hwrite⟩, -⟩ := (Cache.leavesUnreadable_iff hp).1 hbad
      cases hfetcher with
      | read hread =>
          have hread' : (c.mfs mf).isWrite = false := hread
          rw [hwrite] at hread'
          cases hread'
      | naive _ _ _ hpolicy =>
          rw [hlazy] at hpolicy
          cases hpolicy
      | fetchOnWrite _ _ _ hpolicy =>
          rw [hlazy] at hpolicy
          cases hpolicy

end Access

/-! ### Steps -/

namespace System

variable {cls : CacheClass} {sys sys' : System cfg} {o : Op} {b : Obs}

/-- **A step that is no such write keeps the lines readable.** -/
theorem readable_step (h : sys.core.Readable) (hsuits : Suits cfg o)
    (hcond : sys.LeavesUnreadable o = false) (hperform : sys.perform cls o = .ok (sys', b)) :
    sys'.core.Readable := by
  cases step_cases hsuits hperform with
  | access n m time events status hcase hbelow =>
      have hbuild : (sys.build n m).core.Readable := h.of_lines rfl
      refine hbuild.access hcase ?_
      rw [build_mfs_caller]
      exact hcond
  | tick memportFull waiting done htick hcore hbelow => exact h.of_lines (by rw [hcore]; rfl)
  | push memportFull waiting done htick mf rest hqueue hcore hbelow =>
      exact h.of_lines (by rw [hcore]; rfl)
  | wait n m time original horiginal e pendingRead he hcore hbelow =>
      exact h.of_lines (by rw [hcore]; rfl)
  | complete o c mf time horigin e he hentry lines hfill hcore hbelow =>
      have hlines : c.tagArray.lines = sys.core.lines := by
        rcases horigin with ⟨-, rfl⟩ | ⟨n, m, -, -, rfl⟩ <;> rfl
      rw [hcore]
      cases hfill with
      | onMiss =>
          rw [hlines]
          exact h.of_update rfl fun _ hb => hb.fill _ _
      | onFill _ ta hta =>
          obtain ⟨p, -, ⟨-, hsame⟩ | ⟨-, -, hupdate⟩⟩ := TagArray.fillAddr_eq_ok hta
          · exact h.of_lines (hsame.trans hlines)
          · rw [hlines] at hupdate
            exact h.of_update hupdate fun _ hb => (hb.fillTarget _ _ _ _).fill _ _
  | ready mf rest hqueue hpinned hcore hbelow =>
      rw [hcore]
      have hpopped : ({ sys.core with readyQueue := rest } : Core cfg).Readable := h.of_lines rfl
      exact hpopped.unpin mf
  | deliver mf a rest addresses hready hanswered hentry hpinned hcore hbelow =>
      rw [hcore]
      refine Core.Readable.unpin (h.of_lines ?_) mf
      unfold Core.deliver
      split <;> rfl
  | flush hcore hbelow =>
      rw [hcore]
      intro hk i
      change (sys.cache.tagArray.flush.lines i).AllReadable
      unfold TagArray.flush
      split
      · dsimp only
        split
        · exact (h hk i).invalidateLine
        · exact h hk i
      · exact h hk i
  | invalidate hcore hbelow =>
      rw [hcore]
      intro hk i
      change (sys.cache.tagArray.invalidate.lines i).AllReadable
      unfold TagArray.invalidate
      dsimp only
      split
      · exact (h hk i).invalidateLine
      · exact h hk i
  | retire mf hcore hbelow =>
      rw [hcore]
      exact h

/-- A step that is such a write leaves an unreadable line. -/
theorem leavesUnreadable_of_step (hsuits : Suits cfg o) (hbad : sys.LeavesUnreadable o = true)
    (hperform : sys.perform cls o = .ok (sys', b)) : ¬sys'.core.ModifiedReadable := by
  cases step_cases hsuits hperform with
  | access n m time events status hcase hbelow =>
      have hbad' : (sys.build n m).leavesUnreadable m.addr ((sys.build n m).mfs (.caller n)) =
          true := by
        rw [build_mfs_caller]
        exact hbad
      obtain ⟨⟨c, status', events'⟩, h, hok⟩ := bind_eq_ok.1 hperform
      have hstatus : status = .miss := by
        cases hok
        exact Cache.access_status_of_leavesUnreadable hbad' h
      subst hstatus
      exact hcase.not_modifiedReadable hbad'
  | complete o c mf time horigin =>
      rcases horigin with ⟨rfl, -⟩ | ⟨n, m, rfl, -, -⟩ <;> cases hbad
  | _ => cases hbad

/-- While no line is unreadable, no call fails on a `SECTOR_MISS` in a `NORMAL` cache. -/
theorem perform_ne_sectorMissInNormal (h : sys.core.ModifiedReadable) (cls : CacheClass) (o : Op) :
    sys.perform cls o ≠ .error .sectorMissInNormal := by
  have hP : ∀ e : Abort, e.plain = true → e ≠ .sectorMissInNormal := by
    rintro e he rfl
    cases he
  have htable : ∀ e : Abort, e.concern = some .table → e ≠ .sectorMissInNormal := by
    rintro e he rfl
    cases he
  have hsector : ∀ c : Cache cfg, c.tagArray.lines = sys.core.lines →
      ∀ (addr : NewAddrType) (idx : ℕ) (mask : MemAccessSectorMask) (isWrite : Bool) p,
      c.tagArray.probe addr idx mask isWrite = .ok p →
        SectorMissAllowed (· ≠ .sectorMissInNormal) cfg p.status := by
    intro c hlines addr idx mask isWrite p hp hs
    refine Or.inl (TagArray.sector_of_sectorMiss ?_ hp hs)
    rw [hlines]
    exact h
  have hfill : ∀ (c : Cache cfg), c.tagArray.lines = sys.core.lines → ∀ mf time,
      Raises.Only (· ≠ .sectorMissInNormal) (c.fill mf time) := by
    intro c hlines mf time
    refine Cache.fill_only hP (fun _ => by simp) (fun _ => by simp) (fun _ _ _ => by simp) ?_ time
    exact fun t _ e _ => ⟨fun _ => by simp, MshrTable.markReady_only htable _ _,
      fun _ => ⟨TagArray.probe_only hP (by simp) _ _ _ _ _, hsector c hlines _ _ _ _⟩⟩
  have honly : Raises.Only (· ≠ .sectorMissInNormal) (sys.perform cls o) := by
    refine System.perform_only hP (fun n m time events _ => ?_)
      (fun mf time _ => hfill _ rfl mf time)
      (fun n m time _ => ⟨hfill (sys.build n m) rfl _ time, fun _ => by simp⟩) fun _ => ?_
    · exact Cache.access_only hP (fun a mf _ => MshrTable.add_only htable _ a mf)
        (TagArray.probe_only hP (by simp) _ _ _ _ _) (hsector (sys.build n m) rfl _ _ _ _) cls time
        events
    · exact Cache.nextAccess_only hP (fun _ _ => MshrTable.nextAccess_only htable _)
        fun _ _ _ _ => by simp
  exact fun he => honly _ he rfl

end System

/-! ### Texture caches -/

namespace TexSystem

variable {sys sys' : TexSystem cfg} {o : TexOp} {b : TexObs}

/-- Every step of a texture cache keeps the lines of its tags readable. -/
theorem readable_step (h : ∀ i, (sys.cache.tags.lines i).AllReadable)
    (hstep : sys.perform o = .ok (sys', b)) : ∀ i, (sys'.cache.tags.lines i).AllReadable := by
  have hupdate : ∀ {ta ta' : TagArray cfg} {idx : ℕ} {b : CacheBlock cfg.cacheType},
      (∀ i, (ta.lines i).AllReadable) → ta'.lines = Function.update ta.lines idx b →
      ((ta.lines idx).AllReadable → b.AllReadable) → ∀ i, (ta'.lines i).AllReadable := by
    intro ta ta' idx b hta hlines hb i
    rw [hlines]
    by_cases hi : i = idx
    · subst hi
      rw [Function.update_self]
      exact hb (hta i)
    · rw [Function.update_of_ne hi]
      exact hta i
  rcases tags_step hstep with htags | ⟨n, m, time, events, rfl⟩ | htags
  · rw [htags]
    exact h
  · obtain ⟨⟨c, status, events'⟩, haccess, hdone⟩ := bind_eq_ok.1 hstep
    cases hdone
    cases TexCache.accessed_of_access haccess with
    | refused => exact h
    | hit c' tags r _ htags _ _ _ _ hothers =>
        obtain ⟨p, -, -, -, -, -, hlines⟩ :=
          TagArray.access_eq_ok (TagArray.accessNoWriteback_eq_ok htags)
        rw [hothers.1]
        exact hupdate h hlines fun hb => hb.touchedLine _ _ _ _
    | miss c' tags r _ htags _ hfill =>
        obtain ⟨p, -, -, -, -, -, hlines⟩ :=
          TagArray.access_eq_ok (TagArray.accessNoWriteback_eq_ok htags)
        obtain ⟨-, hfilled⟩ := TagArray.fillIndex_eq_ok hfill
        have htouched := hupdate h hlines fun hb => hb.touchedLine _ _ _ _
        exact hupdate htouched hfilled fun hb => hb.fill _ _
  · intro i
    rw [htags]
    unfold TagArray.invalidate
    dsimp only
    split
    · exact (h i).invalidateLine
    · exact h i

/-- No call of a texture cache fails on a `SECTOR_MISS` in a `NORMAL` cache. -/
theorem perform_ne_sectorMissInNormal (hordered : sys.Ordered)
    (h : ∀ i, (sys.cache.tags.lines i).AllReadable) (hpromise : sys.Promise o) :
    sys.perform o ≠ .error .sectorMissInNormal := by
  have hP : ∀ e : Abort, e.plain = true → e ≠ .sectorMissInNormal := by
    rintro e he rfl
    cases he
  have honly : Raises.Only (· ≠ .sectorMissInNormal) (sys.perform o) := by
    refine hordered.perform_only_of hpromise (fun n m time events _ => ?_) fun _ _ _ =>
      ⟨fun _ => by simp, fun _ => by simp⟩
    refine TexCache.access_only (P := (· ≠ .sectorMissInNormal)) (fun _ => by simp) ?_ ?_ events
    · refine .bind (TagArray.access_only_of_probe hP (TagArray.probe_only hP (by simp) _ _ _ _ _)
        (fun p hp hs => Or.inl ?_) time) fun _ _ =>
          .bind (assertThat_only fun _ => by simp) fun _ _ => .ok _
      exact TagArray.sector_of_sectorMiss (fun _ i j _ => h i j) hp hs
    · exact fun tags r _ => ⟨fun _ => by simp, fun _ => by simp, TagArray.fillIndex_only hP _ _ _⟩
  exact fun he => honly _ he rfl

end TexSystem

/-! ### Runs -/

/-- The promise that no call leaves a line unreadable. -/
def System.ReadablePromise (sys : System cfg) (o : Op) : Prop :=
  sys.Promise o ∧ sys.LeavesUnreadable o = false

instance (sys : System cfg) (o : Op) : Decidable (sys.ReadablePromise o) := by
  unfold System.ReadablePromise
  infer_instance

/-- **`SECTOR_MISS` arises only in sector caches, exactly while no write leaves a line unreadable.**
In every run of a read-only or a data cache without such writes, a probe answers `SECTOR_MISS` only
in a `SECTOR` cache, no line of a `NORMAL` cache is `MODIFIED` and not readable, no call fails on
the assertions against a `SECTOR_MISS`, and the next step leaves no such line if and only if it is
no such write.  In a texture cache the assertions never fail. -/
theorem sector_miss_only_in_sector_caches :
    (∀ (cls : CacheClass) (mfs : Token → MemFetch) (trace : List Obs) (sys : System cfg),
      System.Run cls System.ReadablePromise (System.init cfg mfs) trace sys →
        (∀ addr idx mask isWrite p, sys.cache.tagArray.probe addr idx mask isWrite = .ok p →
          p.status = .sectorMiss → cfg.cacheType = .sector) ∧
        sys.core.ModifiedReadable ∧
        (∀ o, sys.perform cls o ≠ .error .sectorMissInNormal) ∧
        ∀ o sys' b, sys.Promise o → sys.perform cls o = .ok (sys', b) →
          (sys'.core.ModifiedReadable ↔ sys.LeavesUnreadable o = false)) ∧
    ∀ (mfs : Token → MemFetch) (trace : List TexObs) (sys : TexSystem cfg),
      TexSystem.Run TexSystem.Promise (TexSystem.init cfg mfs) trace sys →
        (∀ addr idx mask isWrite p, sys.cache.tags.probe addr idx mask isWrite = .ok p →
          p.status = .sectorMiss → cfg.cacheType = .sector) ∧
        ∀ o, sys.Promise o → sys.perform o ≠ .error .sectorMissInNormal := by
  constructor
  · intro cls mfs trace sys hrun
    have hread : sys.core.Readable := by
      refine Runs.Run.state_invariant (fun s => s.core.Readable)
        (fun _ i => CacheBlock.AllReadable.init _) ?_ hrun
      intro s o s' b hs hpromise hperform
      exact System.readable_step hs hpromise.1.suits hpromise.2 hperform
    refine ⟨fun addr idx mask isWrite p hp hs => ?_, hread.modified,
      System.perform_ne_sectorMissInNormal hread.modified cls, ?_⟩
    · exact TagArray.sector_of_sectorMiss hread.modified hp hs
    · intro o sys' b hpromise hperform
      cases hcond : sys.LeavesUnreadable o with
      | false =>
          have hnext := System.readable_step hread hpromise.suits hcond hperform
          exact ⟨fun _ => rfl, fun _ => hnext.modified⟩
      | true =>
          have hbad := System.leavesUnreadable_of_step hpromise.suits hcond hperform
          exact ⟨fun h => absurd h hbad, fun h => by cases h⟩
  · intro mfs trace sys hrun
    have hordered : sys.Ordered := by
      refine Runs.Run.state_invariant TexSystem.Ordered (TexCache.Ordered.init mfs) ?_ hrun
      intro s o s' b hs hpromise hstep
      exact hs.step hpromise hstep
    have hread : ∀ i, (sys.cache.tags.lines i).AllReadable := by
      refine Runs.Run.state_invariant (fun s => ∀ i, (s.cache.tags.lines i).AllReadable)
        (fun i => CacheBlock.AllReadable.init _) ?_ hrun
      intro s o s' b hs _ hstep
      exact TexSystem.readable_step hs hstep
    refine ⟨fun addr idx mask isWrite p hp hs => ?_, fun o hpromise => ?_⟩
    · exact TagArray.sector_of_sectorMiss (fun _ i j _ => hread i j) hp hs
    · exact TexSystem.perform_ne_sectorMissInNormal hordered hread hpromise

/-- A write of a whole sector leaves its line readable, and the next read of it does not fail; nor
does a read of a texture cache. -/
theorem sector_miss_only_in_sector_caches_after_sector :
    (∃ trace sys, System.Run (.dataCache .l1) System.ReadablePromise
        (System.init (CacheConfig.small 'N' 'B' 'm' 'L' 2 true) fun _ => MemFetch.load 0)
        trace sys ∧
      (sys.core.lines 1).getStatus 0 = .modified ∧ sys.core.ModifiedReadable ∧
      sys.perform (.dataCache .l1) (.access 1 (MemFetch.load 0) 1 []) ≠
        .error .sectorMissInNormal) ∧
    ∃ trace sys, TexSystem.Run TexSystem.Promise
        (TexSystem.init (CacheConfig.smallTexture 'N' 'm' 'F' 2) fun _ => MemFetch.load 0)
        trace sys ∧
      trace.length = 1 ∧
      sys.perform (.access 1 (MemFetch.load 0) 1 []) ≠ .error .sectorMissInNormal := by
  constructor
  · obtain ⟨trace, sys, hrun, hmodified⟩ :
        ∃ trace sys, System.Run (.dataCache .l1) System.ReadablePromise
            (System.init (CacheConfig.small 'N' 'B' 'm' 'L' 2 true) fun _ => MemFetch.load 0)
              trace sys ∧ (sys.core.lines 1).getStatus 0 = .modified :=
      Runs.exists_run_of_exec [.access 0 (MemFetch.store 0 (sectorBytes 0)) 0 []] (by decide)
    obtain ⟨-, hread, hperform, -⟩ := sector_miss_only_in_sector_caches.1 _ _ _ _ hrun
    exact ⟨trace, sys, hrun, hmodified, hread, hperform _⟩
  · obtain ⟨trace, sys, hrun, hlength, hpromise⟩ :
        ∃ trace sys, TexSystem.Run TexSystem.Promise
            (TexSystem.init (CacheConfig.smallTexture 'N' 'm' 'F' 2) fun _ => MemFetch.load 0)
              trace sys ∧
          trace.length = 1 ∧ sys.Promise (.access 1 (MemFetch.load 0) 1 []) :=
      Runs.exists_run_of_exec [.access 0 (MemFetch.load 0) 0 []] (by decide)
    exact ⟨trace, sys, hrun, hlength,
      (sector_miss_only_in_sector_caches.2 _ _ _ hrun).2 _ hpromise⟩

/-- A write of one byte leaves the line `MODIFIED` and not readable, and the next read of the line
fails. -/
theorem read_fails_after_lazy_write :
    (CacheConfig.small 'N' 'B' 'm' 'L' 2 true).Accepted ∧
      (CacheConfig.small 'N' 'B' 'm' 'L' 2 true).cacheType = .normal ∧
      ∃ trace sys, System.Run (.dataCache .l1) System.Promise
        (System.init (CacheConfig.small 'N' 'B' 'm' 'L' 2 true) fun _ => MemFetch.load 0)
        trace sys ∧
      sys.Promise (.access 1 (MemFetch.load 0) 1 []) ∧
      sys.perform (.dataCache .l1) (.access 1 (MemFetch.load 0) 1 []) =
        .error .sectorMissInNormal := by
  refine ⟨CacheConfig.small_accepted (by decide) true, by decide, ?_⟩
  obtain ⟨trace, sys, hrun, hpromise, hfail⟩ :
      ∃ trace sys, System.Run (.dataCache .l1) System.Promise
          (System.init (CacheConfig.small 'N' 'B' 'm' 'L' 2 true) fun _ => MemFetch.load 0)
            trace sys ∧
        sys.Promise (.access 1 (MemFetch.load 0) 1 []) ∧
        Runs.failure (sys.perform (.dataCache .l1) (.access 1 (MemFetch.load 0) 1 [])) =
          some .sectorMissInNormal :=
    Runs.exists_run_of_exec [.access 0 (MemFetch.store 0 {0}) 0 []] (by decide)
  exact ⟨trace, sys, hrun, hpromise, Runs.failure_eq_some.1 hfail⟩

end OpenCache
