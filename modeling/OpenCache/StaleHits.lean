/-
Hits on bytes that were fetched before they were written.

A cache that does not write misses into its lines sends them down, behind the fetches that it has
sent before.  The miss queue and the lower level keep the order, so that a fetch brings what the
writes before it in the queue have left.  A history variable numbers the requests in the order in
which they go down, and remembers the number of the last write to every byte and the number of the
fetch that every line was filled with.

* `OpenCache.FetchHistory`, `OpenCache.FetchHistory.note` — the history variable and its update;
* `OpenCache.System.KeepsOrder` — no write that is accepted meets a fetch of its bytes;
* `OpenCache.UpToDate` — the invariant: valid sectors, and fetches under way, are not older than the
  last write;
* `OpenCache.hits_see_later_fetches` — **a read that hits a valid sector sees no byte that was
  fetched before a write to it**, as long as writes do not meet fetches;
* `OpenCache.read_hits_stale_byte` — a run in which one does.
-/

import OpenCache.Residence

set_option relaxedAutoImplicit false
set_option autoImplicit false

namespace OpenCache

variable {cfg : CacheConfig}

/-! ### Bytes -/

/-- The bytes that a write changes: those of its byte mask, in the sectors of its sector mask. -/
def CacheConfig.writtenBytes (cfg : CacheConfig) (m : MemFetch) : MemAccessByteMask :=
  match cfg.cacheType with
  | .normal => m.accessByteMask
  | .sector => m.accessByteMask.filter fun k => ∃ i ∈ m.accessSectorMask, k ∈ sectorBytes i

/-- A sector mask that passes `get_sector_index` has one sector. -/
theorem CacheConfig.eq_of_mem_mask (hct : cfg.cacheType = .sector) {mask : MemAccessSectorMask}
    (hi : cfg.getSectorIndex mask = .ok (cfg.sectorIndex mask)) {j : Fin 4} (hj : j ∈ mask) :
    j = cfg.sectorIndex mask := by
  rw [getSectorIndex, hct] at hi
  dsimp only at hi
  split at hi
  · next hcard =>
      obtain ⟨a, rfl⟩ := Finset.card_eq_one.1 hcard
      rw [Finset.mem_singleton.1 hj]
      have hindex : ∀ a : Fin 4, (if 0 ∈ ({a} : Finset (Fin 4)) then (0 : Fin 4)
          else if 1 ∈ ({a} : Finset (Fin 4)) then 1
          else if 2 ∈ ({a} : Finset (Fin 4)) then 2 else 3) = a := by decide
      rw [hindex] at hi
      exact Except.ok.inj hi
  · cases hi

/-- A byte lies in the sectors that share a state, and in no other. -/
theorem CacheConfig.sameSector_of_mem {i j : Fin 4} {k : Fin 128} (hi : k ∈ cfg.bytesOf i)
    (hj : k ∈ cfg.bytesOf j) : cfg.SameSector i j := by
  unfold bytesOf at hi hj
  cases hct : cfg.cacheType with
  | normal => exact Or.inl hct
  | sector =>
      rw [hct] at hi hj
      exact Or.inr (eq_of_mem_sectorBytes hi hj)

theorem CacheConfig.SameSector.bytesOf_eq {i j : Fin 4} (h : cfg.SameSector i j) :
    cfg.bytesOf i = cfg.bytesOf j := by
  rcases h with hct | rfl
  · simp [bytesOf, hct]
  · rfl

/-- A write that finds its sector changes bytes of that sector. -/
theorem CacheConfig.mem_bytesOf_of_written {m : MemFetch} {k : Fin 128}
    (hi : cfg.getSectorIndex m.accessSectorMask = .ok (cfg.sectorIndex m.accessSectorMask))
    (hk : k ∈ cfg.writtenBytes m) : k ∈ cfg.bytesOf (cfg.sectorIndex m.accessSectorMask) := by
  unfold writtenBytes at hk
  unfold bytesOf
  cases hct : cfg.cacheType with
  | normal => exact Finset.mem_univ _
  | sector =>
      rw [hct] at hk
      obtain ⟨-, j, hj, hmem⟩ := Finset.mem_filter.1 hk
      dsimp only
      rwa [← cfg.eq_of_mem_mask hct hi hj]

/-! ### The history variable -/

/-- Requests are numbered in the order in which they go down: how many have gone, the number
that the last accepted write to each byte of each block has, or would have had if it had been
sent, the numbers of the fetches, and for each byte of each line the number of the fetch that
has brought it. -/
structure FetchHistory where
  pushed : ℕ
  lastWrite : NewAddrType → Fin 128 → ℕ
  issued : Token → ℕ
  seen : ℕ → Fin 128 → ℕ

namespace FetchHistory

/-- Nothing has gone down yet. -/
def init : FetchHistory := ⟨0, fun _ _ => 0, fun _ => 0, fun _ _ => 0⟩

/-- The number of the next request that is put into the miss queue. -/
def next (h : FetchHistory) (s : Core cfg) : ℕ := h.pushed + s.missQueue.length + 1

/-- The last writes after an accepted access. -/
def written (h : FetchHistory) (s : Core cfg) (m : MemFetch) (a : NewAddrType) (k : Fin 128) : ℕ :=
  if m.isWrite = true ∧ a = cfg.blockAddr m.addr ∧ k ∈ cfg.writtenBytes m then h.next s
  else h.lastWrite a k

/-- The fetches after an accepted access. -/
def launched (h : FetchHistory) (s s' : Core cfg) (t : Token) : ℕ :=
  if t ∈ s'.extra ∧ t ∉ s.extra then h.pushed + s'.missQueue.idxOf t + 1 else h.issued t

/-- The bytes of the lines after a fetch has filled its sector. -/
def filled (h : FetchHistory) (s : Core cfg) (t : Token) (e : ExtraMfFields) (idx : ℕ)
    (k : Fin 128) : ℕ :=
  if idx = e.cacheIndex ∧ k ∈ cfg.bytesOf (cfg.sectorIndex (s.mfs t).accessSectorMask)
  then h.issued t else h.seen idx k

/-- The history after a call. -/
def note (h : FetchHistory) (sys : System cfg) (_ : Op) (sys' : System cfg) : Obs → FetchHistory
  | .access _ m status _ =>
      if status = .reservationFail then h
      else { h with
        lastWrite := h.written sys.core m
        issued := h.launched sys.core sys'.core }
  | .cycle (some _) => { h with pushed := h.pushed + 1 }
  | .fill mf =>
      match sys.core.extra.lookup mf, sys'.core.extra.lookup mf with
      | some e, none => { h with seen := h.filled sys.core mf e }
      | _, _ => h
  | _ => h

end FetchHistory

namespace System

/-- A write meets a fetch that is under way: it changes bytes that the fetch will fill, or it hits
the sector of the fetch and evicts it. -/
def MeetsFetch (sys : System cfg) (m : MemFetch) : Prop :=
  ∃ x ∈ sys.core.extra.entries, cfg.blockAddr x.2.blockAddr = cfg.blockAddr m.addr ∧
    (¬Disjoint (cfg.bytesOf (cfg.sectorIndex (sys.core.mfs x.1).accessSectorMask))
        (cfg.writtenBytes m) ∨
      (sys.answer m).map ProbeResult.status = some .hit ∧ evictsOnWriteHit cfg m ∧
        cfg.SameSector (cfg.sectorIndex (sys.core.mfs x.1).accessSectorMask)
          (cfg.sectorIndex m.accessSectorMask))

instance (sys : System cfg) (m : MemFetch) : Decidable (sys.MeetsFetch m) := by
  unfold MeetsFetch
  infer_instance

/-- No write that is accepted meets a fetch. -/
def KeepsOrder (cls : CacheClass) (sys : System cfg) : Op → Prop
  | .access n m time events => sys.accepts cls (.access n m time events) = true →
      m.isWrite = true → ¬sys.MeetsFetch m
  | _ => True

instance (cls : CacheClass) (sys : System cfg) (o : Op) : Decidable (sys.KeepsOrder cls o) := by
  induction o using Op.casesOn <;> unfold KeepsOrder <;> infer_instance

end System

/-- The runs of a cache with the history of its fetches. -/
abbrev System.FetchRun (cls : CacheClass) (promise : System cfg → Op → Prop) :
    System cfg × FetchHistory → List Obs → System cfg × FetchHistory → Prop :=
  Runs.Run (Runs.withHistory (System.perform cls) FetchHistory.note) fun s => promise s.1

/-! ### The invariant -/

/-- What is fetched is not older than the last accepted write: of the sectors that are valid, and of
those that a fetch under way will fill. -/
structure UpToDate (s : Core cfg) (h : FetchHistory) : Prop where
  queue : ∀ a k, h.lastWrite a k ≤ h.next s
  issued : ∀ t e, s.extra.lookup t = some e → h.issued t < h.next s
  fetches : ∀ t e, s.extra.lookup t = some e →
    ∀ k ∈ cfg.bytesOf (cfg.sectorIndex (s.mfs t).accessSectorMask),
      h.lastWrite (cfg.blockAddr e.blockAddr) k ≤ h.issued t
  lines : ∀ i j, (s.lines i).getStatus j = .valid →
    ∀ k ∈ cfg.bytesOf j, h.lastWrite (s.lines i).tag k ≤ h.seen i k

namespace UpToDate

variable {s s' : Core cfg} {h : FetchHistory}

/-- Nothing changes but pins, access times and the number of missing responses. -/
theorem of_same (hup : UpToDate s h) {h' : FetchHistory} (hnext : h'.next s' = h.next s)
    (hwrites : h'.lastWrite = h.lastWrite) (hissued : h'.issued = h.issued)
    (hseen : h'.seen = h.seen)
    (hextra : ∀ t e, s'.extra.lookup t = some e → ∃ e₀, s.extra.lookup t = some e₀ ∧
      e.blockAddr = e₀.blockAddr ∧ SameMasks s s' t)
    (hlines : ∀ i, (s'.lines i).tag = (s.lines i).tag ∧
      ∀ j, (s'.lines i).getStatus j = (s.lines i).getStatus j) : UpToDate s' h' where
  queue a k := by
    rw [hwrites, hnext]
    exact hup.queue a k
  issued t e he := by
    obtain ⟨e₀, he₀, -⟩ := hextra t e he
    rw [hissued, hnext]
    exact hup.issued t e₀ he₀
  fetches t e he k hk := by
    obtain ⟨e₀, he₀, hblock, hmasks⟩ := hextra t e he
    rw [hmasks.sectors] at hk
    rw [hwrites, hissued, hblock]
    exact hup.fetches t e₀ he₀ k hk
  lines i j hvalid k hk := by
    obtain ⟨htag, hstatus⟩ := hlines i
    rw [hstatus] at hvalid
    rw [hwrites, hseen, htag]
    exact hup.lines i j hvalid k hk

/-! ### Accesses -/

section Access

variable {c : Cache cfg} {cls : CacheClass} {mf : Token} {time : Time} {status : CacheRequestStatus}

/-- The last writes are not numbered beyond the next request. -/
theorem written_le (hup : UpToDate s h) (m : MemFetch) (a : NewAddrType) (k : Fin 128) :
    h.written s m a k ≤ h.next s := by
  unfold FetchHistory.written
  split
  · exact le_rfl
  · exact hup.queue a k

/-- A byte whose last write an access does not change. -/
theorem written_of_not {m : MemFetch} {a : NewAddrType} {k : Fin 128}
    (hnot : ¬(m.isWrite = true ∧ a = cfg.blockAddr m.addr ∧ k ∈ cfg.writtenBytes m)) :
    h.written s m a k = h.lastWrite a k :=
  if_neg hnot

/-- A sector that is valid after an access was valid before, in the same block, and the access is
not a write to it. -/
theorem valid_before (hon : cfg.allocPolicy = .onMiss) (hresident : Resident c.core)
    (hcase : AccessCase c cls (c.mfs mf).addr mf time status s')
    (haccept : status ≠ .reservationFail) {i : ℕ} {j : Fin 4}
    (hvalid : (s'.lines i).getStatus j = .valid) :
    (c.tagArray.lines i).getStatus j = .valid ∧ (s'.lines i).tag = (c.tagArray.lines i).tag ∧
      ∀ k ∈ cfg.bytesOf j, ¬((c.mfs mf).isWrite = true ∧
        (s'.lines i).tag = cfg.blockAddr (c.mfs mf).addr ∧ k ∈ cfg.writtenBytes (c.mfs mf)) := by
  -- a write finds the line, and its sector there
  have hfound : ∀ p, c.Probes (c.mfs mf).addr (c.mfs mf) p →
      (c.tagArray.lines i).getStatus j = .valid →
      (c.tagArray.lines i).tag = cfg.blockAddr (c.mfs mf).addr →
      ∀ k ∈ cfg.bytesOf j, k ∈ cfg.writtenBytes (c.mfs mf) →
        p.idx = i ∧ p.status = .hit ∧
          cfg.SameSector (cfg.sectorIndex (c.mfs mf).accessSectorMask) j := by
    intro p hp hbefore htag k hk hwritten
    have hlive : (c.tagArray.lines i).isInvalidLine = false :=
      CacheBlock.isInvalidLine_of_getStatus _ (by rw [hbefore]; simp)
    obtain ⟨hidx, hs⟩ := hresident.housed.finds hp hlive htag
    obtain ⟨hindex, hmatch⟩ := hp.sectorIndex hs
    have hsame := CacheConfig.sameSector_of_mem (cfg.mem_bytesOf_of_written hindex hwritten) hk
    refine ⟨hidx, ?_, hsame⟩
    have hown : (c.tagArray.lines p.idx).getStatus
        (cfg.sectorIndex (c.mfs mf).accessSectorMask) = .valid := by
      rw [hidx]
      rcases hsame with hn | heq
      · rw [← hbefore]
        exact congrArg SectorState.status (CacheBlock.sectorAt_of_normal _ hn _ _)
      · rwa [heq]
    have hhit : (c.tagArray.lines p.idx).matchStatus (cfg.sectorIndex (c.mfs mf).accessSectorMask)
        (c.mfs mf).isWrite = some .hit := CacheBlock.matchStatus_eq_hit.2 (Or.inl hown)
    rw [hmatch] at hhit
    exact Option.some_inj.1 hhit
  rcases hcase.line_after with ⟨hlines, hrest⟩ | ⟨p, line, hp, hline, hlines⟩
  · rw [hlines] at hvalid ⊢
    refine ⟨hvalid, rfl, ?_⟩
    rintro k hk ⟨-, htag, hwritten⟩
    obtain ⟨-, p, hp, hs⟩ := hrest.resolve_left haccept
    exact hs (hfound p hp hvalid htag k hk hwritten).2.1
  obtain ⟨b, ⟨htag, -⟩, hstatus, hlines⟩ := hline.exists_line hon hresident.tagged hp hlines
  by_cases hi : i = p.idx
  · subst hi
    rw [hlines, Function.update_self] at hvalid ⊢
    rw [hstatus] at hvalid
    by_cases hj : cfg.SameSector (cfg.sectorIndex (c.mfs mf).accessSectorMask) j
    · -- the own sector stays valid only in a read
      have hown := hline.getStatus_own hon hp hj
      rw [hvalid] at hown
      generalize hbefore : (c.tagArray.lines p.idx).getStatus j = before at hown
      cases hown with
      | read hs hread =>
          refine ⟨rfl, htag.trans (hp.holds (Or.inl hs)).1.symm, ?_⟩
          rintro k - ⟨hwrite, -⟩
          rw [hread] at hwrite
          cases hwrite
    · rw [hline.getStatus_other hon hj] at hvalid
      split at hvalid
      · cases hvalid
      · next hmiss =>
          have htags := htag.trans (hp.holds (hline.found hmiss)).1.symm
          refine ⟨hvalid, htags, ?_⟩
          rintro k hk ⟨-, hblock, hwritten⟩
          exact hj (hfound p hp hvalid (htags.symm.trans hblock) k hk hwritten).2.2
  · rw [hlines, Function.update_of_ne hi] at hvalid ⊢
    refine ⟨hvalid, rfl, ?_⟩
    rintro k hk ⟨-, hblock, hwritten⟩
    exact hi (hfound p hp hvalid hblock k hk hwritten).1.symm

/-- What an access has numbered: the fetches that were under way keep their numbers, and a fetch
that the access has sent has the number of its place in the queue. -/
theorem launched_cases (hcaller : ∀ n, mf ≠ .created n)
    (hcreated : ∀ n, .created n ∈ c.core.extra ∨ .created n ∈ c.core.missQueue → n < c.created)
    (hnew : mf ∉ c.core.extra ∧ mf ∉ c.core.missQueue)
    (hcase : AccessCase c cls (c.mfs mf).addr mf time status s') {t : Token} {e : ExtraMfFields}
    (he : s'.extra.lookup t = some e) :
    c.core.extra.lookup t = some e ∧ SameMasks c.core s' t ∧
        h.launched c.core s' t = h.issued t ∨
      h.next c.core ≤ h.launched c.core s' t ∧ h.launched c.core s' t < h.next s' := by
  rcases hcase.fetch_origin hcaller he with he' | ⟨q, hl⟩
  · have hmem : t ∈ c.core.extra := AList.lookup_isSome.1 (by rw [he']; rfl)
    exact Or.inl ⟨he', hcase.sameMasks fun n hn => hcreated n (Or.inl (hn ▸ hmem)),
      if_neg fun hlaunched => hlaunched.2 hmem⟩
  · right
    have hfresh : t ∉ c.core.extra ∧ t ∉ c.core.missQueue := by
      rcases hl.reader with rfl | rfl
      · exact hnew
      · exact ⟨fun hmem => lt_irrefl _ (hcreated _ (Or.inl hmem)),
          fun hmem => lt_irrefl _ (hcreated _ (Or.inr hmem))⟩
    have hmem : t ∈ s'.extra := AList.lookup_isSome.1 (by rw [he]; rfl)
    have hplace : h.launched c.core s' t = h.pushed + s'.missQueue.idxOf t + 1 :=
      if_pos ⟨hmem, hfresh.1⟩
    have hlt : s'.missQueue.idxOf t < s'.missQueue.length := List.idxOf_lt_length_iff.2 hl.queued
    obtain ⟨queued, hqueue, -⟩ := hcase.appends
    have hle : c.core.missQueue.length ≤ s'.missQueue.idxOf t := by
      rw [hqueue, List.idxOf_append_of_notMem hfresh.2]
      exact Nat.le_add_right _ _
    rw [hplace]
    unfold FetchHistory.next
    omega

/-- The fetches that no written byte belongs to are up to date after an access. -/
theorem fetches_of_access (hup : UpToDate c.core h) (hcaller : ∀ n, mf ≠ .created n)
    (hcreated : ∀ n, .created n ∈ c.core.extra ∨ .created n ∈ c.core.missQueue → n < c.created)
    (hnew : mf ∉ c.core.extra ∧ mf ∉ c.core.missQueue)
    (hapart : (c.mfs mf).isWrite = true → ∀ t e, c.core.extra.lookup t = some e →
      cfg.blockAddr e.blockAddr = cfg.blockAddr (c.mfs mf).addr →
        Disjoint (cfg.bytesOf (cfg.sectorIndex (c.mfs t).accessSectorMask))
          (cfg.writtenBytes (c.mfs mf)))
    (hcase : AccessCase c cls (c.mfs mf).addr mf time status s') {t : Token} {e : ExtraMfFields}
    (he : s'.extra.lookup t = some e) {k : Fin 128}
    (hk : k ∈ cfg.bytesOf (cfg.sectorIndex (s'.mfs t).accessSectorMask)) :
    h.written c.core (c.mfs mf) (cfg.blockAddr e.blockAddr) k ≤ h.launched c.core s' t := by
  rcases launched_cases hcaller hcreated hnew hcase he with ⟨he', hmasks, hissued⟩ | ⟨hle, -⟩
  · rw [hmasks.sectors] at hk
    have hnot : ¬((c.mfs mf).isWrite = true ∧
        cfg.blockAddr e.blockAddr = cfg.blockAddr (c.mfs mf).addr ∧
        k ∈ cfg.writtenBytes (c.mfs mf)) := by
      rintro ⟨hwrite, hblock, hwritten⟩
      exact Finset.disjoint_left.1 (hapart hwrite t e he' hblock) hk hwritten
    rw [hissued, written_of_not hnot]
    exact hup.fetches t e he' k hk
  · exact (hup.written_le (c.mfs mf) _ k).trans hle

/-- An accepted write leaves the fetches up to date exactly when it changes no byte that one of them
will fill. -/
theorem fetches_of_write_iff (hup : UpToDate c.core h) (hcaller : ∀ n, mf ≠ .created n)
    (hcreated : ∀ n, .created n ∈ c.core.extra ∨ .created n ∈ c.core.missQueue → n < c.created)
    (hnew : mf ∉ c.core.extra ∧ mf ∉ c.core.missQueue) (hwrite : (c.mfs mf).isWrite = true)
    (hcase : AccessCase c cls (c.mfs mf).addr mf time status s') :
    (∀ t e, s'.extra.lookup t = some e →
        ∀ k ∈ cfg.bytesOf (cfg.sectorIndex (s'.mfs t).accessSectorMask),
          h.written c.core (c.mfs mf) (cfg.blockAddr e.blockAddr) k ≤ h.launched c.core s' t) ↔
      ∀ t e, c.core.extra.lookup t = some e →
        cfg.blockAddr e.blockAddr = cfg.blockAddr (c.mfs mf).addr →
          Disjoint (cfg.bytesOf (cfg.sectorIndex (c.mfs t).accessSectorMask))
            (cfg.writtenBytes (c.mfs mf)) := by
  constructor
  · intro hfetches t e he hblock
    have hmem : t ∈ c.core.extra := AList.lookup_isSome.1 (by rw [he]; rfl)
    have hstays : s'.extra.lookup t = some e :=
      hcase.fetch_stays hnew.1 (fun hk => lt_irrefl _ (hcreated _ (Or.inl hk))) he
    have hmasks : SameMasks c.core s' t :=
      hcase.sameMasks fun n hn => hcreated n (Or.inl (hn ▸ hmem))
    have hissued : h.launched c.core s' t = h.issued t := if_neg fun hlaunched => hlaunched.2 hmem
    refine Finset.disjoint_left.2 fun k hk hwritten => ?_
    -- the write has a later number than the fetch
    have hle := hfetches t e hstays k (by rwa [hmasks.sectors])
    have hlast : h.written c.core (c.mfs mf) (cfg.blockAddr e.blockAddr) k = h.next c.core :=
      if_pos ⟨hwrite, hblock, hwritten⟩
    have hlt := hup.issued t e he
    omega
  · intro hapart t e he k hk
    exact hup.fetches_of_access hcaller hcreated hnew (fun _ => hapart) hcase he hk

/-- **An access that keeps the order keeps what is fetched up to date.** -/
theorem access (hup : UpToDate c.core h) (hon : cfg.allocPolicy = .onMiss)
    (hresident : Resident c.core) (hcaller : ∀ n, mf ≠ .created n)
    (hcreated : ∀ n, .created n ∈ c.core.extra ∨ .created n ∈ c.core.missQueue → n < c.created)
    (hnew : mf ∉ c.core.extra ∧ mf ∉ c.core.missQueue)
    (hapart : (c.mfs mf).isWrite = true → ∀ t e, c.core.extra.lookup t = some e →
      cfg.blockAddr e.blockAddr = cfg.blockAddr (c.mfs mf).addr →
        Disjoint (cfg.bytesOf (cfg.sectorIndex (c.mfs t).accessSectorMask))
          (cfg.writtenBytes (c.mfs mf)))
    (haccept : status ≠ .reservationFail)
    (hcase : AccessCase c cls (c.mfs mf).addr mf time status s') :
    UpToDate s' { h with
      lastWrite := h.written c.core (c.mfs mf)
      issued := h.launched c.core s' } := by
  obtain ⟨queued, hqueue, -⟩ := hcase.appends
  have hnext : h.next c.core ≤ h.next s' := by
    simp only [FetchHistory.next, hqueue, List.length_append]
    omega
  refine ⟨fun a k => ?_, fun t e he => ?_, fun t e he k hk => ?_, fun i j hvalid k hk => ?_⟩
  · exact (hup.written_le (c.mfs mf) a k).trans hnext
  · change h.launched c.core s' t < h.next s'
    rcases launched_cases hcaller hcreated hnew hcase he with ⟨he', -, hissued⟩ | ⟨-, hlt⟩
    · rw [hissued]
      exact (hup.issued t e he').trans_le hnext
    · exact hlt
  · exact hup.fetches_of_access hcaller hcreated hnew hapart hcase he hk
  · obtain ⟨hbefore, htag, hnot⟩ := valid_before hon hresident hcase haccept hvalid
    change h.written c.core (c.mfs mf) _ k ≤ h.seen i k
    rw [written_of_not (hnot k hk), htag]
    exact hup.lines i j hbefore k hk

end Access

/-! ### Responses -/

/-- The response to a fetch leaves its sector as old as the fetch. -/
theorem complete (hup : UpToDate s h) (hresident : Resident s) {mf : Token} {e : ExtraMfFields}
    (he : s.extra.lookup mf = some e) (hdone : Completed s s' mf e) :
    UpToDate s' { h with seen := h.filled s mf e } := by
  have hnext : ∀ seen, ({ h with seen } : FetchHistory).next s' = h.next s := fun seen => by
    simp only [FetchHistory.next, hdone.queue]
  refine ⟨fun a k => ?_, fun t e' he' => ?_, fun t e' he' k hk => ?_, fun i j hvalid k hk => ?_⟩
  · rw [hnext]
    exact hup.queue a k
  · rw [hnext]
    exact hup.issued t e' (hdone.lookup he').2.1
  · obtain ⟨-, hbefore, hmasks⟩ := hdone.lookup he'
    rw [hmasks.sectors] at hk
    exact hup.fetches t e' hbefore k hk
  · by_cases hi : i = e.cacheIndex
    · subst hi
      rw [hdone.lines, Function.update_self] at hvalid ⊢
      rw [(SameTenant.fill _ _ _).tag]
      change h.lastWrite _ k ≤ h.filled s mf e e.cacheIndex k
      unfold FetchHistory.filled
      by_cases hj : cfg.SameSector (cfg.sectorIndex (s.mfs mf).accessSectorMask) j
      · rw [← hj.bytesOf_eq] at hk
        rw [if_pos ⟨rfl, hk⟩, (hresident.anchored.tenant mf e he).1]
        exact hup.fetches mf e he k hk
      · rw [CacheBlock.getStatus_fill,
          if_neg (show ¬(cfg.cacheType = .normal ∨ _) from hj)] at hvalid
        rw [if_neg fun hbytes => hj (CacheConfig.sameSector_of_mem hbytes.2 hk)]
        exact hup.lines _ j hvalid k hk
    · rw [hdone.lines, Function.update_of_ne hi] at hvalid ⊢
      change h.lastWrite _ k ≤ h.filled s mf e i k
      unfold FetchHistory.filled
      rw [if_neg fun hbytes => hi hbytes.1]
      exact hup.lines i j hvalid k hk

/-! ### One step -/

section Step

variable {sys sys' : System cfg} {cls : CacheClass} {o : Op} {b : Obs}

/-- The state in which the object of a request was built. -/
theorem build (hup : UpToDate sys.core h) (htracked : Tracked sys.core sys.sent) {n : ℕ}
    (hnew : .caller n ∉ sys.held) (m : MemFetch) : UpToDate (sys.build n m).core h := by
  refine hup.of_same rfl rfl rfl rfl (fun t e he => ⟨e, he, rfl, .of_eq ?_⟩)
    fun i => ⟨rfl, fun _ => rfl⟩
  have hlookup : sys.core.extra.lookup t = some e := he
  exact System.build_mfs htracked hnew m (AList.lookup_isSome.1 (by rw [hlookup]; rfl))

/-- A request that is submitted is not on its way, and neither are those that the cache has not
created yet. -/
theorem fresh (htracked : Tracked sys.core sys.sent) {n : ℕ} (hnew : .caller n ∉ sys.held)
    (m : MemFetch) :
    (∀ k, .created k ∈ (sys.build n m).core.extra ∨ .created k ∈ (sys.build n m).core.missQueue →
        k < (sys.build n m).created) ∧
      .caller n ∉ (sys.build n m).core.extra ∧ .caller n ∉ (sys.build n m).core.missQueue := by
  refine ⟨?_, fun hmem => hnew (List.mem_append_right _ (htracked.mem_sent_of_mem hmem)),
    fun hmem => hnew (List.mem_append_right _ (List.mem_append_left _ hmem))⟩
  rintro k (hk | hk)
  · exact htracked.created k (htracked.mem_sent_of_mem hk)
  · exact htracked.created k (List.mem_append_left _ hk)

/-- What a write that meets no fetch spares of a fetch of its block. -/
theorem spared (htracked : Tracked sys.core sys.sent) {n : ℕ} {m : MemFetch}
    (hnew : .caller n ∉ sys.held) (hmeets : ¬sys.MeetsFetch m) {t : Token} {e : ExtraMfFields}
    (he : sys.core.extra.lookup t = some e)
    (hblock : cfg.blockAddr e.blockAddr = cfg.blockAddr m.addr) :
    Disjoint (cfg.bytesOf (cfg.sectorIndex ((sys.build n m).mfs t).accessSectorMask))
        (cfg.writtenBytes m) ∧
      ((sys.answer m).map ProbeResult.status = some .hit → evictsOnWriteHit cfg m →
        ¬cfg.SameSector (cfg.sectorIndex ((sys.build n m).mfs t).accessSectorMask)
          (cfg.sectorIndex m.accessSectorMask)) := by
  rw [System.build_mfs htracked hnew m (AList.lookup_isSome.1 (by rw [he]; rfl))]
  have hmem : (⟨t, e⟩ : Sigma fun _ : Token => ExtraMfFields) ∈ sys.core.extra.entries :=
    AList.mem_lookup_iff.1 he
  constructor
  · by_contra hmeet
    exact hmeets ⟨_, hmem, hblock, Or.inl hmeet⟩
  · intro hhit hevicts hsame
    exact hmeets ⟨_, hmem, hblock, Or.inr ⟨hhit, hevicts, hsame⟩⟩

/-- **One step that keeps the order keeps what is fetched up to date.** -/
theorem step (hup : UpToDate sys.core h) (hon : cfg.allocPolicy = .onMiss)
    (hresident : Resident sys.core) (htracked : Tracked sys.core sys.sent)
    (hpromise : sys.Promise o) (hclears : o.clears = false)
    (hkeeps : sys.KeepsOrder cls o) (hperform : sys.perform cls o = .ok (sys', b)) :
    UpToDate sys'.core (h.note sys o sys' b) := by
  have hkept : ∀ {s' : Core cfg}, s'.extra = sys.core.extra → s'.mfs = sys.core.mfs →
      ∀ t e, s'.extra.lookup t = some e → ∃ e₀, sys.core.extra.lookup t = some e₀ ∧
        e.blockAddr = e₀.blockAddr ∧ SameMasks sys.core s' t := by
    intro s' hextra hmfs t e he
    rw [hextra] at he
    exact ⟨e, he, rfl, .of_eq (by rw [hmfs])⟩
  have hunpin : ∀ {s₁ : Core cfg} (mf : Token), s₁.lines = sys.core.lines →
      s₁.missQueue = sys.core.missQueue → s₁.extra = sys.core.extra → s₁.mfs = sys.core.mfs →
      UpToDate (s₁.unpin mf) h := by
    intro s₁ mf hlines hqueue hextra hmfs
    refine hup.of_same (by simp [FetchHistory.next, hqueue]) rfl rfl rfl
      (hkept (by simp [hextra]) (by simp [hmfs])) fun i => ?_
    obtain ⟨hblock, hsectors⟩ := Resident.unpin_line s₁ mf i
    rw [hlines] at hblock hsectors
    exact ⟨(hblock _ (hresident.tagged i)).1, fun j => by
      rw [CacheBlock.getStatus, CacheBlock.sectorAt, hsectors]
      rfl⟩
  cases System.step_cases hpromise.suits hperform with
  | access n m time events status hcase hbelow =>
      have hm := sys.build_mfs_caller n m
      have hbuilt := hup.build htracked hpromise m
      have hcase' := System.access_of_build hcase
      unfold FetchHistory.note
      dsimp only
      split
      · next hrefused =>
          subst hrefused
          rw [hcase.refused_eq]
          exact hbuilt
      · next haccept =>
          obtain ⟨hcreated, hfresh⟩ := fresh htracked hpromise m
          have haccepts : sys.accepts cls (.access n m time events) = true := by
            rw [System.accepts, hperform]
            exact decide_eq_true haccept
          have hstep := hbuilt.access hon (hresident.build htracked hpromise m) (by simp) hcreated
            hfresh ?_ haccept hcase'
          · rw [hm] at hstep
            exact hstep
          -- a write that is accepted meets no fetch of its bytes
          · rw [hm]
            intro hwrite t e he hblock
            exact (spared htracked hpromise (hkeeps haccepts hwrite) he hblock).1
  | tick memportFull waiting done htick hcore hbelow =>
      rw [hcore]
      exact hup.of_same rfl rfl rfl rfl (hkept rfl rfl) fun i => ⟨rfl, fun _ => rfl⟩
  | push memportFull waiting done htick mf rest hqueue hcore hbelow =>
      rw [hcore]
      -- what leaves the queue is counted, so that the position of the next request stays
      refine hup.of_same ?_ rfl rfl rfl (hkept rfl rfl) fun i => ⟨rfl, fun _ => rfl⟩
      simp only [FetchHistory.note, FetchHistory.next, hqueue, List.length_cons]
      omega
  | wait n m time original horiginal e pendingRead he hcore hbelow =>
      have hafter : sys'.core.extra.lookup original = some { e with pendingRead } := by
        rw [hcore]
        exact AList.lookup_insert _
      have hnote : h.note sys (.fillChild n m time) sys' (.fill original) = h := by
        rw [FetchHistory.note, he, hafter]
      rw [hnote, hcore]
      refine hup.of_same rfl rfl rfl rfl (fun t e' he' => ?_) fun i => ⟨rfl, fun _ => rfl⟩
      have hmasks : ∀ {t e'}, sys.core.extra.lookup t = some e' →
          SameMasks sys.core { (sys.build n m).core with
            extra := sys.core.extra.insert original { e with pendingRead } } t := fun hlookup =>
        .of_eq (System.build_mfs htracked hpromise.2.1 m
          (AList.lookup_isSome.1 (by rw [hlookup]; rfl)))
      by_cases ht : t = original
      · subst ht
        rw [AList.lookup_insert] at he'
        cases he'
        exact ⟨e, he, rfl, hmasks he⟩
      · rw [AList.lookup_insert_ne ht] at he'
        exact ⟨e', he', rfl, hmasks he'⟩
  | complete o c mf time horigin e he hentry lines hfill hcore hbelow =>
      have hdone := System.completed hon htracked hpromise horigin he hfill hcore
      have hnote : h.note sys o sys' (.fill mf) = { h with seen := h.filled sys.core mf e } := by
        rw [FetchHistory.note, he, hdone.extra, AList.lookup_erase]
      rw [hnote]
      exact hup.complete hresident he hdone
  | ready mf rest hqueue hpinned hcore hbelow =>
      rw [hcore]
      exact hunpin mf rfl rfl rfl rfl
  | deliver mf a rest addresses hready hanswered hentry hpinned hcore hbelow =>
      rw [hcore]
      refine hunpin mf ?_ ?_ ?_ ?_ <;>
        · unfold Core.deliver
          split <;> rfl
  | flush => cases hclears
  | invalidate => cases hclears
  | retire mf hcore hbelow =>
      rw [hcore]
      exact hup

end Step

end UpToDate

/-! ### Whole runs -/

section Run

variable {cls : CacheClass} {mfs : Token → MemFetch} {trace : List Obs}
  {s : System cfg × FetchHistory}

/-- **What is fetched is up to date in every state that can be reached.** -/
theorem upToDate_of_run (hcfg : cfg.Checked) (hon : cfg.allocPolicy = .onMiss)
    (hdefer : cfg.deferHitResponse = true)
    (hrun : System.FetchRun cls
      (fun sys o => sys.Promise o ∧ o.clears = false ∧ sys.KeepsOrder cls o)
      (System.init cfg mfs, .init) trace s) :
    Tracked s.1.core s.1.sent ∧ Resident s.1.core ∧ UpToDate s.1.core s.2 := by
  have hforget : ∀ {trace : List Obs} {s : System cfg × FetchHistory}, System.FetchRun cls
      (fun sys o => sys.Promise o ∧ o.clears = false ∧ sys.KeepsOrder cls o)
      (System.init cfg mfs, .init) trace s →
      System.Run cls System.Promise (System.init cfg mfs) trace s.1 :=
    fun h => h.forget fun _ _ hp => hp.1
  refine ⟨(homed_of_run hon hdefer (hforget hrun)).1.2.1, ?_⟩
  have hinv : Resident s.1.core ∧ PinnedFetches s.1.core ∧ UpToDate s.1.core s.2 := by
    refine hrun.reachable_invariant (fun _ s => Resident s.1.core ∧ PinnedFetches s.1.core ∧
      UpToDate s.1.core s.2) ?_ ?_
    · refine ⟨.init mfs, fun t e he => ?_, fun a k => Nat.zero_le _, fun t e he => ?_,
        fun t e he => ?_, fun i j hvalid k hk => Nat.zero_le _⟩ <;> cases he
    · rintro trace ⟨sys, h⟩ o ⟨sys', h'⟩ b hbefore ⟨hresident, hpinned, hup⟩ hpromise hstep
      obtain ⟨hperform, rfl⟩ := Runs.withHistory_eq_ok.1 hstep
      obtain ⟨hkeep, hclears, horder⟩ := hpromise
      obtain ⟨⟨hacc, htracked, hdelivered⟩, htagged, hhomed⟩ :=
        homed_of_run hon hdefer (hforget hbefore)
      have hpins := (hhomed.step hon hdefer hacc htagged (fun p hp => hdelivered.waits hp)
        hkeep hperform).1
      refine ⟨hresident.step hcfg hon htracked hkeep ?_ ?_ hperform,
        hpinned.step hdefer htracked hacc hkeep hperform hpins.kept,
        hup.step hon hresident htracked hkeep hclears horder hperform⟩
      · rintro (rfl | rfl) <;> cases hclears
      · rintro n m time events status joined rfl rfl haccept
        have hpinned' : PinnedFetches (sys.build n m).core := hpinned
        have hacc' : Accounted (sys.build n m).core :=
          hacc.of_same (List.Perm.refl _) rfl (fun _ => rfl) le_rfl
        refine hpinned'.spares hacc' fun p hp hs hwrite hevicts => ?_
        -- the evicted sector would be the one that the fetch is for
        rintro ⟨t, e, he, hidx, hsame⟩
        have haccepts : sys.accepts cls (.access n m time events) = true := by
          rw [System.accepts, hperform]
          exact decide_eq_true haccept
        have hlookup : sys.core.extra.lookup t = some e := he
        have hblock : cfg.blockAddr e.blockAddr = cfg.blockAddr m.addr := by
          rw [← (hresident.anchored.tenant t e he).1, hidx]
          exact (hp.holds (Or.inl hs)).1
        have hanswer : (sys.answer m).map ProbeResult.status = some .hit := by
          rw [(System.answer_eq_some n).2 hp, Option.map_some, hs]
        exact (UpToDate.spared htracked hkeep (horder haccepts hwrite) hlookup hblock).2 hanswer
          hevicts hsame
  exact ⟨hinv.1, hinv.2.2⟩

/-- **A read that hits a valid sector sees no byte that was fetched before a write to it**, in every
run in which no write that is accepted meets a fetch.  And an accepted write keeps every fetch under
way as new as the last write to its bytes exactly when it changes no byte that one will fill. -/
theorem hits_see_later_fetches (hcfg : cfg.Accepted) (hon : cfg.allocPolicy = .onMiss)
    (hdefer : cfg.deferHitResponse = true)
    (hrun : System.FetchRun cls
      (fun sys o => sys.Promise o ∧ o.clears = false ∧ sys.KeepsOrder cls o)
      (System.init cfg mfs, .init) trace s) :
    (∀ m p, m.isWrite = false → s.1.answer m = some p → p.status = .hit →
      (s.1.core.lines p.idx).tag = cfg.blockAddr m.addr ∧
        ((s.1.core.lines p.idx).getStatus (cfg.sectorIndex m.accessSectorMask) = .valid →
          ∀ k ∈ cfg.bytesOf (cfg.sectorIndex m.accessSectorMask),
            s.2.lastWrite (cfg.blockAddr m.addr) k ≤ s.2.seen p.idx k)) ∧
    (∀ n m time events s' status joined,
      s.1.Promise (.access n m time events) →
      Runs.withHistory (System.perform cls) FetchHistory.note s (.access n m time events) =
        .ok (s', .access (.caller n) m status joined) →
      status ≠ .reservationFail → m.isWrite = true →
      ((∀ t e, s'.1.core.extra.lookup t = some e →
          ∀ k ∈ cfg.bytesOf (cfg.sectorIndex (s'.1.core.mfs t).accessSectorMask),
            s'.2.lastWrite (cfg.blockAddr e.blockAddr) k ≤ s'.2.issued t) ↔
        ∀ t e, s.1.core.extra.lookup t = some e →
          cfg.blockAddr e.blockAddr = cfg.blockAddr m.addr →
          Disjoint (cfg.bytesOf (cfg.sectorIndex (s.1.core.mfs t).accessSectorMask))
            (cfg.writtenBytes m))) := by
  obtain ⟨htracked, hresident, hup⟩ := upToDate_of_run hcfg.checked hon hdefer hrun
  refine ⟨fun m p _ hanswer hhit => ?_, ?_⟩
  · have hprobes : (s.1.build 0 m).Probes m.addr m p := (System.answer_eq_some 0).1 hanswer
    have htag := (hprobes.holds (Or.inl hhit)).1
    refine ⟨htag, fun hvalid k hk => ?_⟩
    have hseen := hup.lines p.idx _ hvalid k hk
    rwa [show (s.1.core.lines p.idx).tag = cfg.blockAddr m.addr from htag] at hseen
  · rintro n m time events ⟨sys', h'⟩ status joined hpromise hstep haccept hwrite
    obtain ⟨hperform, hnote⟩ := Runs.withHistory_eq_ok.1 hstep
    have hwritten : h'.lastWrite = s.2.written s.1.core m ∧
        h'.issued = s.2.launched s.1.core sys'.core := by
      subst hnote
      simp [FetchHistory.note, haccept]
    have hm := s.1.build_mfs_caller n m
    obtain ⟨hcreated, hfresh⟩ := UpToDate.fresh htracked hpromise m
    have hbuilt := hup.build htracked hpromise m
    cases System.step_cases hpromise.suits hperform with
    | access _ _ _ _ _ hcase hbelow =>
        have hcase' := System.access_of_build hcase
        have hiff := hbuilt.fetches_of_write_iff (by simp) hcreated hfresh (by rwa [hm]) hcase'
        rw [hm] at hiff
        dsimp only
        rw [hwritten.1, hwritten.2]
        refine hiff.trans (forall_congr' fun t => forall_congr' fun e => imp_congr_right
          fun he => ?_)
        have hlookup : s.1.core.extra.lookup t = some e := he
        rw [System.build_mfs htracked hpromise m (AList.lookup_isSome.1 (by rw [hlookup]; rfl))]

end Run

/-- A write that waits for the fetch of its block goes through, and the bytes that a later read hits
were fetched after a write to them. -/
theorem hits_see_later_fetches_write_before_fetch :
    ∃ trace s p, System.FetchRun (.dataCache .l1)
        (fun sys o => sys.Promise o ∧ o.clears = false ∧ sys.KeepsOrder (.dataCache .l1) o)
        (System.init (CacheConfig.small 'S' 'T' 'm' 'N' 2 true) fun _ => MemFetch.load 0, .init)
          trace s ∧
      s.1.answer (MemFetch.load 0) = some p ∧ p.status = .hit ∧ s.2.lastWrite 0 0 = 1 ∧
      s.2.lastWrite 0 0 ≤ s.2.seen p.idx 0 := by
  obtain ⟨trace, s, hrun, hanswer, hvalid, hwritten⟩ :
      ∃ trace s, System.FetchRun (.dataCache .l1)
        (fun sys o => sys.Promise o ∧ o.clears = false ∧ sys.KeepsOrder (.dataCache .l1) o)
        (System.init (CacheConfig.small 'S' 'T' 'm' 'N' 2 true) fun _ => MemFetch.load 0, .init)
          trace s ∧
        (s.1.answer (MemFetch.load 0)).map (fun p => (p.status, p.idx)) = some (.hit, 1) ∧
        (s.1.core.lines 1).getStatus 0 = .valid ∧ s.2.lastWrite 0 0 = 1 :=
    Runs.exists_run_of_exec [.access 0 (MemFetch.store 0 {0}) 0 [],
      .access 1 (MemFetch.load 0) 1 [], .cycle false, .cycle false, .fill (.caller 1) 2] (by decide)
  obtain ⟨p, hp, hpair⟩ := Option.map_eq_some_iff.1 hanswer
  obtain ⟨hstatus, hidx⟩ := Prod.mk.inj hpair
  rw [← hidx] at hvalid
  have hseen := (hits_see_later_fetches (CacheConfig.small_accepted (by decide) true) rfl rfl
    hrun).1 (MemFetch.load 0) p rfl hp hstatus
  refine ⟨trace, s, p, hrun, hp, hstatus, hwritten, ?_⟩
  exact hseen.2 hvalid 0 (by decide)

/-- A write is accepted while the fetch of its sector is under way, and a later read hits the sector
that the fetch has filled. -/
theorem read_hits_stale_byte :
    (CacheConfig.small 'S' 'T' 'm' 'N' 2 true).Accepted ∧
      ∃ trace sys h, System.FetchRun (.dataCache .l1)
        (fun sys o => sys.Promise o ∧ o.clears = false)
        (System.init (CacheConfig.small 'S' 'T' 'm' 'N' 2 true) fun _ => MemFetch.load 0, .init)
          trace (sys, h) ∧
        ∃ p, sys.answer (MemFetch.load 0) = some p ∧ p.status = .hit ∧
          (sys.core.lines p.idx).getStatus 0 = .valid ∧
          h.seen p.idx 0 < h.lastWrite 0 0 := by
  refine ⟨CacheConfig.small_accepted (by decide) true, ?_⟩
  obtain ⟨trace, ⟨sys, h⟩, hrun, hanswer, hvalid, hstale⟩ :
      ∃ trace s, System.FetchRun (.dataCache .l1) (fun sys o => sys.Promise o ∧ o.clears = false)
        (System.init (CacheConfig.small 'S' 'T' 'm' 'N' 2 true) fun _ => MemFetch.load 0, .init)
          trace s ∧
        (s.1.answer (MemFetch.load 0)).map (fun p => (p.status, p.idx)) = some (.hit, 1) ∧
        (s.1.core.lines 1).getStatus 0 = .valid ∧ s.2.seen 1 0 < s.2.lastWrite 0 0 :=
    Runs.exists_run_of_exec [.access 0 (MemFetch.load 0) 0 [], .cycle false,
      .access 1 (MemFetch.store 0 {0}) 1 [], .cycle false, .fill (.caller 0) 2] (by decide)
  obtain ⟨p, hp, hpair⟩ := Option.map_eq_some_iff.1 hanswer
  obtain ⟨hstatus, hidx⟩ := Prod.mk.inj hpair
  rw [← hidx] at hvalid hstale
  exact ⟨trace, sys, h, hrun, p, hp, hstatus, hvalid, hstale⟩

end OpenCache
