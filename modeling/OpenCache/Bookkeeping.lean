/-
What a request does to the MSHR table and to the statistics.

Every handler changes lines and queues; the MSHR table and the statistics it changes only when the
read miss handler puts the request into an entry.  This is seen from the structure of the handlers
alone, so it is stated once here, for the counters of the other modules.

* `OpenCache.Books` — the MSHR table and the statistics;
* `OpenCache.Books.Accepts` — the three things that a request may do to them;
* `OpenCache.Cache.callHandler_accepts` — no handler does more;
* `OpenCache.Cache.access_books` — **what an accepted access does to the books**;
* `OpenCache.Cache.access_mshrs`, `fillComplete_mshrs`, `nextAccess_mshrs` — what the methods do to
  the MSHR table.
-/

import OpenCache.Refusals

set_option relaxedAutoImplicit false
set_option autoImplicit false

namespace OpenCache

/-- The MSHR table and the statistics of a cache. -/
structure Books (cfg : CacheConfig) where
  mshrs : MshrTable cfg.mshrEntries cfg.mshrMaxMerge
  stats : CacheStats

/-- The books of a cache. -/
def Cache.books {cfg : CacheConfig} (c : Cache cfg) : Books cfg := ⟨c.mshrs, c.stats⟩

/-- What a request that is accepted may do to the books: nothing; or it is put into an entry of the
table, which is counted as an `MSHR_HIT` when the entry was there. -/
inductive Books.Accepts {cfg : CacheConfig} (b : Books cfg) : Books cfg → Prop
  | same : b.Accepts b
  | add {a : NewAddrType} {mf : Token} {mshrs : MshrTable cfg.mshrEntries cfg.mshrMaxMerge}
      (hadd : b.mshrs.add a mf = .ok mshrs) : b.Accepts ⟨mshrs, b.stats⟩
  | merge {a : NewAddrType} {mf : Token} {mshrs : MshrTable cfg.mshrEntries cfg.mshrMaxMerge}
      (hadd : b.mshrs.add a mf = .ok mshrs) (accessType : MemAccessType) (streamID : ℕ) :
      b.Accepts ⟨mshrs, b.stats.incStats accessType .mshrHit streamID⟩

theorem Books.Accepts.of_eq {cfg : CacheConfig} {b b₁ b₂ : Books cfg} (h : b.Accepts b₁)
    (heq : b₂ = b₁) : b.Accepts b₂ := heq ▸ h

namespace Cache

variable {cfg : CacheConfig}

section Helpers

variable {c c' : Cache cfg} {m : MemFetch} {idx : ℕ}

theorem WritesLines.books (h : c.WritesLines c') : c'.books = c.books := by
  obtain ⟨_, _, rfl⟩ := h
  rfl

theorem sendWriteback_books (c : Cache cfg) (types : DataCacheTypes) (m : MemFetch)
    (evicted : Option EvictedBlockInfo) (request : EvictedBlockInfo → CacheEvent)
    (events : List CacheEvent) :
    (c.sendWriteback types m evicted request events).1.books = c.books := by
  unfold sendWriteback
  cases evicted with
  | none => rfl
  | some e =>
      simp only
      split <;> rfl

theorem acceptMiss_books {blockAddr mshrAddr : NewAddrType} {mf : Token} {time : Time}
    {readOnly : Bool} {r : AccessResult}
    (h : c.acceptMiss blockAddr mshrAddr idx mf time readOnly = .ok (c', r)) :
    ∃ mshrs, c.mshrs.add mshrAddr mf = .ok mshrs ∧ c'.books = ⟨mshrs, c.stats⟩ := by
  obtain ⟨⟨ta, r'⟩, -, h⟩ := bind_eq_ok.1 h
  obtain ⟨mshrs, hadd, h⟩ := bind_eq_ok.1 h
  cases h
  refine ⟨mshrs, hadd, ?_⟩
  split <;> rfl

theorem useDataPort_books {status : CacheRequestStatus} {events : List CacheEvent}
    (h : c.useDataPort m status events = .ok c') : c'.books = c.books := by
  unfold useDataPort at h
  cases status <;> simp only at h
  case hitReserved | miss =>
    split at h <;> cases h <;> rfl
  all_goals cases h <;> rfl

/-- The read miss handler puts a request that it accepts into the table. -/
theorem sendReadRequest_books {blockAddr : NewAddrType} {mf : Token} {time : Time}
    {events : List CacheEvent} {readOnly wa : Bool} {r : SendResult}
    (h : c.sendReadRequest blockAddr idx mf time events readOnly wa = .ok (c', r))
    (hmiss : r.doMiss = true) : c.books.Accepts c'.books := by
  unfold sendReadRequest at h
  dsimp only at h
  split at h
  · obtain ⟨⟨c₁, r₁⟩, h₁, h⟩ := bind_eq_ok.1 h
    cases h
    obtain ⟨mshrs, hadd, hbooks⟩ := acceptMiss_books h₁
    obtain ⟨hmshrs, hstats⟩ := Books.mk.inj hbooks
    subst hmshrs
    have hmerge := Books.Accepts.merge (b := c.books) hadd (c.mfs mf).accessType (c.mfs mf).streamID
    rw [show c.books.stats = c₁.stats from hstats.symm] at hmerge
    exact hmerge
  · split at h
    · obtain ⟨⟨c₁, r₁⟩, h₁, h⟩ := bind_eq_ok.1 h
      cases h
      obtain ⟨mshrs, hadd, hbooks⟩ := acceptMiss_books h₁
      change c.books.Accepts c₁.books
      rw [hbooks]
      exact .add hadd
    · split at h
      · cases h
        cases hmiss
      · split at h
        · cases h
          cases hmiss
        · cases h

end Helpers

/-- If the step accepts the request, it has put at most that request into the table. -/
def Accepts (c : Cache cfg) (x : Step (Handled cfg)) : Prop :=
  ∀ c' status events, x = .ok (c', status, events) → status ≠ .reservationFail →
    c.books.Accepts c'.books

namespace Accepts

variable {c : Cache cfg}

theorem accept {c' : Cache cfg} {status : CacheRequestStatus} {events : List CacheEvent}
    (h : c.books.Accepts c'.books) : Accepts c (.ok (c', status, events)) := by
  intro c'' status' events' h' _
  cases h'
  exact h

/-- What a handler does to the lines and the queues is not in the books. -/
theorem keep {c' : Cache cfg} {status : CacheRequestStatus} {events : List CacheEvent}
    (h : c'.books = c.books) : Accepts c (.ok (c', status, events)) :=
  accept (Books.Accepts.same.of_eq h)

theorem refuse {c' : Cache cfg} {events : List CacheEvent} :
    Accepts c (.ok (c', .reservationFail, events)) := by
  intro c'' status' events' h' hstatus
  cases h'
  exact absurd rfl hstatus

theorem error (e : Abort) : Accepts c (.error e) := by
  intro c' status events h
  cases h

theorem bind {α : Type} {x : Step α} {f : α → Step (Handled cfg)}
    (h : ∀ a, x = .ok a → Accepts c (f a)) : Accepts c (x >>= f) := by
  intro c' status events h'
  obtain ⟨a, ha, h'⟩ := bind_eq_ok.1 h'
  exact h a ha c' status events h'

theorem ite {p : Prop} [Decidable p] {x y : Step (Handled cfg)} (hx : p → Accepts c x)
    (hy : ¬p → Accepts c y) : Accepts c (if p then x else y) := by
  split
  · next hp => exact hx hp
  · next hp => exact hy hp

end Accepts

section Handlers

variable (c : Cache cfg) (types : DataCacheTypes) (addr : NewAddrType) (idx : ℕ) (mf : Token)
  (time : Time) (events : List CacheEvent)

theorem wrHitWe_accepts : Accepts c (c.wrHitWe idx mf events) :=
  .ite (fun _ => .refuse) fun _ => .bind fun _ _ => .keep rfl

theorem wrHitWb_accepts : Accepts c (c.wrHitWb addr idx mf time events) := by
  refine .bind fun a _ => .bind fun c₁ hmark => .bind fun c₂ hupdate => .keep ?_
  exact (updateMReadable_writesLines hupdate).books.trans (markModified_writesLines hmark).books

theorem wrHitWt_accepts : Accepts c (c.wrHitWt addr idx mf time events) := by
  refine .ite (fun _ => .refuse) fun _ => .bind fun a _ => .bind fun c₁ hmark =>
    .bind fun c₂ hupdate => .keep ?_
  exact (updateMReadable_writesLines hupdate).books.trans (markModified_writesLines hmark).books

theorem wrHit_accepts : Accepts c (c.wrHit addr idx mf time events) := by
  unfold wrHit
  split
  · exact .error _
  · exact wrHitWb_accepts c addr idx mf time events
  · exact wrHitWt_accepts c addr idx mf time events
  · exact wrHitWe_accepts c idx mf events
  · exact .ite (fun _ => wrHitWe_accepts c idx mf events) fun _ =>
      wrHitWb_accepts c addr idx mf time events

theorem wrMissNoWa_accepts : Accepts c (c.wrMissNoWa mf events) :=
  .ite (fun _ => .refuse) fun _ => .keep rfl

theorem rdHitBase_accepts : Accepts c (c.rdHitBase addr idx mf time events) :=
  .bind fun _ _ => .keep rfl

theorem rdMissBase_accepts : Accepts c (c.rdMissBase types addr idx mf time events) := by
  refine .ite (fun _ => .refuse) fun _ => .bind fun a ha => .ite (fun hmiss => ?_) fun _ => .refuse
  exact .accept ((sendReadRequest_books ha hmiss).of_eq (sendWriteback_books _ _ _ _ _ _))

theorem wrMissWaNaive_accepts (status : CacheRequestStatus) :
    Accepts c (c.wrMissWaNaive types addr idx mf time events status) := by
  refine .ite (fun _ => .bind fun _ _ => .refuse) fun _ => .bind fun a ha =>
    .ite (fun hmiss => .bind fun _ _ => ?_) fun _ => .refuse
  exact .accept ((sendReadRequest_books ha hmiss).of_eq (sendWriteback_books _ _ _ _ _ _))

theorem wrMissWaFetchOnWriteFull_accepts :
    Accepts c (c.wrMissWaFetchOnWriteFull types addr idx mf time events) := by
  refine .ite (fun _ => .refuse) fun _ => .bind fun a _ => .bind fun _ _ => .bind fun c₁ hmark =>
    .bind fun c₂ hignore => .ite (fun _ => .keep ?_) fun _ => .refuse
  refine (sendWriteback_books _ _ _ _ _ _).trans ?_
  exact (ignoreOnFillIfReserved_writesLines hignore).books.trans
    (markModified_writesLines hmark).books

theorem wrMissWaFetchOnWritePartial_accepts :
    Accepts c (c.wrMissWaFetchOnWritePartial types addr idx mf time events) := by
  refine .ite (fun _ => .bind fun _ _ => .refuse) fun _ => .ite (fun _ => .refuse) fun _ =>
    .bind fun a ha => .bind fun _ _ => .ite (fun hmiss => ?_) fun _ => .refuse
  exact .accept ((sendReadRequest_books ha hmiss).of_eq (sendWriteback_books _ _ _ _ _ _))

theorem wrMissWaLazyFetchOnRead_accepts :
    Accepts c (c.wrMissWaLazyFetchOnRead types addr idx mf time events) := by
  unfold wrMissWaLazyFetchOnRead
  refine .ite (fun _ => .refuse) fun _ => ?_
  split
  next c₁ events₁ hc₁ =>
  have hbooks : c₁.books = c.books := by
    split at hc₁ <;> cases hc₁ <;> rfl
  refine .bind fun a _ => .bind fun _ _ => .bind fun c₂ hmark => .bind fun _ _ =>
    .bind fun c₃ hupdate => .ite (fun _ => .keep ?_) fun _ => .refuse
  refine (sendWriteback_books _ _ _ _ _ _).trans
    ((updateMReadable_writesLines hupdate).books.trans ?_)
  exact (markModified_writesLines hmark).books.trans hbooks

theorem wrMiss_accepts (status : CacheRequestStatus) :
    Accepts c (c.wrMiss types addr idx mf time events status) := by
  unfold wrMiss
  split
  · exact wrMissNoWa_accepts c mf events
  · exact wrMissWaNaive_accepts c types addr idx mf time events status
  · exact .ite (fun _ => wrMissWaFetchOnWriteFull_accepts c types addr idx mf time events) fun _ =>
      wrMissWaFetchOnWritePartial_accepts c types addr idx mf time events
  · exact wrMissWaLazyFetchOnRead_accepts c types addr idx mf time events

/-- **A handler that accepts a request puts at most that request into the table.** -/
theorem callHandler_accepts (wr : Bool) (status : CacheRequestStatus) :
    Accepts c (c.callHandler types wr status addr idx mf time events) := by
  refine .ite (fun _ => .ite (fun _ => wrHit_accepts c addr idx mf time events) fun _ =>
      .ite (fun _ => wrMiss_accepts c types addr idx mf time events status) fun hnor => ?_)
    fun _ => .ite (fun _ => rdHitBase_accepts c addr idx mf time events) fun _ =>
      .ite (fun _ => rdMissBase_accepts c types addr idx mf time events) fun hfail => ?_
  · rw [not_not.1 (not_or.1 hnor).1]
    exact .refuse
  · rw [not_not.1 hfail]
    exact .refuse

theorem processTagProbe_accepts (wr : Bool) (status : CacheRequestStatus) :
    Accepts c (c.processTagProbe types wr status addr idx mf time events) := by
  refine .ite (fun _ => .bind fun _ _ => .refuse) fun _ => ?_
  intro c' status' events' h hstatus
  obtain ⟨⟨c₁, status₁, events₁⟩, hcall, h⟩ := bind_eq_ok.1 h
  obtain ⟨c₂, hport, h⟩ := bind_eq_ok.1 h
  cases h
  have hbooks : c'.books = c₁.books := by
    rw [useDataPort_books hport]
    split <;> rfl
  exact (callHandler_accepts c types addr idx mf time events wr status _ _ _ hcall hstatus).of_eq
    hbooks

theorem readOnlyTagProbe_accepts (p : ProbeResult) :
    Accepts c (c.readOnlyTagProbe p addr mf time events) := by
  refine .ite (fun _ => .ite (fun _ => .refuse) fun _ => .bind fun _ _ =>
      .ite (fun _ => .keep rfl) fun _ => .keep rfl)
    fun _ => .ite (fun _ => .ite (fun _ => .refuse) fun _ => .bind fun a ha => ?_) fun _ => .refuse
  obtain ⟨c₁, r⟩ := a
  cases hmiss : r.doMiss with
  | true =>
      simp only [hmiss, if_true]
      exact .accept (sendReadRequest_books ha hmiss)
  | false =>
      simp only [hmiss, Bool.false_eq_true, if_false]
      exact .refuse

end Handlers

/-- **What an accepted access does to the books**, before its outcome is counted. -/
theorem access_books {c c' : Cache cfg} {cls : CacheClass} {addr : NewAddrType} {mf : Token}
    {time : Time} {events events' : List CacheEvent} {status : CacheRequestStatus}
    (h : c.access cls addr mf time events = .ok (c', status, events'))
    (hstatus : status ≠ .reservationFail) :
    ∃ p, ∃ c₁ c₂ : Cache cfg, c.probeTags addr (c.mfs mf) = .ok (c₁, p) ∧ c.books.Accepts c₂.books ∧
      c' = c₂.countAccess (c.mfs mf) p.status status := by
  have hprobed : ∀ {c₁ : Cache cfg} {p : ProbeResult},
      c.probeTags addr (c.mfs mf) = .ok (c₁, p) → c₁.books = c.books := by
    intro c₁ p hprobe
    obtain ⟨rfl, -⟩ := probeTags_eq_ok hprobe
    rfl
  cases cls with
  | readOnlyCache =>
      obtain ⟨_, -, h⟩ := bind_eq_ok.1 h
      obtain ⟨_, -, h⟩ := bind_eq_ok.1 h
      obtain ⟨_, -, h⟩ := bind_eq_ok.1 h
      obtain ⟨⟨c₁, p⟩, hprobe, h⟩ := bind_eq_ok.1 h
      obtain ⟨⟨c₂, status₂, events₂⟩, htag, h⟩ := bind_eq_ok.1 h
      cases h
      have haccepts := readOnlyTagProbe_accepts c₁ addr mf time events p _ _ _ htag hstatus
      rw [hprobed hprobe] at haccepts
      exact ⟨p, c₁, c₂, hprobe, haccepts, rfl⟩
  | dataCache types =>
      obtain ⟨_, -, h⟩ := bind_eq_ok.1 h
      obtain ⟨_, -, h⟩ := bind_eq_ok.1 h
      obtain ⟨⟨c₁, p⟩, hprobe, h⟩ := bind_eq_ok.1 h
      obtain ⟨⟨c₂, status₂, events₂⟩, htag, h⟩ := bind_eq_ok.1 h
      cases h
      have haccepts := processTagProbe_accepts c₁ types addr p.idx mf time events
        _ _ _ _ _ htag hstatus
      rw [hprobed hprobe] at haccepts
      exact ⟨p, c₁, c₂, hprobe, haccepts, rfl⟩

/-- An access puts at most one request into the MSHR table. -/
theorem access_mshrs {c c' : Cache cfg} {cls : CacheClass} {addr : NewAddrType} {mf : Token}
    {time : Time} {events events' : List CacheEvent} {status : CacheRequestStatus}
    (h : c.access cls addr mf time events = .ok (c', status, events')) :
    c'.mshrs = c.mshrs ∨ ∃ a t, c.mshrs.add a t = .ok c'.mshrs := by
  by_cases hrefused : status = .reservationFail
  · subst hrefused
    obtain ⟨-, reason, p, -, rfl⟩ := @access_declines cfg (fun _ => True) c c' addr mf
      (fun _ _ => trivial) (fun _ => trivial) cls time events events' h
    exact Or.inl rfl
  · obtain ⟨p, c₁, c₂, -, haccepts, rfl⟩ := access_books h hrefused
    change c₂.books.mshrs = c.mshrs ∨ ∃ a t, c.mshrs.add a t = .ok c₂.books.mshrs
    generalize c₂.books = b at haccepts
    cases haccepts with
    | same => exact Or.inl rfl
    | add hadd => exact Or.inr ⟨_, _, hadd⟩
    | merge hadd => exact Or.inr ⟨_, _, hadd⟩

/-! ### The other methods -/

theorem cycle_mshrs {c c' : Cache cfg} {memportFull : Bool} {pushed : Option Token}
    (h : c.cycle memportFull = .ok (c', pushed)) : c'.mshrs = c.mshrs := by
  obtain ⟨⟨waiting, done⟩, -, h⟩ := bind_eq_ok.1 h
  cases h
  cases c.missQueue with
  | nil => rfl
  | cons mf rest => cases memportFull <;> rfl

theorem fillComplete_mshrs {c c' : Cache cfg} {mf : Token} {time : Time}
    (h : c.fillComplete mf time = .ok c') : ∃ a, c.mshrs.markReady a = .ok c'.mshrs := by
  unfold fillComplete at h
  split at h
  · cases h
  · next e he =>
      obtain ⟨_, -, h⟩ := bind_eq_ok.1 h
      dsimp only at h
      split at h
      · obtain ⟨ta, -, h⟩ := bind_eq_ok.1 h
        obtain ⟨t, hready, h⟩ := bind_eq_ok.1 h
        cases h
        exact ⟨e.blockAddr, hready⟩
      · obtain ⟨ta, -, h⟩ := bind_eq_ok.1 h
        obtain ⟨t, hready, h⟩ := bind_eq_ok.1 h
        cases h
        exact ⟨e.blockAddr, hready⟩
      · cases h

theorem fill_mshrs {c c' : Cache cfg} {mf : Token} {time : Time} (h : c.fill mf time = .ok c') :
    c'.mshrs = c.mshrs ∨ ∃ a, c.mshrs.markReady a = .ok c'.mshrs := by
  unfold fill at h
  split at h
  · split at h
    · cases h
    · split at h
      · cases h
      · dsimp only at h
        split at h
        · cases h
          exact Or.inl rfl
        · have hready := fillComplete_mshrs h
          exact Or.inr hready
  · exact Or.inr (fillComplete_mshrs h)

theorem unpinResponse_mshrs {c c' : Cache cfg} {mf : Token} (h : c.unpinResponse mf = .ok c') :
    c'.mshrs = c.mshrs := by
  unfold unpinResponse at h
  split at h
  · cases h
    rfl
  · obtain ⟨block, -, h⟩ := bind_eq_ok.1 h
    cases h
    rfl

theorem nextAccess_mshrs {c c' : Cache cfg} {mf : Token} (h : c.nextAccess = .ok (c', mf)) :
    c'.mshrs = c.mshrs ∨ ∃ t, c.mshrs.nextAccess = .ok (c'.mshrs, t) := by
  obtain ⟨_, -, h⟩ := bind_eq_ok.1 h
  split at h
  · obtain ⟨c₁, h₁, h⟩ := bind_eq_ok.1 h
    cases h
    exact Or.inl ((unpinResponse_mshrs h₁).trans rfl)
  · obtain ⟨⟨t, mf'⟩, hnext, h⟩ := bind_eq_ok.1 h
    obtain ⟨c₁, h₁, h⟩ := bind_eq_ok.1 h
    cases h
    refine Or.inr ⟨mf, ?_⟩
    rw [unpinResponse_mshrs h₁]
    exact hnext

end Cache

end OpenCache
