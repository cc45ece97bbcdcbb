/-
What the writes of a run have left in the lines.

The bytes of a line that no request carries to the lower level exist nowhere else.  A history
variable remembers, for each line and since the line took its block, the bytes whose last accepted
write went into the line, and the bytes whose last accepted write was not put into the miss queue.
The first follows from the requests and the answers of the tags; the second looks at the queue.

* `OpenCache.WriteHistory`, `OpenCache.WriteHistory.note` — the history variable and its update;
* `OpenCache.System.fillVictim` — the line that a fill replaces;
* `OpenCache.WriteHistory.unsent_eq_written` — **unless the cache writes through, what goes into a
  line is not sent**;
* `OpenCache.WriteHistory.unsent_eq_empty`, `OpenCache.WriteHistory.written_eq_empty` — caches that
  send every write, and caches that put none into a line.
-/

import OpenCache.Forwarding

set_option relaxedAutoImplicit false
set_option autoImplicit false

namespace OpenCache

variable {cfg : CacheConfig}

/-- The bytes that a sector of a line stands for: a line of a normal cache is one sector. -/
def CacheConfig.bytesOf (cfg : CacheConfig) (i : Fin 4) : MemAccessByteMask :=
  match cfg.cacheType with
  | .normal => Finset.univ
  | .sector => sectorBytes i

/-- An access that the tags answer with `status` takes its line for its block. -/
def takesLine (cfg : CacheConfig) (m : MemFetch) (status : CacheRequestStatus) : Prop :=
  status = .miss ∧ cfg.allocPolicy = .onMiss ∧
    (m.isWrite = true → cfg.writeAllocPolicy ≠ .noWriteAllocate)

/-- A write that the tags answer with `status` goes into its line: a write hit that does not evict,
and a write miss of a cache that fetches, on writes or on reads. -/
def writesLine (cfg : CacheConfig) (m : MemFetch) (status : CacheRequestStatus) : Prop :=
  if status = .hit then ¬evictsOnWriteHit cfg m
  else cfg.writeAllocPolicy = .fetchOnWrite ∨ cfg.writeAllocPolicy = .lazyFetchOnRead

instance (cfg : CacheConfig) (m : MemFetch) (status : CacheRequestStatus) :
    Decidable (takesLine cfg m status) := by
  unfold takesLine
  infer_instance

instance (cfg : CacheConfig) (m : MemFetch) (status : CacheRequestStatus) :
    Decidable (writesLine cfg m status) := by
  unfold writesLine
  infer_instance

/-- A write goes into its line or is sent, and only under write-through both. -/
theorem sendsWrite_iff_not_writesLine (hthrough : cfg.writePolicy ≠ .writeThrough) {m : MemFetch}
    {status : CacheRequestStatus} : sendsWrite cfg m status ↔ ¬writesLine cfg m status := by
  by_cases hs : status = .hit
  · rw [sendsWrite_hit hs, writesLine, if_pos hs, not_not]
    exact or_iff_left hthrough
  · rw [sendsWrite_miss hs, writesLine, if_neg hs]
    cases cfg.writeAllocPolicy <;> simp [hthrough]

theorem sendsWrite_of_writeThrough (hthrough : cfg.writePolicy = .writeThrough)
    (hfetch : cfg.writeAllocPolicy ≠ .fetchOnWrite) (m : MemFetch) (status : CacheRequestStatus) :
    sendsWrite cfg m status := by
  by_cases hs : status = .hit
  · exact (sendsWrite_hit hs).2 (Or.inr hthrough)
  · rw [sendsWrite_miss hs]
    cases hpolicy : cfg.writeAllocPolicy with
    | fetchOnWrite => exact absurd hpolicy hfetch
    | _ => simp [hthrough]

/-- The status of an observed access. -/
def Obs.status : Obs → Option CacheRequestStatus
  | .access _ _ status _ => some status
  | _ => none

/-- The status of an access, as a value that can be compared. -/
def System.statusOf (cls : CacheClass) (sys : System cfg) (n : ℕ) (m : MemFetch) (time : Time) :
    Option CacheRequestStatus :=
  (sys.perform cls (.access n m time [])).toOption.bind fun r => r.2.status

theorem System.perform_of_statusOf {cls : CacheClass} {sys : System cfg} {n : ℕ} {m : MemFetch}
    {time : Time} {status : CacheRequestStatus} (h : sys.statusOf cls n m time = some status) :
    ∃ sys' joined, sys.perform cls (.access n m time []) =
      .ok (sys', .access (.caller n) m status joined) := by
  unfold statusOf at h
  cases hperform : sys.perform cls (.access n m time []) with
  | error e =>
      rw [hperform] at h
      cases h
  | ok r =>
      obtain ⟨sys', b⟩ := r
      rw [hperform] at h
      obtain ⟨⟨c, status', events'⟩, -, hdone⟩ := bind_eq_ok.1 hperform
      cases hdone
      cases h
      exact ⟨_, _, rfl⟩

/-! ### The history variable -/

/-- For each line, since it took its block: the bytes whose last accepted write went into the line,
and the bytes whose last accepted write was not put into the miss queue. -/
structure WriteHistory where
  written : ℕ → MemAccessByteMask
  unsent : ℕ → MemAccessByteMask

namespace WriteHistory

/-- No line has been written. -/
def init : WriteHistory := ⟨fun _ => ∅, fun _ => ∅⟩

/-- What is left of the bytes of a line before the write of an access: nothing, if the access takes
the line for its block, and nothing of the sector that a write hit evicts. -/
def kept (cfg : CacheConfig) (m : MemFetch) (status : CacheRequestStatus)
    (bytes : MemAccessByteMask) : MemAccessByteMask :=
  if takesLine cfg m status then ∅
  else if m.isWrite = true ∧ status = .hit ∧ evictsOnWriteHit cfg m then
    bytes \ cfg.bytesOf (cfg.sectorIndex m.accessSectorMask)
  else bytes

/-- The bytes of a write join those of a line, or the line is left behind. -/
def moved (m : MemFetch) (joins : Bool) (bytes : MemAccessByteMask) : MemAccessByteMask :=
  if m.isWrite then if joins then bytes ∪ m.accessByteMask else bytes \ m.accessByteMask
  else bytes

/-- The bytes of the lines after an accepted access that the tags answer with `p`.  An access that
neither finds nor takes a line leaves them. -/
def track (cfg : CacheConfig) (m : MemFetch) (p : ProbeResult) (joins : Bool)
    (bytes : ℕ → MemAccessByteMask) : ℕ → MemAccessByteMask :=
  if p.status = .reservationFail ∨ p.status = .miss ∧ ¬takesLine cfg m p.status then bytes
  else Function.update bytes p.idx (moved m joins (kept cfg m p.status (bytes p.idx)))

/-- The history after an accepted access that the tags answer with `p`, and that has put its own
request into the miss queue if `sent`. -/
def afterAccess (h : WriteHistory) (cfg : CacheConfig) (m : MemFetch) (p : ProbeResult)
    (sent : Bool) : WriteHistory where
  written := track cfg m p (decide (writesLine cfg m p.status)) h.written
  unsent := track cfg m p (!sent) h.unsent

/-- The history after a line was replaced. -/
def replaced (h : WriteHistory) (idx : ℕ) : WriteHistory :=
  ⟨Function.update h.written idx ∅, Function.update h.unsent idx ∅⟩

end WriteHistory

namespace System

/-- The line that the response to a request replaces, in a cache that allocates on fills: the victim
of `probe`, when the block is not there. -/
def fillVictim (sys : System cfg) (mf : Token) : Option ℕ :=
  match cfg.allocPolicy, sys.core.extra.lookup mf with
  | .onFill, some e =>
      match sys.cache.tagArray.probe e.blockAddr 0 (sys.core.mfs mf).accessSectorMask
          (sys.core.mfs mf).isWrite with
      | .ok p => if p.status = .miss then some p.idx else none
      | .error _ => none
  | _, _ => none

/-- The answer of the tags to a request. -/
def answer (sys : System cfg) (m : MemFetch) : Option ProbeResult :=
  (sys.cache.tagArray.probe (cfg.blockAddr m.addr) Cache.noIndex m.accessSectorMask
    m.isWrite).toOption

/-- What the tags answer to a request that is submitted. -/
theorem answer_eq_some {sys : System cfg} (n : ℕ) {m : MemFetch} {p : ProbeResult} :
    sys.answer m = some p ↔ (sys.build n m).Probes m.addr m p := by
  unfold answer Cache.Probes
  change (sys.cache.tagArray.probe _ _ _ _).toOption = some p ↔
    sys.cache.tagArray.probe _ _ _ _ = .ok p
  cases sys.cache.tagArray.probe (cfg.blockAddr m.addr)
    Cache.noIndex m.accessSectorMask m.isWrite with
  | ok q => simp [Except.toOption]
  | error e => simp [Except.toOption]

/-- The cache accepts the request of an access. -/
def accepts (cls : CacheClass) (sys : System cfg) (o : Op) : Bool :=
  match sys.perform cls o with
  | .ok (_, .access _ _ status _) => status ≠ .reservationFail
  | _ => false

/-- A call has put a request into the miss queue. -/
def sentBy (sys sys' : System cfg) (mf : Token) : Bool :=
  decide (mf ∈ sys'.core.missQueue.drop sys.core.missQueue.length)

/-- The bytes of a block that a call has put into the miss queue, as writes. -/
def queuedBytes (sys sys' : System cfg) (block : NewAddrType) : MemAccessByteMask :=
  Finset.univ.filter fun i => ∃ mf ∈ sys'.core.missQueue.drop sys.core.missQueue.length,
    (sys'.core.mfs mf).isWrite = true ∧ cfg.blockAddr (sys'.core.mfs mf).addr = block ∧
      i ∈ (sys'.core.mfs mf).accessByteMask

/-- A call that puts one write into the miss queue has queued the bytes of that write. -/
theorem queuedBytes_of_append {sys sys' : System cfg} {mf : Token}
    (hqueue : sys'.core.missQueue = sys.core.missQueue ++ [mf])
    (hwrite : (sys'.core.mfs mf).isWrite = true) :
    sys.queuedBytes sys' (cfg.blockAddr (sys'.core.mfs mf).addr) =
      (sys'.core.mfs mf).accessByteMask := by
  ext i
  simp [queuedBytes, hqueue, hwrite]

end System

/-- The history after a call. -/
def WriteHistory.note (h : WriteHistory) (sys : System cfg) (_ : Op) (sys' : System cfg) :
    Obs → WriteHistory
  | .access mf m status _ =>
      match status, sys.answer m with
      | .reservationFail, _ => h
      | _, none => h
      | _, some p => h.afterAccess cfg m p (sys.sentBy sys' mf)
  | .fill mf =>
      match sys'.core.extra.lookup mf, sys.fillVictim mf with
      | none, some idx => h.replaced idx
      | _, _ => h
  | _ => h

/-- The runs of a cache with the history of its writes. -/
abbrev System.HistoryRun (cls : CacheClass) (promise : System cfg → Op → Prop) :
    System cfg × WriteHistory → List Obs → System cfg × WriteHistory → Prop :=
  Runs.Run (Runs.withHistory (System.perform cls) WriteHistory.note) fun s => promise s.1

namespace WriteHistory

variable {cls : CacheClass} {sys sys' : System cfg} {o : Op} {b : Obs} {h : WriteHistory}

/-- A read treats all bytes alike. -/
theorem track_read {m : MemFetch} (hread : m.isWrite = false) (p : ProbeResult)
    (joins joins' : Bool)
    (bytes : ℕ → MemAccessByteMask) : track cfg m p joins bytes = track cfg m p joins' bytes := by
  simp [track, moved, hread]

/-- Where nothing is and nothing joins, there is nothing. -/
theorem track_empty {m : MemFetch} {p : ProbeResult} {joins : Bool}
    (hjoins : m.isWrite = true → joins = false) :
    track cfg m p joins (fun _ => ∅) = fun _ => ∅ := by
  have hkept : kept cfg m p.status ∅ = ∅ := by
    unfold kept
    split
    · rfl
    · split <;> simp
  have hmoved : moved m joins ∅ = ∅ := by
    unfold moved
    split
    · next hw => simp [hjoins hw]
    · rfl
  unfold track
  split
  · rfl
  · dsimp only
    rw [hkept, hmoved]
    exact Function.update_eq_self p.idx (fun _ => (∅ : MemAccessByteMask))

/-- The answer of the tags that an accepted write has seen, and what it has sent. -/
theorem answer_of_write {n : ℕ} {m : MemFetch} {time : Time} {status : CacheRequestStatus}
    (hwrite : m.isWrite = true) (haccept : status ≠ .reservationFail)
    (hcase : AccessCase (sys.build n m) cls m.addr (.caller n) time status sys'.core) :
    ∃ p, sys.answer m = some p ∧
      sys.sentBy sys' (.caller n) = decide (sendsWrite cfg m p.status) := by
  have hm := sys.build_mfs_caller n m
  obtain ⟨p, hp, queued, hqueue, hcount⟩ :=
    hcase.queued_write (by simp) (by rw [hm]; exact hwrite) haccept
  rw [hm] at hp hcount
  refine ⟨p, ?_, ?_⟩
  · rw [System.answer, show sys.cache.tagArray.probe _ _ _ _ = .ok p from hp]
    rfl
  · have hdrop : sys'.core.missQueue.drop sys.core.missQueue.length = queued := by
      rw [hqueue]
      exact List.drop_left
    rw [System.sentBy, hdrop, decide_eq_decide]
    by_cases hs : sendsWrite cfg m p.status
    · rw [if_pos hs] at hcount
      refine iff_of_true (List.count_pos_iff.1 ?_) hs
      rw [hcount]
      exact Nat.one_pos
    · rw [if_neg hs] at hcount
      exact iff_of_false (List.count_eq_zero.1 hcount) hs

/-- What a step can do to the history: nothing, what an accepted access does, or the replacement of
a line by a fill. -/
theorem note_cases {P : WriteHistory → Prop} (hsuits : System.Suits cfg o)
    (hstep : sys.perform cls o = .ok (sys', b)) (hsame : P h)
    (hread : ∀ m p sent, m.isWrite = false → P (h.afterAccess cfg m p sent))
    (hwrite : ∀ types m p, cls = .dataCache types → m.isWrite = true →
      P (h.afterAccess cfg m p (decide (sendsWrite cfg m p.status))))
    (hfill : ∀ idx, P (h.replaced idx)) : P (h.note sys o sys' b) := by
  cases System.step_cases hsuits hstep with
  | access n m time events status hcase =>
      unfold note
      dsimp only
      split
      · exact hsame
      · exact hsame
      · next p hfail hp =>
          cases hw : m.isWrite with
          | false => exact hread m p _ hw
          | true =>
              have hm := sys.build_mfs_caller n m
              obtain ⟨types, hcls⟩ :=
                hcase.dataCache_of_write (by rw [hm]; exact hw) fun hs => hfail hs
              obtain ⟨p', hp', hsent⟩ := answer_of_write hw (fun hs => hfail hs) hcase
              rw [hp, Option.some_inj] at hp'
              subst hp'
              rw [hsent]
              exact hwrite types m p hcls hw
  | wait =>
      unfold note
      dsimp only
      split
      · exact hfill _
      · exact hsame
  | complete =>
      unfold note
      dsimp only
      split
      · exact hfill _
      · exact hsame
  | tick => exact hsame
  | push => exact hsame
  | ready => exact hsame
  | deliver => exact hsame
  | flush => exact hsame
  | invalidate => exact hsame
  | retire => exact hsame

/-! ### Whole runs -/

section Run

variable {mfs : Token → MemFetch} {trace : List Obs} {promise : System cfg → Op → Prop}
  {s : System cfg × WriteHistory}

/-- What the accepted accesses and the replacements of lines preserve holds in every run. -/
theorem of_run {P : WriteHistory → Prop} (hsuits : ∀ s o, promise s o → System.Suits cfg o)
    (hinit : P init)
    (hread : ∀ h m p sent, P h → m.isWrite = false → P (h.afterAccess cfg m p sent))
    (hwrite : ∀ h types m p, P h → cls = .dataCache types → m.isWrite = true →
      P (h.afterAccess cfg m p (decide (sendsWrite cfg m p.status))))
    (hfill : ∀ h idx, P h → P (h.replaced idx))
    (hrun : System.HistoryRun cls promise (System.init cfg mfs, init) trace s) : P s.2 := by
  refine hrun.state_invariant (fun s => P s.2) hinit ?_
  rintro ⟨sys, h⟩ o ⟨sys', h'⟩ b hP hpromise hstep
  obtain ⟨hperform, rfl⟩ := Runs.withHistory_eq_ok.1 hstep
  exact note_cases (hsuits _ _ hpromise) hperform hP (fun m p sent => hread h m p sent hP)
    (fun types m p => hwrite h types m p hP) fun idx => hfill h idx hP

/-- **Unless the cache writes through, what goes into a line is not sent**, and the rest is. -/
theorem unsent_eq_written (hthrough : cfg.writePolicy ≠ .writeThrough)
    (hsuits : ∀ s o, promise s o → System.Suits cfg o)
    (hrun : System.HistoryRun cls promise (System.init cfg mfs, init) trace s) :
    s.2.unsent = s.2.written := by
  refine of_run (P := fun h => h.unsent = h.written) hsuits rfl ?_ ?_ ?_ hrun
  · intro h m p sent hP hread
    change track cfg m p _ h.unsent = track cfg m p _ h.written
    rw [hP]
    exact track_read hread p _ _ _
  · intro h types m p hP _ _
    have hjoins : (!decide (sendsWrite cfg m p.status)) = decide (writesLine cfg m p.status) := by
      simp [sendsWrite_iff_not_writesLine hthrough]
    change track cfg m p _ h.unsent = track cfg m p _ h.written
    rw [hP, hjoins]
  · intro h idx hP
    simp only [replaced, hP]

/-- A cache that writes through and does not fetch on writes sends every write. -/
theorem unsent_eq_empty (hthrough : cfg.writePolicy = .writeThrough)
    (hfetch : cfg.writeAllocPolicy ≠ .fetchOnWrite)
    (hsuits : ∀ s o, promise s o → System.Suits cfg o)
    (hrun : System.HistoryRun cls promise (System.init cfg mfs, init) trace s) :
    s.2.unsent = fun _ => ∅ := by
  refine of_run (P := fun h => h.unsent = fun _ => ∅) hsuits rfl ?_ ?_ ?_ hrun
  · intro h m p sent hP hread
    change track cfg m p _ h.unsent = _
    rw [hP]
    exact track_empty fun hw => absurd (hw.symm.trans hread) (by decide)
  · intro h types m p hP _ _
    change track cfg m p _ h.unsent = _
    rw [hP]
    exact track_empty fun _ => by simp [sendsWrite_of_writeThrough hthrough hfetch]
  · intro h idx hP
    simp only [replaced, hP]
    exact Function.update_eq_self idx (fun _ => (∅ : MemAccessByteMask))

/-- A cache whose writes never go into a line. -/
theorem written_eq_empty (hnone : ∀ types m status, cls = .dataCache types → m.isWrite = true →
      ¬writesLine cfg m status)
    (hsuits : ∀ s o, promise s o → System.Suits cfg o)
    (hrun : System.HistoryRun cls promise (System.init cfg mfs, init) trace s) :
    s.2.written = fun _ => ∅ := by
  refine of_run (P := fun h => h.written = fun _ => ∅) hsuits rfl ?_ ?_ ?_ hrun
  · intro h m p sent hP hread
    change track cfg m p _ h.written = _
    rw [hP]
    exact track_empty fun hw => absurd (hw.symm.trans hread) (by decide)
  · intro h types m p hP hcls hwrite
    change track cfg m p _ h.written = _
    rw [hP]
    exact track_empty fun _ => by simp [hnone types m p.status hcls hwrite]
  · intro h idx hP
    simp only [replaced, hP]
    exact Function.update_eq_self idx (fun _ => (∅ : MemAccessByteMask))

end Run

end WriteHistory

end OpenCache
