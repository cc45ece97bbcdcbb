/-
Write-through: which writes are sent to the lower level.

Under write-through no eviction writes anything back, so a write that is accepted has to be sent
down when it is accepted.  Every handler does so except `wr_miss_wa_fetch_on_write`, which neither
sends the write, when it covers a whole atom, nor lets the fill send it.

* `OpenCache.sendsWrite` — the writes that are sent to the lower level;
* `OpenCache.AccessCase.queued_write` — what an access puts into the miss queue for a write;
* `OpenCache.write_through_forwards_iff` — **a write is sent exactly once unless it misses in a
  cache that fetches on writes**, and so are all the writes of a run without such misses;
* `OpenCache.write_through_drops_full_write` — a write that is lost.
-/

import OpenCache.System

set_option relaxedAutoImplicit false
set_option autoImplicit false

namespace OpenCache

variable {cfg : CacheConfig}

/-- The tags answer `HIT` to a request. -/
def Cache.probeHits (c : Cache cfg) (m : MemFetch) : Bool :=
  match c.tagArray.probe (cfg.blockAddr m.addr) Cache.noIndex m.accessSectorMask m.isWrite with
  | .ok p => p.status = .hit
  | .error _ => false

theorem Cache.probeHits_eq {c : Cache cfg} {m : MemFetch} {p : ProbeResult}
    (h : c.Probes m.addr m p) : c.probeHits m = decide (p.status = .hit) := by
  rw [probeHits, h]

/-- A write that the tags answer with `status` is put into the miss queue: every write hit under
write-through, a write hit that evicts, and a write miss that does not go into the line, or that
goes there under write-through when the cache fetches on reads. -/
def sendsWrite (cfg : CacheConfig) (m : MemFetch) (status : CacheRequestStatus) : Prop :=
  if status = .hit then evictsOnWriteHit cfg m ∨ cfg.writePolicy = .writeThrough
  else
    cfg.writeAllocPolicy = .noWriteAllocate ∨ cfg.writeAllocPolicy = .writeAllocate ∨
      cfg.writeAllocPolicy = .lazyFetchOnRead ∧ cfg.writePolicy = .writeThrough

instance (cfg : CacheConfig) (m : MemFetch) (status : CacheRequestStatus) :
    Decidable (sendsWrite cfg m status) := by
  unfold sendsWrite
  infer_instance

theorem sendsWrite_hit {m : MemFetch} {status : CacheRequestStatus} (h : status = .hit) :
    sendsWrite cfg m status ↔ evictsOnWriteHit cfg m ∨ cfg.writePolicy = .writeThrough := by
  rw [sendsWrite, if_pos h]

theorem sendsWrite_miss {m : MemFetch} {status : CacheRequestStatus} (h : status ≠ .hit) :
    sendsWrite cfg m status ↔ cfg.writeAllocPolicy = .noWriteAllocate ∨
      cfg.writeAllocPolicy = .writeAllocate ∨
        cfg.writeAllocPolicy = .lazyFetchOnRead ∧ cfg.writePolicy = .writeThrough := by
  rw [sendsWrite, if_neg h]

/-- The miss queue has grown, by a request a given number of times among others. -/
def Queued (q q' : List Token) (mf : Token) (times : ℕ) : Prop :=
  ∃ queued, q' = q ++ queued ∧ queued.count mf = times

namespace Queued

variable {q q' q'' : List Token} {mf : Token} {n n' : ℕ}

theorem refl (q : List Token) (mf : Token) : Queued q q mf 0 :=
  ⟨[], (List.append_nil q).symm, rfl⟩

theorem self (q : List Token) (mf : Token) : Queued q (q ++ [mf]) mf 1 :=
  ⟨[mf], rfl, by simp⟩

theorem own (q : List Token) (k : ℕ) (hmf : ∀ k, mf ≠ .created k) :
    Queued q (q ++ [.created k]) mf 0 :=
  ⟨[.created k], rfl, by simp [(hmf k).symm]⟩

theorem trans (h : Queued q q' mf n) (h' : Queued q' q'' mf n') : Queued q q'' mf (n + n') := by
  obtain ⟨l, rfl, hcount⟩ := h
  obtain ⟨l', rfl, hcount'⟩ := h'
  exact ⟨l ++ l', List.append_assoc _ _ _, by rw [List.count_append, hcount, hcount']⟩

end Queued

section Access

variable {c : Cache cfg} {cls : CacheClass} {addr : NewAddrType} {mf : Token} {time : Time}
  {status : CacheRequestStatus} {s' : Core cfg}

theorem Queued.sendOwn {q : List Token} {n : ℕ} {s : Core cfg} (h : Queued q s.missQueue mf n)
    (hmf : ∀ k, mf ≠ .created k) (m : Option MemFetch) : Queued q (s.sendOwn m).missQueue mf n := by
  cases m with
  | none => exact h
  | some m => exact h.trans (.own _ _ hmf)

theorem Queued.miss {q : List Token} {n k : ℕ} {s : Core cfg} (h : Queued q s.missQueue mf n)
    (hmf : ∀ k, mf ≠ .created k) (a : NewAddrType) (idx : ℕ) (b : CacheBlock cfg.cacheType) :
    Queued q ((s.setLine idx b).miss a (.created k) idx).missQueue mf n := by
  have hset : Queued q (s.setLine idx b).missQueue mf n := h
  cases hl : (s.setLine idx b).entries.lookup a with
  | some l =>
      rw [Core.miss_of_some hl]
      simpa [Core.join] using hset
  | none =>
      rw [Core.miss_of_none hl]
      simpa [Core.join, Core.launch] using hset.trans (.own _ k hmf)

/-- What an access puts into the miss queue, for a write: the write itself, if it is one that is
sent. -/
theorem AccessCase.queued_write (hmf : ∀ k, mf ≠ .created k) (hwrite : (c.mfs mf).isWrite = true)
    (haccept : status ≠ .reservationFail) (hcase : AccessCase c cls addr mf time status s') :
    ∃ p, c.Probes addr (c.mfs mf) p ∧ Queued c.core.missQueue s'.missQueue mf
      (if sendsWrite cfg (c.mfs mf) p.status then 1 else 0) := by
  have hread : ∀ {P : Prop}, (c.core.mfs mf).isWrite = false → P := by
    intro P hread
    have hw : (c.core.mfs mf).isWrite = true := hwrite
    rw [hread] at hw
    cases hw
  have hmiss : ∀ {p : ProbeResult},
      p.status = .hitReserved ∨ p.status = .miss ∨ p.status = .sectorMiss → p.status ≠ .hit := by
    intro p hs
    rcases hs with hs | hs | hs <;> simp [hs]
  cases hcase with
  | refused => exact absurd rfl haccept
  | hit p hp hs _ line forward heffect =>
      refine ⟨p, hp, ?_⟩
      rw [(Core.respond_frame _ _ _).2.2.1]
      cases heffect with
      | read hr => exact hread hr
      | write _ _ _ hpolicy =>
          by_cases hthrough : cfg.writePolicy = .writeThrough
          · rw [if_pos ((sendsWrite_hit hs).2 (Or.inr hthrough)), decide_eq_true hthrough]
            exact .self _ _
          · rw [if_neg (by simp [sendsWrite_hit hs, hpolicy, hthrough]), decide_eq_false hthrough]
            exact .refl _ _
      | evict _ _ _ hpolicy =>
          rw [if_pos ((sendsWrite_hit hs).2 (Or.inl hpolicy))]
          exact .self _ _
  | forward p hp hs _ _ _ hpolicy =>
      refine ⟨p, hp, ?_⟩
      rw [if_pos ((sendsWrite_miss hs).2 (Or.inl hpolicy))]
      exact .self _ _
  | write p hp hs _ _ _ _ line forward heffect =>
      refine ⟨p, hp, Queued.sendOwn ?_ hmf _⟩
      have hs := hmiss hs
      cases heffect with
      | full hpolicy =>
          rw [if_neg (by simp [sendsWrite_miss hs, hpolicy])]
          exact .refl _ _
      | onRead hpolicy =>
          by_cases hthrough : cfg.writePolicy = .writeThrough
          · rw [if_pos (by simp [sendsWrite_miss hs, hpolicy, hthrough]), decide_eq_true hthrough]
            exact .self _ _
          · rw [if_neg (by simp [sendsWrite_miss hs, hpolicy, hthrough]),
              decide_eq_false hthrough]
            exact .refl _ _
  | fetch p hp hs _ reader s written hfetcher =>
      refine ⟨p, hp, Queued.sendOwn ?_ hmf _⟩
      have hs := hmiss hs
      cases hfetcher with
      | read hr => exact hread hr
      | naive _ _ _ hpolicy =>
          rw [if_pos (by simp [sendsWrite_miss hs, hpolicy])]
          exact Queued.miss (.self c.core.missQueue mf) hmf _ _ _
      | fetchOnWrite _ _ _ hpolicy =>
          rw [if_neg (by simp [sendsWrite_miss hs, hpolicy])]
          refine Queued.miss ?_ hmf _ _ _
          exact .refl _ _

/-- Only a data cache accepts a write. -/
theorem AccessCase.dataCache_of_write (hwrite : (c.mfs mf).isWrite = true)
    (haccept : status ≠ .reservationFail) (hcase : AccessCase c cls addr mf time status s') :
    ∃ types, cls = .dataCache types := by
  have hread : ∀ {P : Prop}, (c.core.mfs mf).isWrite = false → P := by
    intro P hread
    have hw : (c.core.mfs mf).isWrite = true := hwrite
    rw [hread] at hw
    cases hw
  cases hcase with
  | refused => exact absurd rfl haccept
  | hit _ _ _ _ _ _ heffect =>
      cases heffect with
      | read hr => exact hread hr
      | write _ types hcls => exact ⟨types, hcls⟩
      | evict _ types hcls => exact ⟨types, hcls⟩
  | forward _ _ _ _ types hcls => exact ⟨types, hcls⟩
  | write _ _ _ _ types hcls => exact ⟨types, hcls⟩
  | fetch _ _ _ _ _ _ _ hfetcher =>
      cases hfetcher with
      | read hr => exact hread hr
      | naive _ types hcls => exact ⟨types, hcls⟩
      | fetchOnWrite _ types hcls => exact ⟨types, hcls⟩

/-- Under write-through a write is sent, except when it misses in a cache that fetches on writes. -/
theorem AccessCase.queued (hmf : ∀ k, mf ≠ .created k) (hthrough : cfg.writePolicy = .writeThrough)
    (hwrite : (c.mfs mf).isWrite = true) (haccept : status ≠ .reservationFail)
    (hcase : AccessCase c cls (c.mfs mf).addr mf time status s') :
    Queued c.core.missQueue s'.missQueue mf
      (if cfg.writeAllocPolicy ≠ .fetchOnWrite ∨ c.probeHits (c.mfs mf) = true then 1 else 0) := by
  obtain ⟨p, hp, hqueued⟩ := hcase.queued_write hmf hwrite haccept
  have hsends : sendsWrite cfg (c.mfs mf) p.status ↔
      cfg.writeAllocPolicy ≠ .fetchOnWrite ∨ c.probeHits (c.mfs mf) = true := by
    rw [Cache.probeHits_eq hp]
    by_cases hs : p.status = .hit
    · rw [sendsWrite_hit hs, hthrough]
      simp [hs]
    · rw [sendsWrite_miss hs, hthrough]
      cases cfg.writeAllocPolicy <;> simp [hs]
  simp only [hsends] at hqueued
  exact hqueued

/-- Any access leaves what was in the miss queue, and adds itself or requests of the cache. -/
theorem AccessCase.appends (hcase : AccessCase c cls addr mf time status s') :
    ∃ queued, s'.missQueue = c.core.missQueue ++ queued ∧
      ∀ t ∈ queued, t = mf ∨ ∃ k, t = .created k := by
  have hown : ∀ (s : Core cfg) (m : Option MemFetch) (queued : List Token),
      s.missQueue = c.core.missQueue ++ queued → (∀ t ∈ queued, t = mf ∨ ∃ k, t = .created k) →
      ∃ queued, (s.sendOwn m).missQueue = c.core.missQueue ++ queued ∧
        ∀ t ∈ queued, t = mf ∨ ∃ k, t = .created k := by
    intro s m queued hs hmem
    cases m with
    | none => exact ⟨queued, hs, hmem⟩
    | some m =>
        refine ⟨queued ++ [.created s.created], ?_, ?_⟩
        · rw [← List.append_assoc, ← hs]
          rfl
        · simpa [or_imp, forall_and] using hmem
  have hself : ∀ forward : Bool, ∃ queued,
      (c.core.enqueueIf forward mf).missQueue = c.core.missQueue ++ queued ∧
        ∀ t ∈ queued, t = mf ∨ ∃ k, t = .created k := by
    rintro (_ | _)
    · exact ⟨[], (List.append_nil _).symm, by simp⟩
    · exact ⟨[mf], rfl, by simp⟩
  cases hcase with
  | refused => exact ⟨[], (List.append_nil _).symm, by simp⟩
  | hit p _ _ _ line forward =>
      obtain ⟨queued, hqueue, hmem⟩ := hself forward
      refine ⟨queued, ?_, hmem⟩
      rw [(Core.respond_frame _ _ _).2.2.1, ← hqueue]
      cases forward <;> rfl
  | forward => exact hself true
  | write p _ _ _ _ _ _ line forward =>
      obtain ⟨queued, hqueue, hmem⟩ := hself forward
      exact hown _ _ queued hqueue hmem
  | fetch p _ _ _ reader s written hfetcher =>
      have hreader : reader = mf ∨ ∃ k, reader = .created k :=
        hfetcher.reader_eq.imp (fun h => h.1) fun h => ⟨_, h.1⟩
      obtain ⟨queued, hqueue, hmem⟩ : ∃ queued, s.missQueue = c.core.missQueue ++ queued ∧
          ∀ t ∈ queued, t = mf ∨ ∃ k, t = .created k := by
        cases hfetcher with
        | naive => exact hself true
        | _ => exact hself false
      generalize hs₀ : s.setLine p.idx (c.touched addr (c.mfs mf) time p) = s₀
      have hqueue₀ : s₀.missQueue = c.core.missQueue ++ queued := by
        rw [← hs₀]
        exact hqueue
      cases hl : s₀.entries.lookup (cfg.mshrAddr (c.mfs mf).addr) with
      | some l =>
          rw [Core.miss_of_some hl]
          refine hown _ _ queued ?_ hmem
          simpa [Core.setLine, Core.join] using hqueue₀
      | none =>
          rw [Core.miss_of_none hl]
          refine hown _ _ (queued ++ [reader]) ?_ ?_
          · simp [Core.setLine, Core.join, Core.launch, hqueue₀]
          · simpa [or_imp, forall_and] using ⟨hmem, hreader⟩

end Access

/-! ### Writes that are sent down, in single accesses and in runs -/

namespace System

variable {cls : CacheClass} {sys sys' : System cfg} {o : Op} {b : Obs} {trace : List Obs}

/-- A call puts exactly one request that carries the token into the miss queue. -/
def Forwards (sys sys' : System cfg) (mf : Token) : Prop :=
  Queued sys.core.missQueue sys'.core.missQueue mf 1

/-- The condition under which a write is sent down when it is accepted. -/
def SendsWrite (sys : System cfg) (m : MemFetch) : Prop :=
  cfg.writeAllocPolicy ≠ .fetchOnWrite ∨ sys.cache.probeHits m = true

instance (sys : System cfg) (m : MemFetch) : Decidable (sys.SendsWrite m) := by
  unfold SendsWrite
  infer_instance

/-- A promise of the environment, with writes only where they are sent down. -/
def SendingPromise (sys : System cfg) (o : Op) : Prop :=
  sys.Promise o ∧
    match o with
    | .access _ m _ _ => m.isWrite = true → sys.SendsWrite m
    | _ => True

instance (sys : System cfg) (o : Op) : Decidable (sys.SendingPromise o) := by
  induction o using Op.casesOn <;> unfold SendingPromise <;> infer_instance

end System

/-- The request that an observed call has pushed to the memory port. -/
def Obs.pushed : Obs → Option Token
  | .cycle pushed => pushed
  | _ => none

/-- The write that an observed call has accepted. -/
def Obs.acceptedWrite : Obs → Option Token
  | .access mf m status _ => if m.isWrite = true ∧ status ≠ .reservationFail then some mf else none
  | _ => none

namespace System

variable {cls : CacheClass} {sys sys' : System cfg} {o : Op} {b : Obs} {trace : List Obs}

/-- The requests that a run has sent down, with those that still wait for the memory port. -/
def sentDown (trace : List Obs) (sys : System cfg) : List Token :=
  trace.filterMap Obs.pushed ++ sys.core.missQueue

/-- Every write of a token that carries writes only was sent down as often as it was accepted. -/
def AllForwarded (trace : List Obs) (sys : System cfg) : Prop :=
  ∀ n, (∀ m status joined, .access (.caller n) m status joined ∈ trace → m.isWrite = true) →
    (sentDown trace sys).count (.caller n) = (trace.filterMap Obs.acceptedWrite).count (.caller n)

/-- What an accepted write puts into the miss queue. -/
theorem queued_of_access {n : ℕ} {m : MemFetch} {time : Time} {status : CacheRequestStatus}
    (hthrough : cfg.writePolicy = .writeThrough) (hwrite : m.isWrite = true)
    (haccept : status ≠ .reservationFail)
    (hcase : AccessCase (sys.build n m) cls m.addr (.caller n) time status sys'.core) :
    Queued sys.core.missQueue sys'.core.missQueue (.caller n)
      (if sys.SendsWrite m then 1 else 0) := by
  have hm : (sys.build n m).mfs (.caller n) = m := by simp [build]
  have hcase' := System.access_of_build hcase
  have hqueued := hcase'.queued (by simp) hthrough (by rw [hm]; exact hwrite) haccept
  rw [hm] at hqueued
  exact hqueued

/-- A write is sent down in the call that accepts it exactly when it meets the condition. -/
theorem forwards_iff {n : ℕ} {m : MemFetch} {time : Time} {events : List CacheEvent}
    {status : CacheRequestStatus} {joined : Option Token}
    (hthrough : cfg.writePolicy = .writeThrough)
    (hwrite : m.isWrite = true) (haccept : status ≠ .reservationFail)
    (hstep : sys.perform cls (.access n m time events) =
      .ok (sys', .access (.caller n) m status joined)) :
    sys.Forwards sys' (.caller n) ↔ sys.SendsWrite m := by
  obtain ⟨queued, hqueue, hcount⟩ : Queued sys.core.missQueue sys'.core.missQueue (.caller n)
      (if sys.SendsWrite m then 1 else 0) := by
    cases step_cases (by trivial) hstep with
    | access _ _ _ _ _ hcase => exact queued_of_access hthrough hwrite haccept hcase
  constructor
  · rintro ⟨queued', hqueue', hone⟩
    have hsame : queued' = queued := List.append_cancel_left (hqueue'.symm.trans hqueue)
    rw [← hsame, hone] at hcount
    by_contra hne
    rw [if_neg hne] at hcount
    cases hcount
  · intro hsends
    rw [if_pos hsends] at hcount
    exact ⟨queued, hqueue, hcount⟩

/-- Appending to the miss queue appends to what was sent down. -/
theorem sentDown_of_append {queued : List Token} (hqueue : sys'.core.missQueue =
    sys.core.missQueue ++ queued) (hpush : b.pushed = none) :
    sentDown (trace ++ [b]) sys' = sentDown trace sys ++ queued := by
  simp [sentDown, hpush, hqueue]

/-- **A step keeps the count** of the writes that were sent down. -/
theorem AllForwarded.step (h : AllForwarded trace sys) (hthrough : cfg.writePolicy = .writeThrough)
    (hpromise : sys.SendingPromise o) (hstep : sys.perform cls o = .ok (sys', b)) :
    AllForwarded (trace ++ [b]) sys' := by
  intro n hwrites
  have hold := h n fun m status joined hmem => hwrites m status joined (List.mem_append_left _ hmem)
  -- all calls but an access leave the count of every request
  have hkeep : b.acceptedWrite = none → sentDown (trace ++ [b]) sys' = sentDown trace sys →
      (sentDown (trace ++ [b]) sys').count (.caller n) =
        ((trace ++ [b]).filterMap Obs.acceptedWrite).count (.caller n) := by
    intro hnone hsame
    rw [hsame, hold, List.filterMap_append]
    simp [hnone]
  have hquiet : b.acceptedWrite = none → b.pushed = none →
      sys'.core.missQueue = sys.core.missQueue →
      (sentDown (trace ++ [b]) sys').count (.caller n) =
        ((trace ++ [b]).filterMap Obs.acceptedWrite).count (.caller n) := by
    intro hnone hpush hqueue
    have happend : sys'.core.missQueue = sys.core.missQueue ++ [] := by
      rw [hqueue, List.append_nil]
    exact hkeep hnone ((sentDown_of_append happend hpush).trans (List.append_nil _))
  cases step_cases hpromise.1.suits hstep with
  | access n' m time events status hcase =>
      by_cases hn : n' = n
      · subst hn
        have hwrite := hwrites m status _ (List.mem_append_right _ (List.mem_singleton_self _))
        by_cases hfail : status = .reservationFail
        · subst hfail
          refine hquiet (by simp [Obs.acceptedWrite]) rfl ?_
          generalize sys'.core = s' at hcase
          cases hcase
          rfl
        · obtain ⟨queued, hqueue, hcount⟩ := queued_of_access hthrough hwrite hfail hcase
          rw [if_pos (hpromise.2 hwrite)] at hcount
          rw [sentDown_of_append hqueue rfl, List.count_append, hold, hcount, List.filterMap_append,
            List.count_append]
          simp [Obs.acceptedWrite, hwrite, hfail]
      · obtain ⟨queued, hqueue, hmem⟩ := hcase.appends
        have hcount : queued.count (.caller n) = 0 := by
          refine List.count_eq_zero.2 fun hin => ?_
          rcases hmem _ hin with ht | ⟨k, ht⟩
          · exact hn (Token.caller.inj ht).symm
          · cases ht
        rw [sentDown_of_append hqueue rfl, List.count_append, hold, hcount, List.filterMap_append,
          List.count_append, Nat.add_zero, left_eq_add]
        refine List.count_eq_zero.2 fun hin => ?_
        simp only [List.filterMap_cons, List.filterMap_nil, Obs.acceptedWrite] at hin
        split_ifs at hin
        · exact hn (Token.caller.inj (List.mem_singleton.1 hin)).symm
        · cases hin
  | tick _ waiting done _ hcore => exact hquiet rfl rfl (by rw [hcore]; rfl)
  | push _ waiting done _ mf rest hqueue hcore =>
      refine hkeep rfl ?_
      simp [sentDown, Obs.pushed, hcore, hqueue]
  | wait _ _ _ _ _ _ _ _ hcore => exact hquiet rfl rfl (by rw [hcore]; rfl)
  | complete o c mf time horigin e he hentry lines hfill hcore =>
      refine hquiet rfl rfl ?_
      rw [hcore]
      rcases horigin with ⟨-, rfl⟩ | ⟨n', m, -, -, rfl⟩ <;> rfl
  | ready mf rest _ _ hcore => exact hquiet rfl rfl (by rw [hcore]; simp)
  | deliver mf a rest _ _ _ _ _ hcore =>
      refine hquiet rfl rfl ?_
      rw [hcore, (Core.unpin_frame _ _).2.2.1, Core.deliver]
      split <;> rfl
  | flush hcore => exact hquiet rfl rfl (by rw [hcore]; rfl)
  | invalidate hcore => exact hquiet rfl rfl (by rw [hcore]; rfl)
  | retire mf hcore => exact hquiet rfl rfl (by rw [hcore])

end System

/-- **Write-through sends a write down exactly when it hits or the cache does not fetch on
writes**: in the call that accepts it, and, over a run in which every write does, each write of a
token as often as it was accepted. -/
theorem write_through_forwards_iff (cls : CacheClass) (hthrough : cfg.writePolicy = .writeThrough) :
    (∀ (sys sys' : System cfg) (n : ℕ) (m : MemFetch) (time : Time) (events : List CacheEvent)
      (status : CacheRequestStatus) (joined : Option Token), m.isWrite = true →
      sys.perform cls (.access n m time events) =
        .ok (sys', .access (.caller n) m status joined) →
      status ≠ .reservationFail → (sys.Forwards sys' (.caller n) ↔ sys.SendsWrite m)) ∧
    ∀ (mfs : Token → MemFetch) (trace : List Obs) (sys : System cfg),
      System.Run cls System.SendingPromise (System.init cfg mfs) trace sys →
      System.AllForwarded trace sys := by
  refine ⟨?_, ?_⟩
  · intro sys sys' n m time events status joined hwrite hstep haccept
    exact System.forwards_iff hthrough hwrite haccept hstep
  · intro mfs trace sys hrun
    refine hrun.invariant System.AllForwarded (fun n _ => rfl) ?_
    intro trace sys o sys' b h hpromise hstep
    exact h.step hthrough hpromise hstep

/-- A write miss of a cache that fetches on reads only is sent down. -/
theorem write_through_forwards_lazy :
    ∃ trace sys, System.Run (.dataCache .l1) System.SendingPromise
      (System.init (CacheConfig.small 'S' 'T' 'm' 'L' 2 true) fun _ => MemFetch.load 0) trace sys ∧
      trace.filterMap Obs.acceptedWrite = [.caller 0] ∧ System.AllForwarded trace sys := by
  obtain ⟨trace, sys, hrun, haccept⟩ :
      ∃ trace sys, System.Run (.dataCache .l1) System.SendingPromise
        (System.init (CacheConfig.small 'S' 'T' 'm' 'L' 2 true) fun _ => MemFetch.load 0)
          trace sys ∧
        trace.filterMap Obs.acceptedWrite = [.caller 0] :=
    Runs.exists_run_of_exec [.access 0 (MemFetch.store 0 (sectorBytes 0)) 0 []] (by decide)
  exact ⟨trace, sys, hrun, haccept,
    (write_through_forwards_iff (.dataCache .l1) (by decide)).2 _ trace sys hrun⟩

/-- A write-through cache that fetches on writes accepts a write of a whole sector, and sends
nothing down. -/
theorem write_through_drops_full_write :
    (CacheConfig.small 'S' 'T' 'm' 'F' 2 true).Accepted ∧
      (CacheConfig.small 'S' 'T' 'm' 'F' 2 true).writePolicy = .writeThrough ∧
      ∃ trace sys, System.Run (.dataCache .l1) System.Promise
        (System.init (CacheConfig.small 'S' 'T' 'm' 'F' 2 true) fun _ => MemFetch.load 0)
        trace sys ∧
        trace.filterMap Obs.acceptedWrite = [.caller 0] ∧ System.sentDown trace sys = [] :=
  ⟨CacheConfig.small_accepted (by decide) true, by decide,
    Runs.exists_run_of_exec [.access 0 (MemFetch.store 0 (sectorBytes 0)) 0 []] (by decide)⟩

end OpenCache
