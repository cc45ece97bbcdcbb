/-
Refused requests leave no trace.

A handler looks at the resources it needs before it does anything, and refuses the request when one
of them is missing.  Two handlers can still refuse after they have begun: the read miss handler may
find no MSHR entry, and an access to the tags may find no line.  The first looks make sure that
neither happens.  A refusal therefore records its reason in the statistics, and does nothing else.

* `OpenCache.Cache.Declines` — what a handler does if it refuses;
* `OpenCache.Cache.callHandler_declines` — **every handler records one reason**;
* `OpenCache.Cache.SameButStats` — two caches that differ in statistics only;
* `OpenCache.refused_access_changes_nothing` — **a refused access is atomic**.
-/

import OpenCache.System

set_option relaxedAutoImplicit false
set_option autoImplicit false

namespace OpenCache

namespace Cache

variable {cfg : CacheConfig}

/-- If the step refuses, it has recorded one of the given reasons and done nothing else. -/
def Declines (R : CacheReservationFailReason → Prop) (c : Cache cfg) (m : MemFetch)
    (events : List CacheEvent) (x : Step (Handled cfg)) : Prop :=
  ∀ c' events', x = .ok (c', .reservationFail, events') →
    ∃ reason, R reason ∧ c' = c.incFailStats m reason ∧ events' = events

namespace Declines

variable {R : CacheReservationFailReason → Prop} {c : Cache cfg} {m : MemFetch}
  {events : List CacheEvent}

theorem refuse {reason : CacheReservationFailReason} (h : R reason) :
    Declines R c m events (.ok (c.incFailStats m reason, .reservationFail, events)) := by
  intro c' events' h'
  cases h'
  exact ⟨reason, h, rfl, rfl⟩

theorem accept {c' : Cache cfg} {status : CacheRequestStatus} {events' : List CacheEvent}
    (h : status ≠ .reservationFail) : Declines R c m events (.ok (c', status, events')) := by
  intro c'' events'' h'
  cases h'
  exact absurd rfl h

theorem error (e : Abort) : Declines R c m events (.error e) := by
  intro c' events' h
  cases h

theorem bind {α : Type} {x : Step α} {f : α → Step (Handled cfg)}
    (h : ∀ a, x = .ok a → Declines R c m events (f a)) : Declines R c m events (x >>= f) := by
  intro c' events' h'
  obtain ⟨a, ha, h'⟩ := bind_eq_ok.1 h'
  exact h a ha c' events' h'

theorem ite {p : Prop} [Decidable p] {x y : Step (Handled cfg)} (hx : p → Declines R c m events x)
    (hy : ¬p → Declines R c m events y) : Declines R c m events (if p then x else y) := by
  split
  · next hp => exact hx hp
  · next hp => exact hy hp

end Declines

/-! ### The handlers -/

section Hits

variable {R : CacheReservationFailReason → Prop} (hR : R .missQueueFull) {c : Cache cfg}
  {addr : NewAddrType} {mf : Token}

include hR

theorem wrHitWt_declines (idx : ℕ) (time : Time) (events : List CacheEvent) :
    Declines R c (c.mfs mf) events (c.wrHitWt addr idx mf time events) :=
  .ite (fun _ => .refuse hR) fun _ =>
    .bind fun _ _ => .bind fun _ _ => .bind fun _ _ => .accept (by simp)

theorem wrHitWe_declines (idx : ℕ) (events : List CacheEvent) :
    Declines R c (c.mfs mf) events (c.wrHitWe idx mf events) :=
  .ite (fun _ => .refuse hR) fun _ => .bind fun _ _ => .accept (by simp)

/-- A write that finds its block is refused because the miss queue is full. -/
theorem wrHit_declines (idx : ℕ) (time : Time) (events : List CacheEvent) :
    Declines R c (c.mfs mf) events (c.wrHit addr idx mf time events) := by
  have hwb : Declines R c (c.mfs mf) events (c.wrHitWb addr idx mf time events) :=
    .bind fun _ _ => .bind fun _ _ => .bind fun _ _ => .accept (by simp)
  unfold wrHit
  split
  · exact .error _
  · exact hwb
  · exact wrHitWt_declines hR idx time events
  · exact wrHitWe_declines hR idx events
  · exact .ite (fun _ => wrHitWe_declines hR idx events) fun _ => hwb

end Hits

section Handlers

variable {R : CacheReservationFailReason → Prop}
  (hR : ∀ reason, reason ≠ .mshrRwPending → R reason) {c : Cache cfg} {addr : NewAddrType}
  {mf : Token} {p : ProbeResult}

include hR

theorem wrMissNoWa_declines (events : List CacheEvent) :
    Declines R c (c.mfs mf) events (c.wrMissNoWa mf events) :=
  .ite (fun _ => .refuse (hR _ (by simp))) fun _ => .accept (by simp)

/-- A fetch is refused because the miss queue, the table or an entry is full. -/
theorem fetchRefusal_declines (numMiss : ℕ) (a : NewAddrType) (unreachable : Abort) (m : MemFetch)
    (events : List CacheEvent) :
    Declines R c m events ((c.fetchRefusal numMiss a unreachable).bind fun reason =>
      .ok (c.incFailStats m reason, .reservationFail, events)) := by
  refine .bind fun reason hreason => .refuse (hR _ ?_)
  rintro rfl
  unfold fetchRefusal at hreason
  dsimp only at hreason
  split_ifs at hreason <;> cases hreason

end Handlers

/-- A fetch that is not refused has an entry to join, or room for a new one. -/
theorem full_eq_false_of_fetchRefused {c : Cache cfg} {numMiss : ℕ} {a : NewAddrType}
    (h : c.fetchRefused numMiss a = false) : c.mshrs.full a = false := by
  unfold fetchRefused at h
  cases hfull : c.mshrs.full a with
  | false => rfl
  | true => simp [hfull] at h

/-- The read miss handler gives up only when the table, or the entry, is full. -/
theorem sendReadRequest_declines {c c' : Cache cfg} {blockAddr : NewAddrType} {idx : ℕ} {mf : Token}
    {time : Time} {events : List CacheEvent} {readOnly wa : Bool} {r : SendResult}
    (h : c.sendReadRequest blockAddr idx mf time events readOnly wa = .ok (c', r))
    (hmiss : r.doMiss = false) :
    c.mshrs.full (cfg.mshrAddr (c.mfs mf).addr) = true ∧ r.events = events ∧
      ∃ reason, reason ≠ .mshrRwPending ∧ c' = c.incFailStats (c.mfs mf) reason := by
  unfold sendReadRequest at h
  dsimp only at h
  split at h
  · obtain ⟨⟨c₁, r₁⟩, -, h⟩ := bind_eq_ok.1 h
    cases h
    cases hmiss
  · split at h
    · obtain ⟨⟨c₁, r₁⟩, -, h⟩ := bind_eq_ok.1 h
      cases h
      cases hmiss
    · split at h
      · next hfull =>
          cases h
          exact ⟨by simpa using (Bool.and_eq_true_iff.1 hfull).2, rfl, _, by simp, rfl⟩
      · split at h
        · next hfull =>
            cases h
            exact ⟨by simpa using (Bool.and_eq_true_iff.1 hfull).2, rfl, _, by simp, rfl⟩
        · cases h

/-- After a probe that is no refusal, the access to the tags is none. -/
theorem access_ne_reservationFail {c : Cache cfg} {addr : NewAddrType} {m : MemFetch}
    {p : ProbeResult} (hp : c.Probes addr m p) (hfail : p.status ≠ .reservationFail) {idx : ℕ}
    {time : Time} {ta : TagArray cfg} {r : AccessResult}
    (h : c.tagArray.access (cfg.blockAddr addr) time idx m = .ok (ta, r)) :
    r.status ≠ .reservationFail := by
  obtain ⟨p', hp', -, hstatus, -⟩ := TagArray.access_eq_ok h
  rw [TagArray.probe_idx hp hfail idx] at hp'
  rw [hstatus, ← Except.ok.inj hp']
  exact hfail

section Misses

variable {R : CacheReservationFailReason → Prop}
  (hR : ∀ reason, reason ≠ .mshrRwPending → R reason) {c : Cache cfg} {addr : NewAddrType}
  {mf : Token} {p : ProbeResult} (hp : c.Probes addr (c.mfs mf) p)
  (hfail : p.status ≠ .reservationFail)

include hR

theorem rdMissBase_declines (types : DataCacheTypes) (idx : ℕ) (time : Time)
    (events : List CacheEvent) :
    Declines R c (c.mfs mf) events (c.rdMissBase types addr idx mf time events) := by
  refine .ite (fun _ => .refuse (hR _ (by simp))) fun _ => .bind fun a ha => ?_
  obtain ⟨c₁, r⟩ := a
  refine .ite (fun _ => .accept (by simp)) fun hmiss => ?_
  obtain ⟨-, hevents, reason, hreason, rfl⟩ := sendReadRequest_declines ha (by simpa using hmiss)
  simp only [hevents]
  exact .refuse (hR _ hreason)

theorem wrMissWaNaive_declines (types : DataCacheTypes) (idx : ℕ) (time : Time)
    (events : List CacheEvent) (status : CacheRequestStatus) :
    Declines R c (c.mfs mf) events (c.wrMissWaNaive types addr idx mf time events status) := by
  refine .ite (fun _ => fetchRefusal_declines hR _ _ _ _ _) fun hroom => .bind fun a ha => ?_
  obtain ⟨c₁, r⟩ := a
  refine .ite (fun _ => .bind fun _ _ => .accept (by simp)) fun hmiss => ?_
  obtain ⟨hfull, -⟩ := sendReadRequest_declines ha (by simpa using hmiss)
  have havail := full_eq_false_of_fetchRefused (by simpa using hroom)
  -- the room that was looked for is still there
  simp [MemFetch.new, havail] at hfull

theorem wrMissWaFetchOnWritePartial_declines
    (hguard : c.mshrs.isReadAfterWritePending (fun t => (c.mfs t).isWrite)
      (cfg.mshrAddr (c.mfs mf).addr) = true → R .mshrRwPending) (types : DataCacheTypes) (idx : ℕ)
    (time : Time) (events : List CacheEvent) :
    Declines R c (c.mfs mf) events
      (c.wrMissWaFetchOnWritePartial types addr idx mf time events) := by
  refine .ite (fun _ => fetchRefusal_declines hR _ _ _ _ _) fun hroom =>
    .ite (fun hpending => .refuse (hguard ?_)) fun _ => .bind fun a ha => .bind fun _ _ => ?_
  · exact (Bool.and_eq_true_iff.1 (Bool.and_eq_true_iff.1 hpending).1).2
  · obtain ⟨c₁, r⟩ := a
    refine .ite (fun _ => .accept (by simp)) fun hmiss => ?_
    obtain ⟨hfull, -⟩ := sendReadRequest_declines ha (by simpa using hmiss)
    have havail := full_eq_false_of_fetchRefused (by simpa using hroom)
    simp [MemFetch.new, havail] at hfull

include hp hfail

theorem wrMissWaFetchOnWriteFull_declines (types : DataCacheTypes) (idx : ℕ) (time : Time)
    (events : List CacheEvent) :
    Declines R c (c.mfs mf) events (c.wrMissWaFetchOnWriteFull types addr idx mf time events) := by
  refine .ite (fun _ => .refuse (hR _ (by simp))) fun _ => .bind fun a ha => .bind fun _ _ =>
    .bind fun _ _ => .bind fun _ _ => .ite (fun _ => .accept (by simp)) fun hstatus => ?_
  exact absurd (not_not.1 hstatus) (access_ne_reservationFail hp hfail ha)

theorem wrMissWaLazyFetchOnRead_declines (types : DataCacheTypes) (idx : ℕ) (time : Time)
    (events : List CacheEvent) :
    Declines R c (c.mfs mf) events (c.wrMissWaLazyFetchOnRead types addr idx mf time events) := by
  unfold wrMissWaLazyFetchOnRead
  refine .ite (fun _ => .refuse (hR _ (by simp))) fun _ => ?_
  split
  next c₁ events₁ hc₁ =>
  have hta : c₁.tagArray = c.tagArray := by
    split at hc₁ <;> cases hc₁ <;> rfl
  rw [hta]
  refine .bind fun a ha => .bind fun _ _ => .bind fun _ _ => .bind fun _ _ => .bind fun _ _ =>
    .ite (fun _ => .accept (by simp)) fun hstatus => ?_
  exact absurd (not_not.1 hstatus) (access_ne_reservationFail hp hfail ha)

end Misses

/-! ### The entry points -/

section Access

variable {R : CacheReservationFailReason → Prop}
  (hR : ∀ reason, reason ≠ .mshrRwPending → R reason) {c : Cache cfg} {addr : NewAddrType}
  {mf : Token} {p : ProbeResult} (hp : c.Probes addr (c.mfs mf) p)
  (hlast : c.tagArray.lastFailReason ≠ .mshrRwPending)

include hR hlast

/-- What the tags have refused is recorded with the reason they left. -/
theorem lastFailReason_declines (status : CacheRequestStatus) (events : List CacheEvent) :
    Declines R c (c.mfs mf) events
      (.ok (c.incFailStats (c.mfs mf) c.tagArray.lastFailReason, status, events)) := by
  by_cases hstatus : status = .reservationFail
  · rw [hstatus]
    exact .refuse (hR _ hlast)
  · exact .accept hstatus

include hp

/-- **Every handler records one reason if it refuses**, and does nothing else. -/
theorem callHandler_declines
    (hguard : c.mshrs.isReadAfterWritePending (fun t => (c.mfs t).isWrite)
      (cfg.mshrAddr (c.mfs mf).addr) = true → R .mshrRwPending) (types : DataCacheTypes) (wr : Bool)
    (idx : ℕ) (time : Time) (events : List CacheEvent) :
    Declines R c (c.mfs mf) events
      (c.callHandler types wr p.status addr idx mf time events) := by
  have hlastFail : Declines R c (c.mfs mf) events
      (.ok (c.incFailStats (c.mfs mf) c.tagArray.lastFailReason, p.status, events)) :=
    lastFailReason_declines hR hlast p.status events
  refine .ite (fun _ => .ite (fun _ => wrHit_declines (hR _ (by simp)) idx time events) fun hhit =>
      .ite (fun hor => ?_) fun _ => hlastFail)
    fun _ => .ite (fun _ => .bind fun _ _ => .accept (by simp)) fun _ =>
      .ite (fun _ => rdMissBase_declines hR types idx time events) fun _ => hlastFail
  by_cases hfail : p.status = .reservationFail
  · rw [wrMiss, hor.resolve_left (not_not_intro hfail)]
    exact wrMissNoWa_declines hR events
  · unfold wrMiss
    split
    · exact wrMissNoWa_declines hR events
    · exact wrMissWaNaive_declines hR types idx time events p.status
    · exact .ite (fun _ => wrMissWaFetchOnWriteFull_declines hR hp hfail types idx time events)
        fun _ => wrMissWaFetchOnWritePartial_declines hR hguard types idx time events
    · exact wrMissWaLazyFetchOnRead_declines hR hp hfail types idx time events

theorem processTagProbe_declines
    (hguard : c.mshrs.isReadAfterWritePending (fun t => (c.mfs t).isWrite)
      (cfg.mshrAddr (c.mfs mf).addr) = true → R .mshrRwPending) (types : DataCacheTypes) (wr : Bool)
    (idx : ℕ) (time : Time) (events : List CacheEvent) :
    Declines R c (c.mfs mf) events
      (c.processTagProbe types wr p.status addr idx mf time events) := by
  refine .ite (fun _ => ?_) fun _ => ?_
  · exact .refuse (hR _ (by simp))
  · intro c' events' h
    obtain ⟨⟨c₁, status, events₁⟩, hcall, h⟩ := bind_eq_ok.1 h
    obtain ⟨c₂, hport, h⟩ := bind_eq_ok.1 h
    cases h
    -- the port is not used, and no response is queued, for a request that is refused
    simp only [reduceCtorEq, and_false, if_false, useDataPort] at hport
    cases hport
    exact callHandler_declines hR hp hlast hguard types wr idx time events _ _ hcall

theorem readOnlyTagProbe_declines (time : Time) (events : List CacheEvent) :
    Declines R c (c.mfs mf) events (c.readOnlyTagProbe p addr mf time events) := by
  refine .ite (fun hhit => .ite (fun _ => .refuse (hR _ (by simp))) fun _ => .bind fun a ha => ?_)
    fun _ => .ite (fun _ => .ite (fun _ => .refuse (hR _ (by simp))) fun _ =>
      .bind fun a ha => ?_) fun _ => lastFailReason_declines hR hlast _ _
  · obtain ⟨ta, r⟩ := a
    have hstatus : r.status ≠ .reservationFail :=
      access_ne_reservationFail hp (by simp [hhit]) (TagArray.accessNoWriteback_eq_ok ha)
    exact .ite (fun _ => .accept hstatus) fun _ => .accept hstatus
  · obtain ⟨c₁, r⟩ := a
    by_cases hmiss : r.doMiss = true
    · simp only [hmiss, if_true]
      exact .accept (by simp)
    · obtain ⟨-, hevents, reason, hreason, rfl⟩ :=
        sendReadRequest_declines ha (by simpa using hmiss)
      simp only [hmiss, hevents]
      exact .refuse (hR _ hreason)

end Access

/-- A probe blames the lines. -/
theorem probe_failReason {ta : TagArray cfg} {addr : NewAddrType} {idx : ℕ}
    {mask : MemAccessSectorMask} {isWrite : Bool} {p : ProbeResult}
    (h : ta.probe addr idx mask isWrite = .ok p) : p.failReason ≠ .mshrRwPending := by
  obtain ⟨setIndex, -, h⟩ := bind_eq_ok.1 h
  obtain ⟨r, -, h⟩ := bind_eq_ok.1 h
  cases r with
  | found status index =>
      cases h
      simp
  | exhausted s =>
      simp only at h
      split at h
      · obtain ⟨_, -, h⟩ := bind_eq_ok.1 h
        cases h
        dsimp only
        split <;> simp
      · split at h <;> cases h <;> simp

/-- Two caches that differ in statistics, and in the reason of the last probe, only. -/
def SameButStats (c c' : Cache cfg) : Prop :=
  ∃ stats statsPw failStats lastFailReason,
    c' = { c with
      stats := { c.stats with stats, statsPw, failStats }
      tagArray := { c.tagArray with lastFailReason } }

/-- A refused access has recorded one reason, and that it was refused. -/
theorem access_declines {R : CacheReservationFailReason → Prop} {c c' : Cache cfg}
    {addr : NewAddrType} {mf : Token} (hR : ∀ reason, reason ≠ .mshrRwPending → R reason)
    (hguard : c.mshrs.isReadAfterWritePending (fun t => (c.mfs t).isWrite)
      (cfg.mshrAddr (c.mfs mf).addr) = true → R .mshrRwPending) {cls : CacheClass} {time : Time}
    {events events' : List CacheEvent}
    (h : c.access cls addr mf time events = .ok (c', .reservationFail, events')) :
    events' = events ∧ ∃ reason, ∃ p : ProbeResult, R reason ∧
      c' = (({ c with tagArray := { c.tagArray with lastFailReason := p.failReason } } :
        Cache cfg).incFailStats (c.mfs mf) reason).countAccess (c.mfs mf) p.status
          .reservationFail := by
  have hdone : ∀ (p : ProbeResult) (x : Step (Handled cfg)),
      Declines R ({ c with tagArray := { c.tagArray with lastFailReason := p.failReason } })
        (c.mfs mf) events x →
      (x.bind fun r => .ok (r.1.countAccess (c.mfs mf) p.status r.2.1, r.2.1, r.2.2)) =
        .ok (c', .reservationFail, events') →
      events' = events ∧ ∃ reason, ∃ p : ProbeResult, R reason ∧
        c' = (({ c with tagArray := { c.tagArray with lastFailReason := p.failReason } } :
          Cache cfg).incFailStats (c.mfs mf) reason).countAccess (c.mfs mf) p.status
            .reservationFail := by
    intro p x hx h
    obtain ⟨⟨c₁, status, events₁⟩, hcall, h⟩ := bind_eq_ok.1 h
    cases h
    obtain ⟨reason, hreason, rfl, rfl⟩ := hx _ _ hcall
    exact ⟨rfl, reason, p, hreason, rfl⟩
  cases cls with
  | readOnlyCache =>
      obtain ⟨_, -, h⟩ := bind_eq_ok.1 h
      obtain ⟨_, -, h⟩ := bind_eq_ok.1 h
      obtain ⟨_, -, h⟩ := bind_eq_ok.1 h
      obtain ⟨⟨c₁, p⟩, hprobe, h⟩ := bind_eq_ok.1 h
      obtain ⟨rfl, hp⟩ := probeTags_eq_ok hprobe
      exact hdone p _ (readOnlyTagProbe_declines hR hp (probe_failReason hp) time events) h
  | dataCache types =>
      obtain ⟨_, -, h⟩ := bind_eq_ok.1 h
      obtain ⟨_, -, h⟩ := bind_eq_ok.1 h
      obtain ⟨⟨c₁, p⟩, hprobe, h⟩ := bind_eq_ok.1 h
      obtain ⟨rfl, hp⟩ := probeTags_eq_ok hprobe
      exact hdone p _ (processTagProbe_declines hR hp (probe_failReason hp) hguard types _ _ time
        events) h

end Cache

/-- **A refused access is atomic**: whatever the state, the configuration and the request, it leaves
the events and all of the cache as they were, except the statistics of outcomes and of reasons and
the reason of the last probe. -/
theorem refused_access_changes_nothing {cfg : CacheConfig} {c c' : Cache cfg} {cls : CacheClass}
    {addr : NewAddrType} {mf : Token} {time : Time} {events events' : List CacheEvent}
    (h : c.access cls addr mf time events = .ok (c', .reservationFail, events')) :
    c.SameButStats c' ∧ events' = events := by
  obtain ⟨hevents, reason, p, -, rfl⟩ :=
    @Cache.access_declines cfg (fun _ => True) c c' addr mf (fun _ _ => trivial) (fun _ => trivial)
      cls time events events' h
  exact ⟨⟨_, _, _, _, rfl⟩, hevents⟩

/-- In a set whose only way is reserved, a read of another block is refused. -/
theorem refused_access_changes_nothing_reserved :
    ∃ trace sys, System.Run (.dataCache .l1) System.Promise
      (System.init (CacheConfig.small 'S' 'B' 'm' 'L' 1 true) fun _ => MemFetch.load 0) trace sys ∧
      ∃ c' events', (sys.build 1 (MemFetch.load 128)).access (.dataCache .l1) 128 (.caller 1) 1 [] =
        .ok (c', .reservationFail, events') ∧
        (sys.build 1 (MemFetch.load 128)).SameButStats c' ∧ events' = [] := by
  obtain ⟨trace, sys, hrun, hrefused⟩ :
      ∃ trace sys, System.Run (.dataCache .l1) System.Promise
        (System.init (CacheConfig.small 'S' 'B' 'm' 'L' 1 true) fun _ => MemFetch.load 0)
          trace sys ∧
        (((sys.build 1 (MemFetch.load 128)).access (.dataCache .l1) 128 (.caller 1) 1
          []).toOption.map fun r => r.2.1) = some .reservationFail :=
    Runs.exists_run_of_exec [.access 0 (MemFetch.load 0) 0 []] (by decide)
  refine ⟨trace, sys, hrun, ?_⟩
  cases haccess : (sys.build 1 (MemFetch.load 128)).access (.dataCache .l1)
    128 (.caller 1) 1 [] with
  | error e =>
      rw [haccess] at hrefused
      cases hrefused
  | ok r =>
      obtain ⟨c', status, events'⟩ := r
      rw [haccess] at hrefused
      obtain rfl : status = .reservationFail := Option.some_inj.1 hrefused
      obtain ⟨hsame, hevents⟩ := refused_access_changes_nothing haccess
      exact ⟨c', events', rfl, hsame, hevents⟩

end OpenCache
