/-
The back-pressure of deferred hits.

An accepted hit waits in the hit response queue until its delay ends; `cycle` then moves it to the
ready response queue, where it waits for `next_access`.  A hit is refused while the first queue is
full.  The second has no limit, so the hits that wait in both of them do not have one either.

* `OpenCache.Cache.refusedFor_hitResponseQueueFull_iff` — **which accesses the queue refuses**;
* `OpenCache.Core.hitsHeld` — the hits that wait in the two queues;
* `OpenCache.hits_balance` — over every run, the hits accepted are those returned and those that
  wait;
* `OpenCache.hits_bounded_iff` — **the bound holds, and refusals enforce it, exactly while no access
  finds its block when hits wait to be taken and the two queues have no room**;
* `OpenCache.hits_pile_up` — a consumer that takes nothing is owed more hits than the
  queue can hold.
-/

import OpenCache.Hazards

set_option relaxedAutoImplicit false
set_option autoImplicit false

namespace OpenCache

variable {cfg : CacheConfig}

/-! ### Which accesses the full queue refuses -/

namespace Cache

/-- The tags answer `HIT`. -/
def findsBlock (c : Cache cfg) (addr : NewAddrType) (m : MemFetch) : Bool :=
  match c.tagArray.probe (cfg.blockAddr addr) noIndex m.accessSectorMask m.isWrite with
  | .ok p => p.status = .hit
  | .error _ => false

variable {c c' : Cache cfg} {cls : CacheClass} {addr : NewAddrType} {mf : Token} {time : Time}
  {events events' : List CacheEvent} {status : CacheRequestStatus} {p : ProbeResult}

theorem findsBlock_iff {m : MemFetch} (hp : c.Probes addr m p) :
    c.findsBlock addr m = true ↔ p.status = .hit := by
  have hprobe : c.tagArray.probe (cfg.blockAddr addr)
      noIndex m.accessSectorMask m.isWrite = .ok p :=
    hp
  simp [findsBlock, hprobe]

theorem readOnlyTagProbe_of_full (hhit : p.status = .hit) (hfull : c.hitResponseQueueFull = true) :
    c.readOnlyTagProbe p addr mf time events =
      .ok (c.incFailStats (c.mfs mf) .hitResponseQueueFull, .reservationFail, events) := by
  have hdefer := (Bool.and_eq_true_iff.1 hfull).1
  rw [readOnlyTagProbe, if_pos hhit, if_pos (by rw [hdefer, hfull]; rfl)]
  rfl

theorem processTagProbe_of_full (types : DataCacheTypes) (wr : Bool) (idx : ℕ)
    (hfull : c.hitResponseQueueFull = true) :
    c.processTagProbe types wr .hit addr idx mf time events =
      .ok (c.incFailStats (c.mfs mf) .hitResponseQueueFull, .reservationFail, events) := by
  have hdefer := (Bool.and_eq_true_iff.1 hfull).1
  rw [processTagProbe, if_pos ⟨rfl, hdefer, hfull⟩]
  rfl

/-- A read-only cache accepts every request that finds its block, while the queue is not full. -/
theorem readOnlyTagProbe_declines_of_hit (hp : c.Probes addr (c.mfs mf) p)
    (hhit : p.status = .hit) (hroom : c.hitResponseQueueFull = false) :
    Declines (.missQueueFull = ·) c (c.mfs mf) events
      (c.readOnlyTagProbe p addr mf time events) := by
  refine .ite (fun _ => .ite (fun hfull => ?_) fun _ => .bind fun a ha => ?_) fun hnot =>
    absurd hhit hnot
  · rw [hroom, Bool.and_false] at hfull
    cases hfull
  · obtain ⟨ta, r⟩ := a
    have hstatus : r.status ≠ .reservationFail :=
      access_ne_reservationFail hp (by simp [hhit]) (TagArray.accessNoWriteback_eq_ok ha)
    exact .ite (fun _ => .accept hstatus) fun _ => .accept hstatus

/-- A data cache refuses a request that finds its block, while the queue is not full, for want of
room in the miss queue only. -/
theorem processTagProbe_declines_of_hit (types : DataCacheTypes) (wr : Bool) (idx : ℕ)
    (hroom : c.hitResponseQueueFull = false) :
    Declines (.missQueueFull = ·) c (c.mfs mf) events
      (c.processTagProbe types wr .hit addr idx mf time events) := by
  refine .ite (fun hfull => ?_) fun _ => ?_
  · rw [hroom] at hfull
    cases hfull.2.2
  · intro c' events' h
    obtain ⟨⟨c₁, status, events₁⟩, hcall, h⟩ := bind_eq_ok.1 h
    obtain ⟨c₂, hport, h⟩ := bind_eq_ok.1 h
    cases h
    simp only [reduceCtorEq, and_false, if_false, useDataPort] at hport
    cases hport
    have hhandler : Declines (.missQueueFull = ·) c (c.mfs mf) events
        (c.callHandler types wr .hit addr idx mf time events) :=
      .ite (fun _ => .ite (fun _ => wrHit_declines rfl idx time events) fun hnot => absurd rfl hnot)
        fun _ => .ite (fun _ => .bind fun _ _ => .accept (by simp)) fun hnot => absurd rfl hnot
    exact hhandler _ _ hcall

/-- What the handlers of a class do with the answer of the tags. -/
def handlers (c : Cache cfg) (cls : CacheClass) (p : ProbeResult) (addr : NewAddrType) (mf : Token)
    (time : Time) (events : List CacheEvent) : Step (Handled cfg) :=
  match cls with
  | .readOnlyCache => c.readOnlyTagProbe p addr mf time events
  | .dataCache types => c.processTagProbe types (c.mfs mf).isWrite p.status addr
      p.idx mf time events

theorem handlers_of_full (hhit : p.status = .hit) (hfull : c.hitResponseQueueFull = true) :
    c.handlers cls p addr mf time events =
      .ok (c.incFailStats (c.mfs mf) .hitResponseQueueFull, .reservationFail, events) := by
  cases cls with
  | readOnlyCache => exact readOnlyTagProbe_of_full hhit hfull
  | dataCache types =>
      rw [handlers, hhit]
      exact processTagProbe_of_full types _ _ hfull

theorem handlers_declines (hp : c.Probes addr (c.mfs mf) p) (hhit : p.status = .hit)
    (hroom : c.hitResponseQueueFull = false) :
    Declines (.missQueueFull = ·) c (c.mfs mf) events (c.handlers cls p addr mf time events) := by
  cases cls with
  | readOnlyCache => exact readOnlyTagProbe_declines_of_hit hp hhit hroom
  | dataCache types =>
      rw [handlers, hhit]
      exact processTagProbe_declines_of_hit types _ _ hroom

/-- An access that finds its block gives the answer of the tags to the handlers of its class, and
counts the outcome.  The probe has left its mark in the tags only. -/
theorem access_of_hit (hfinds : c.findsBlock addr (c.mfs mf) = true)
    (h : c.access cls addr mf time events = .ok (c', status, events')) :
    ∃ (p : ProbeResult) (c₀ c₁ : Cache cfg), c₀.mfs = c.mfs ∧ c₀.stats = c.stats ∧
      c₀.hitResponseQueueFull = c.hitResponseQueueFull ∧ c₀.Probes addr (c.mfs mf) p ∧
      p.status = .hit ∧ c₀.handlers cls p addr mf time events = .ok (c₁, status, events') ∧
      c' = c₁.countAccess (c.mfs mf) p.status status := by
  cases cls with
  | readOnlyCache =>
      obtain ⟨_, -, h⟩ := bind_eq_ok.1 h
      obtain ⟨_, -, h⟩ := bind_eq_ok.1 h
      obtain ⟨_, -, h⟩ := bind_eq_ok.1 h
      obtain ⟨⟨c₀, p⟩, hprobe, h⟩ := bind_eq_ok.1 h
      obtain ⟨⟨c₁, status₁, events₁⟩, hdone, h⟩ := bind_eq_ok.1 h
      cases h
      have hhit := (findsBlock_iff (probes_of_probeTags hprobe)).1 hfinds
      obtain ⟨hc₀, hp⟩ := probeTags_eq_ok hprobe
      exact ⟨p, c₀, c₁, by rw [hc₀], by rw [hc₀], by rw [hc₀]; rfl, hp, hhit, hdone, rfl⟩
  | dataCache types =>
      obtain ⟨_, -, h⟩ := bind_eq_ok.1 h
      obtain ⟨_, -, h⟩ := bind_eq_ok.1 h
      obtain ⟨⟨c₀, p⟩, hprobe, h⟩ := bind_eq_ok.1 h
      obtain ⟨⟨c₁, status₁, events₁⟩, hdone, h⟩ := bind_eq_ok.1 h
      cases h
      have hhit := (findsBlock_iff (probes_of_probeTags hprobe)).1 hfinds
      obtain ⟨hc₀, hp⟩ := probeTags_eq_ok hprobe
      have hmfs : c₀.mfs = c.mfs := by rw [hc₀]
      refine ⟨p, c₀, c₁, hmfs, by rw [hc₀], by rw [hc₀]; rfl, hp, hhit, ?_, rfl⟩
      rw [handlers, hmfs]
      exact hdone

/-- **The queue refuses exactly while it is full**: among the requests that find their block, those
that come while the hit response queue is full are refused for it, and no other is. -/
theorem refusedFor_hitResponseQueueFull_iff (hfinds : c.findsBlock addr (c.mfs mf) = true)
    (h : c.access cls addr mf time events = .ok (c', status, events')) :
    c.RefusedFor cls addr mf time events .hitResponseQueueFull ↔
      c.hitResponseQueueFull = true := by
  constructor
  · rintro ⟨c₂, events₂, h₂, hcounted⟩
    by_contra hnot
    obtain ⟨p, c₀, c₁, hmfs, hstats, hqueue, hp, hhit, hdone, rfl⟩ := access_of_hit hfinds h₂
    have hroom : c₀.hitResponseQueueFull = false := by simpa [hqueue] using hnot
    rw [← hmfs] at hp
    obtain ⟨reason, rfl, rfl, -⟩ := handlers_declines hp hhit hroom _ _ hdone
    -- the counter of another reason has moved
    have hcount := congrArg (fun t => t.get (c.mfs mf).streamID (c.mfs mf).accessType
      .hitResponseQueueFull) hcounted
    simp only [countAccess, incFailStats, CacheStats.incStats, CacheStats.incStatsPw,
      CacheStats.incFailStats, StatTable.get_inc, hmfs, hstats, reduceCtorEq, if_true, if_false]
      at hcount
    omega
  · intro hfull
    obtain ⟨p, c₀, c₁, hmfs, hstats, hqueue, -, hhit, hdone, rfl⟩ := access_of_hit hfinds h
    rw [handlers_of_full hhit (hqueue.trans hfull)] at hdone
    cases hdone
    refine ⟨_, _, h, ?_⟩
    rw [← hmfs, ← hstats]
    rfl

end Cache

/-! ### The hits that wait -/

/-- The hits that wait in the two response queues. -/
def Core.hitsHeld (s : Core cfg) : ℕ := s.hitQueue.length + s.readyQueue.length

namespace Obs

/-- An access was accepted as a hit. -/
def acceptedHit : Obs → Bool
  | .access _ _ status _ => status = .hit
  | _ => false

/-- A hit was returned. -/
def returnedHit : Obs → Bool
  | .nextAccess _ _ entry => entry.isNone
  | _ => false

end Obs

/-- With deferred responses, a hit is one more that waits, and every other access none. -/
theorem AccessCase.hitsHeld {c : Cache cfg} {cls : CacheClass} {addr : NewAddrType} {mf : Token}
    {time : Time} {status : CacheRequestStatus} {s' : Core cfg}
    (hdefer : cfg.deferHitResponse = true)
    (hcase : AccessCase c cls addr mf time status s') :
    s'.hitsHeld = c.core.hitsHeld + if status = .hit then 1 else 0 := by
  cases hcase with
  | refused => simp
  | hit p _ _ _ line forward =>
      have hrespond : ∀ s : Core cfg, (s.respond mf p.idx).hitsHeld = s.hitsHeld + 1 := by
        intro s
        simp only [Core.hitsHeld, Core.respond, if_pos hdefer, List.length_append,
          List.length_singleton, Core.pin, Core.setLine]
        omega
      rw [hrespond]
      simp [Core.hitsHeld, Core.setLine]
  | forward => simp [Core.hitsHeld, Core.enqueue]
  | write => simp [Core.hitsHeld, Core.setLine]
  | fetch p _ _ _ reader s written hfetcher =>
      obtain ⟨-, -, -, -, hhit, hready, -⟩ := hfetcher.frame
      simp [Core.hitsHeld, Core.setLine, hhit, hready]

namespace System

variable {cls : CacheClass} {sys sys' : System cfg} {o : Op} {b : Obs}

/-- One step: a hit that is accepted waits, and a hit that is returned waits no longer. -/
theorem hitsHeld_step (hdefer : cfg.deferHitResponse = true) (hsuits : Suits cfg o)
    (hperform : sys.perform cls o = .ok (sys', b)) :
    sys'.core.hitsHeld + (if b.returnedHit then 1 else 0) =
      sys.core.hitsHeld + if b.acceptedHit then 1 else 0 := by
  have hsame : sys'.core.hitQueue = sys.core.hitQueue → sys'.core.readyQueue = sys.core.readyQueue →
      sys'.core.hitsHeld = sys.core.hitsHeld := by
    intro hhit hready
    rw [Core.hitsHeld, hhit, hready, Core.hitsHeld]
  have htick : ∀ {waiting : List DelayedResponseEntry} {done : List Token},
      Cache.tickHitResponses sys.core.hitQueue = .ok (waiting, done) →
      (sys.core.tick waiting done).hitsHeld = sys.core.hitsHeld := by
    intro waiting done h
    have hlength := (Cache.tickHitResponses_perm h).length_eq
    simp only [List.length_map, List.length_append] at hlength
    simp only [Core.hitsHeld, Core.tick, List.length_append]
    omega
  cases step_cases hsuits hperform with
  | access n m time events status hcase hbelow =>
      have hbuild : (sys.build n m).core.hitsHeld = sys.core.hitsHeld := rfl
      rw [hcase.hitsHeld hdefer, hbuild]
      simp [Obs.returnedHit, Obs.acceptedHit]
  | tick memportFull waiting done h hcore hbelow =>
      rw [hcore, htick h]
      rfl
  | push memportFull waiting done h mf rest hqueue hcore hbelow =>
      have hpop : ({ sys.core.tick waiting done with missQueue := rest } : Core cfg).hitsHeld =
          (sys.core.tick waiting done).hitsHeld := rfl
      rw [hcore, hpop, htick h]
      rfl
  | wait n m time original horiginal e pendingRead he hcore hbelow =>
      rw [hsame (by rw [hcore]; rfl) (by rw [hcore]; rfl)]
      rfl
  | complete o c mf time horigin e he hentry lines hfill hcore hbelow =>
      have hc : c.core.hitQueue = sys.core.hitQueue ∧ c.core.readyQueue = sys.core.readyQueue := by
        rcases horigin with ⟨-, rfl⟩ | ⟨n, m, -, -, rfl⟩ <;> exact ⟨rfl, rfl⟩
      rw [hsame (by rw [hcore]; exact hc.1) (by rw [hcore]; exact hc.2)]
      rfl
  | ready mf rest hqueue hpinned hcore hbelow =>
      rw [hcore]
      simp only [Core.hitsHeld, Core.unpin_frame, hqueue, List.length_cons, Obs.returnedHit,
        Obs.acceptedHit, Option.isNone_none, if_true, Bool.false_eq_true, if_false]
      omega
  | deliver mf a rest addresses hready hanswered hentry hpinned hcore hbelow =>
      have hdeliver : (sys.core.deliver a rest).hitQueue = sys.core.hitQueue ∧
          (sys.core.deliver a rest).readyQueue = sys.core.readyQueue := by
        unfold Core.deliver
        split <;> exact ⟨rfl, rfl⟩
      rw [hsame]
      · rfl
      · rw [hcore, (Core.unpin_frame _ _).2.2.2.2.1, hdeliver.1]
      · rw [hcore, (Core.unpin_frame _ _).2.2.2.2.2.1, hdeliver.2]
  | flush hcore hbelow =>
      rw [hsame (by rw [hcore]; rfl) (by rw [hcore]; rfl)]
      rfl
  | invalidate hcore hbelow =>
      rw [hsame (by rw [hcore]; rfl) (by rw [hcore]; rfl)]
      rfl
  | retire mf hcore hbelow =>
      rw [hsame (by rw [hcore]) (by rw [hcore])]
      rfl

theorem hitResponseQueueFull_iff (hdefer : cfg.deferHitResponse = true) :
    sys.cache.hitResponseQueueFull = true ↔
      cfg.hitResponseQueueSize ≤ sys.core.hitQueue.length := by
  rw [Cache.hitResponseQueueFull, hdefer, Bool.true_and, decide_eq_true_eq]
  rfl

/-- A command is an access that finds its block. -/
def finds (sys : System cfg) : Op → Bool
  | .access _ m _ _ => sys.cache.findsBlock m.addr m
  | _ => false

/-- A command is an access that is refused because the hit response queue is full. -/
def RefusesHit (sys : System cfg) (cls : CacheClass) : Op → Prop
  | .access n m time events =>
      (sys.build n m).RefusedFor cls m.addr (.caller n) time events .hitResponseQueueFull
  | _ => False

/-- Only an access that finds its block, while the hit response queue is not full, is accepted as a
hit. -/
theorem finds_of_acceptedHit (hsuits : Suits cfg o) (hperform : sys.perform cls o = .ok (sys', b))
    (hb : b.acceptedHit = true) :
    sys.finds o = true ∧
    (cfg.deferHitResponse = true → sys.cache.hitResponseQueueFull = false) := by
  cases step_cases hsuits hperform with
  | access n m time events status hcase hbelow =>
      have hm := sys.build_mfs_caller n m
      obtain rfl : status = .hit := by simpa [Obs.acceptedHit] using hb
      generalize sys'.core = s' at hcase
      cases hcase with
      | hit p hp hhit hqueue =>
          rw [hm] at hp
          exact ⟨(Cache.findsBlock_iff (c := sys.build n m) hp).2 hhit, hqueue⟩
  | _ => cases hb

/-- An access that finds its block is refused by the queue exactly when the queue is full. -/
theorem refusesHit_iff (hfinds : sys.finds o = true)
    (hperform : sys.perform cls o = .ok (sys', b)) :
    sys.RefusesHit cls o ↔ sys.cache.hitResponseQueueFull = true := by
  cases o with
  | access n m time events =>
      obtain ⟨⟨c, status, events'⟩, h, -⟩ := bind_eq_ok.1 hperform
      refine Cache.refusedFor_hitResponseQueueFull_iff ?_ h
      rw [sys.build_mfs_caller n m]
      exact hfinds
  | _ => cases hfinds

end System

/-! ### The bound -/

/-- Over every run, the hits that were accepted are those that were returned and those that wait. -/
theorem hits_balance {cls : CacheClass} {mfs : Token → MemFetch} {trace : List Obs}
    {sys : System cfg} (hdefer : cfg.deferHitResponse = true)
    (h : System.Run cls System.Promise (System.init cfg mfs) trace sys) :
    trace.countP Obs.acceptedHit = trace.countP Obs.returnedHit + sys.core.hitsHeld := by
  refine Runs.Run.invariant
    (fun trace s => trace.countP Obs.acceptedHit = trace.countP Obs.returnedHit + s.core.hitsHeld)
    rfl ?_ h
  intro trace s o s' b hs hpromise hperform
  have hstep := System.hitsHeld_step hdefer hpromise.suits hperform
  rw [List.countP_append, List.countP_append, List.countP_singleton, List.countP_singleton]
  omega

/-- The promise that no access finds its block while hits whose delay has ended still wait and the
two queues together have no room for another. -/
def System.HitRoom (sys : System cfg) (o : Op) : Prop :=
  sys.Promise o ∧ (sys.finds o = true →
    sys.core.readyQueue = [] ∨ sys.core.hitsHeld < cfg.hitResponseQueueSize)

instance (sys : System cfg) (o : Op) : Decidable (sys.HitRoom o) := by
  unfold System.HitRoom
  infer_instance

/-- One step keeps the two queues together within the size of the first: while the ready queue is
empty, the full first queue refuses the hit. -/
theorem System.HitRoom.held_le {cls : CacheClass} {sys sys' : System cfg} {o : Op} {b : Obs}
    (hdefer : cfg.deferHitResponse = true) (hroom : sys.HitRoom o)
    (hheld : sys.core.hitsHeld ≤ cfg.hitResponseQueueSize)
    (hperform : sys.perform cls o = .ok (sys', b)) :
    sys'.core.hitsHeld ≤ cfg.hitResponseQueueSize := by
  have hstep := System.hitsHeld_step hdefer hroom.1.suits hperform
  by_cases hb : b.acceptedHit = true
  · rw [if_pos hb] at hstep
    obtain ⟨hfinds, hfull⟩ := System.finds_of_acceptedHit hroom.1.suits hperform hb
    have hfree : sys.core.hitQueue.length < cfg.hitResponseQueueSize := by
      rw [← not_le, ← System.hitResponseQueueFull_iff hdefer, hfull hdefer]
      exact Bool.false_ne_true
    have hlt : sys.core.hitsHeld < cfg.hitResponseQueueSize := by
      rcases hroom.2 hfinds with hempty | hlt
      · rw [Core.hitsHeld, hempty]
        exact hfree
      · exact hlt
    omega
  · rw [if_neg hb] at hstep
    omega

/-- **The hits that wait are bounded, and the bound is enforced, exactly while no access finds its
block when hits wait to be taken and the two queues together have no room.**  With deferred hits, in
every run that meets this condition, the hits accepted are at most the size of the queue more than
the hits returned.  And a next step keeps this bound, and is refused for the full hit response queue
if it finds its block when that many hits are not returned, if and only if it meets the
condition. -/
theorem hits_bounded_iff {cls : CacheClass} {mfs : Token → MemFetch} {trace : List Obs}
    {sys sys' : System cfg} {o : Op} {b : Obs} (hdefer : cfg.deferHitResponse = true)
    (hrun : System.Run cls System.HitRoom (System.init cfg mfs) trace sys)
    (hpromise : sys.Promise o) (hperform : sys.perform cls o = .ok (sys', b)) :
    trace.countP Obs.acceptedHit ≤ trace.countP Obs.returnedHit + cfg.hitResponseQueueSize ∧
      (((trace ++ [b]).countP Obs.acceptedHit ≤
            (trace ++ [b]).countP Obs.returnedHit + cfg.hitResponseQueueSize ∧
          (sys.finds o = true →
            trace.countP Obs.acceptedHit =
              trace.countP Obs.returnedHit + cfg.hitResponseQueueSize →
            sys.RefusesHit cls o)) ↔
        (sys.finds o = true →
          sys.core.readyQueue = [] ∨ sys.core.hitsHeld < cfg.hitResponseQueueSize)) := by
  have hheld : sys.core.hitsHeld ≤ cfg.hitResponseQueueSize :=
    Runs.Run.state_invariant (fun s => s.core.hitsHeld ≤ cfg.hitResponseQueueSize) (Nat.zero_le _)
      (fun s o s' b hs hroom hperform => hroom.held_le hdefer hs hperform) hrun
  have hbefore := hits_balance hdefer (hrun.mono fun _ _ h => h.1)
  have hafter := hits_balance hdefer (.snoc (hrun.mono fun _ _ h => h.1) hpromise hperform)
  refine ⟨by omega, ?_, ?_⟩
  · rintro ⟨-, hrefused⟩ hfinds
    by_contra hnot
    rw [not_or, not_lt] at hnot
    obtain ⟨hready, hsize⟩ := hnot
    -- hits wait in the ready queue, so the first queue has room, and refuses nothing
    have hfull := (System.refusesHit_iff hfinds hperform).1 (hrefused hfinds (by omega))
    have hlong := (System.hitResponseQueueFull_iff hdefer).1 hfull
    have hpos := List.length_pos_iff.2 hready
    rw [Core.hitsHeld] at hheld
    omega
  · intro hroom
    have hheld' := System.HitRoom.held_le hdefer ⟨hpromise, hroom⟩ hheld hperform
    refine ⟨by omega, fun hfinds hall => (System.refusesHit_iff hfinds hperform).2 ?_⟩
    have hempty : sys.core.readyQueue = [] := (hroom hfinds).resolve_right (by omega)
    have hlong : cfg.hitResponseQueueSize ≤ sys.core.hitQueue.length := by
      rw [Core.hitsHeld, hempty, List.length_nil] at hbefore
      omega
    exact (System.hitResponseQueueFull_iff hdefer).2 hlong

/-- Four hits wait for their delay, and the fifth is refused for the full queue. -/
theorem hits_bounded_four :
    ∃ trace sys, System.Run (.dataCache .l1) System.HitRoom
        (System.init (CacheConfig.small 'S' 'B' 'm' 'W' 2 true) fun _ => MemFetch.load 0)
        trace sys ∧
      trace.countP Obs.acceptedHit = 4 ∧ trace.countP Obs.returnedHit = 0 ∧
      sys.RefusesHit (.dataCache .l1) (.access 5 (MemFetch.load 0) 6 []) := by
  obtain ⟨trace, sys, hrun, haccepted, hreturned, hpromise, hok, hfinds, hempty⟩ :
      ∃ trace sys, System.Run (.dataCache .l1) System.HitRoom
          (System.init (CacheConfig.small 'S' 'B' 'm' 'W' 2 true) fun _ => MemFetch.load 0)
            trace sys ∧
        trace.countP Obs.acceptedHit = 4 ∧ trace.countP Obs.returnedHit = 0 ∧
        sys.Promise (.access 5 (MemFetch.load 0) 6 []) ∧
        (sys.perform (.dataCache .l1) (.access 5 (MemFetch.load 0) 6 [])).isOk = true ∧
        sys.finds (.access 5 (MemFetch.load 0) 6 []) = true ∧ sys.core.readyQueue = [] :=
    Runs.exists_run_of_exec [.access 0 (MemFetch.load 0) 0 [], .cycle false, .fill (.caller 0) 1,
      .nextAccess, .access 1 (MemFetch.load 0) 2 [], .access 2 (MemFetch.load 0) 3 [],
      .access 3 (MemFetch.load 0) 4 [], .access 4 (MemFetch.load 0) 5 []] (by decide)
  cases hperform : sys.perform (.dataCache .l1) (.access 5 (MemFetch.load 0) 6 []) with
  | error e =>
      rw [hperform] at hok
      cases hok
  | ok r =>
      obtain ⟨-, hiff⟩ := hits_bounded_iff rfl hrun hpromise hperform
      have hrefused := (hiff.2 fun _ => Or.inl hempty).2 hfinds (by rw [haccepted, hreturned]; rfl)
      exact ⟨trace, sys, hrun, haccepted, hreturned, hrefused⟩

/-- Five hits are accepted and none is returned, in a cache with room for four. -/
theorem hits_pile_up :
    ∃ trace sys, System.Run (.dataCache .l1) System.Promise
        (System.init (CacheConfig.small 'S' 'B' 'm' 'W' 2 true) fun _ => MemFetch.load 0)
        trace sys ∧
      (CacheConfig.small 'S' 'B' 'm' 'W' 2 true).hitResponseQueueSize = 4 ∧
      trace.countP Obs.acceptedHit = 5 ∧ trace.countP Obs.returnedHit = 0 :=
  Runs.exists_run_of_exec [.access 0 (MemFetch.load 0) 0 [], .cycle false, .fill (.caller 0) 1,
    .nextAccess, .access 1 (MemFetch.load 0) 2 [], .cycle false, .access 2 (MemFetch.load 0) 3 [],
    .cycle false, .access 3 (MemFetch.load 0) 4 [], .cycle false, .access 4 (MemFetch.load 0) 5 [],
    .cycle false, .access 5 (MemFetch.load 0) 6 []] (by decide)

end OpenCache
