/-
The latency and the order of deferred hits.

A hit enters the hit response queue with the number of cycles its data need to get through the port,
and every call of `cycle` takes one off the requests in the queue.  Many requests of different sizes
wait at a time, and those whose delay ends are taken out while the queue is gone through.

* `OpenCache.Hit`, `OpenCache.HitLog` — the history of a run: the hits in order of acceptance, the
  calls of `cycle`, and the responses taken from the ready response queue;
* `OpenCache.Cache.hitResponseLatency_eq` — the delay of a hit is its size divided by the width of
  the port, rounded up, and at least one cycle;
* `OpenCache.OnTime` — **the invariant**: the two queues are those of a line of deadlines;
* `OpenCache.hit_responses_on_time` — **every hit is ready in its cycle, and the ready responses are
  in order**.
-/

import OpenCache.DelayLine
import OpenCache.System
import Mathlib.Algebra.Order.Floor.Div

set_option relaxedAutoImplicit false
set_option autoImplicit false

namespace OpenCache

variable {cfg : CacheConfig}

/-! ### The delay of a hit -/

/-- **The delay of a hit**: the cycles that its data occupy the port, and at least one. -/
theorem Cache.hitResponseLatency_eq (hwidth : 0 < cfg.dataPortWidth) (m : MemFetch) :
    Cache.hitResponseLatency cfg m = max 1 (m.dataSize ⌈/⌉ cfg.dataPortWidth) := by
  have hround : m.dataSize / cfg.dataPortWidth +
      (if 0 < m.dataSize % cfg.dataPortWidth then 1 else 0) = m.dataSize ⌈/⌉ cfg.dataPortWidth := by
    have hdiv := Nat.div_add_mod m.dataSize cfg.dataPortWidth
    have hmod := Nat.mod_lt m.dataSize hwidth
    generalize m.dataSize / cfg.dataPortWidth = q at hdiv ⊢
    generalize m.dataSize % cfg.dataPortWidth = r at hdiv hmod ⊢
    rw [Nat.ceilDiv_eq_add_pred_div, ← hdiv]
    by_cases hr : 0 < r
    · have hsum : cfg.dataPortWidth * q + r + cfg.dataPortWidth - 1 =
          cfg.dataPortWidth * (q + 1) + (r - 1) := by
        rw [Nat.mul_succ]
        omega
      rw [if_pos hr, hsum, Nat.mul_add_div hwidth, Nat.div_eq_of_lt (by omega)]
    · have hsum : cfg.dataPortWidth * q + r + cfg.dataPortWidth - 1 =
          cfg.dataPortWidth * q + (cfg.dataPortWidth - 1) := by omega
      rw [if_neg hr, hsum, Nat.mul_add_div hwidth, Nat.div_eq_of_lt (by omega)]
  unfold hitResponseLatency
  dsimp only
  rw [hround]
  split <;> omega

/-! ### The history of a run -/

/-- A request that was accepted as a hit. -/
structure Hit where
  mf : Token
  /-- `get_data_size` of the request. -/
  dataSize : ℕ
  /-- The calls of `cycle` before it was accepted. -/
  acceptedAt : ℕ
  /-- The hits that were accepted before it. -/
  number : ℕ

/-- The call of `cycle` that is to move a hit to the ready response queue. -/
def Hit.due (cfg : CacheConfig) (r : Hit) : ℕ :=
  r.acceptedAt + max 1 (r.dataSize ⌈/⌉ cfg.dataPortWidth)

/-- The hits of a run in order of acceptance, its calls of `cycle`, and the responses that were
taken from the ready response queue. -/
structure HitLog where
  hits : List Hit
  cycles : ℕ
  taken : ℕ

/-- Nothing has happened. -/
def HitLog.init : HitLog := ⟨[], 0, 0⟩

/-- The history after a call. -/
def HitLog.note (h : HitLog) (_ : System cfg) (_ : Op) (_ : System cfg) : Obs → HitLog
  | .access mf m .hit _ => { h with hits := h.hits ++ [⟨mf, m.dataSize, h.cycles, h.hits.length⟩] }
  | .cycle _ => { h with cycles := h.cycles + 1 }
  | .nextAccess _ _ none => { h with taken := h.taken + 1 }
  | _ => h

/-- The runs of a cache with the history of its hits. -/
abbrev System.HitRun (cls : CacheClass) (mfs : Token → MemFetch) :
    List Obs → System cfg × HitLog → Prop :=
  Runs.Run (Runs.withHistory (System.perform cls) HitLog.note) (fun s => s.1.Promise)
    (System.init cfg mfs, HitLog.init)

/-- The hits with their deadlines. -/
def HitLog.table (cfg : CacheConfig) (h : HitLog) : List (Hit × ℕ) :=
  h.hits.map fun r => (r, r.due cfg)

/-! ### The two queues -/

/-- An entry of the hit response queue. -/
def Hit.entry (e : Hit × ℕ) : DelayedResponseEntry := ⟨e.1.mf, e.2⟩

/-- The loop of `cycle` is a tick of the line, and its assertion holds for what waits. -/
theorem tickHitResponses_line {q : List (Hit × ℕ)} (hpos : ∀ e ∈ q, 0 < e.2) :
    Cache.tickHitResponses (q.map Hit.entry) =
      .ok ((DelayLine.tick q).1.map Hit.entry, (DelayLine.tick q).2.map Hit.mf) := by
  induction q with
  | nil => rfl
  | cons e q ih =>
      have hrest := ih fun e he => hpos e (List.mem_cons_of_mem _ he)
      have hone : assertThat (0 < e.2) .remainingCyclesZero = .ok () :=
        assertThat_eq_ok.2 (hpos e List.mem_cons_self)
      rw [List.map_cons, Cache.tickHitResponses, DelayLine.tick, hrest]
      change (assertThat (0 < e.2) .remainingCyclesZero >>= fun _ => _) = _
      rw [hone]
      by_cases hlast : e.2 - 1 = 0
      · simp only [Except.bind, bind, Hit.entry, hlast, if_true, List.map_cons]
        rfl
      · simp only [Except.bind, bind, Hit.entry, hlast, if_false, List.map_cons]
        rfl

/-- The two queues are those of the line of deadlines. -/
structure OnTime (s : Core cfg) (h : HitLog) : Prop where
  hitQueue : s.hitQueue = (DelayLine.waiting h.cycles (h.table cfg)).map Hit.entry
  readyQueue : s.readyQueue =
    ((DelayLine.departed h.cycles (h.table cfg)).drop h.taken).map fun e => e.1.mf
  taken_le : h.taken ≤ (DelayLine.departed h.cycles (h.table cfg)).length
  numbered : h.hits.Pairwise fun r r' => r.number < r'.number
  number_lt : ∀ r ∈ h.hits, r.number < h.hits.length

namespace OnTime

variable {s : Core cfg} {sys sys' : System cfg} {h : HitLog} {cls : CacheClass} {o : Op} {b : Obs}

theorem init (mfs : Token → MemFetch) : OnTime (System.init cfg mfs).core HitLog.init :=
  ⟨rfl, rfl, le_rfl, List.Pairwise.nil, fun _ hr => absurd hr List.not_mem_nil⟩

/-- Nothing happens to the two queues. -/
theorem of_same {s' : Core cfg} (hs : OnTime s h) (hhit : s'.hitQueue = s.hitQueue)
    (hready : s'.readyQueue = s.readyQueue) : OnTime s' h :=
  { hs with hitQueue := hhit.trans hs.hitQueue, readyQueue := hready.trans hs.readyQueue }

/-- A hit is accepted. -/
theorem accept {s' : Core cfg} (hs : OnTime s h) (hwidth : 0 < cfg.dataPortWidth) {mf : Token}
    {m : MemFetch} (hhit : s'.hitQueue = s.hitQueue ++ [⟨mf, Cache.hitResponseLatency cfg m⟩])
    (hready : s'.readyQueue = s.readyQueue) :
    OnTime s' { h with hits := h.hits ++ [⟨mf, m.dataSize, h.cycles, h.hits.length⟩] } := by
  have hdelay := Cache.hitResponseLatency_eq hwidth m
  generalize hr : (⟨mf, m.dataSize, h.cycles, h.hits.length⟩ : Hit) = r
  have hdue : r.due cfg = h.cycles + Cache.hitResponseLatency cfg m := by
    rw [hdelay, ← hr]
    rfl
  have hlater : h.cycles < r.due cfg := by omega
  have htable : HitLog.table cfg { h with hits := h.hits ++ [r] } =
      h.table cfg ++ [(r, r.due cfg)] := List.map_append
  refine ⟨?_, ?_, ?_, ?_, ?_⟩
  · rw [htable, DelayLine.waiting_enter hlater, List.map_append, hhit, hs.hitQueue, hdue,
      Nat.add_sub_cancel_left, ← hr]
    rfl
  · rw [htable, DelayLine.departed_enter hlater, hready, hs.readyQueue]
  · rw [htable, DelayLine.departed_enter hlater]
    exact hs.taken_le
  · rw [List.pairwise_append]
    refine ⟨hs.numbered, List.pairwise_singleton _ _, fun r' hr' r'' hr'' => ?_⟩
    rw [List.mem_singleton.1 hr'', ← hr]
    exact hs.number_lt r' hr'
  · intro r' hr'
    rw [List.length_append, List.length_singleton]
    rcases List.mem_append.1 hr' with hr' | hr'
    · exact (hs.number_lt r' hr').trans (Nat.lt_succ_self _)
    · rw [List.mem_singleton.1 hr', ← hr]
      exact Nat.lt_succ_self _

/-- The requests whose delay ends in the next cycle. -/
theorem leaving_mf (h : HitLog) : (DelayLine.leaving (h.cycles + 1) (h.table cfg)).map
    (fun e => e.1.mf) = (h.hits.filter fun r => r.due cfg = h.cycles + 1).map Hit.mf := by
  unfold DelayLine.leaving HitLog.table
  rw [List.filter_map, List.map_map]
  rfl

/-- What the loop of `cycle` finds. -/
theorem tick_eq (hs : OnTime s h) : Cache.tickHitResponses s.hitQueue =
    .ok ((DelayLine.waiting (h.cycles + 1) (h.table cfg)).map Hit.entry,
      (h.hits.filter fun r => r.due cfg = h.cycles + 1).map Hit.mf) := by
  rw [hs.hitQueue, tickHitResponses_line fun _ => DelayLine.waiting_pos, DelayLine.tick_waiting,
    List.map_map, ← leaving_mf]
  rfl

/-- A cycle. -/
theorem tick (hs : OnTime s h) {s' : Core cfg}
    (hhit : s'.hitQueue = (DelayLine.waiting (h.cycles + 1) (h.table cfg)).map Hit.entry)
    (hready : s'.readyQueue =
      s.readyQueue ++ (h.hits.filter fun r => r.due cfg = h.cycles + 1).map Hit.mf) :
    OnTime s' { h with cycles := h.cycles + 1 } where
  hitQueue := hhit
  readyQueue := by
    change _ = ((DelayLine.departed (h.cycles + 1) (h.table cfg)).drop h.taken).map _
    rw [DelayLine.departed_succ, List.drop_append_of_le_length hs.taken_le, List.map_append,
      leaving_mf, hready, hs.readyQueue]
  taken_le := by
    change h.taken ≤ (DelayLine.departed (h.cycles + 1) (h.table cfg)).length
    rw [DelayLine.departed_succ, List.length_append]
    exact hs.taken_le.trans (Nat.le_add_right _ _)
  numbered := hs.numbered
  number_lt := hs.number_lt

/-- The first ready response is taken. -/
theorem take (hs : OnTime s h) {s' : Core cfg} {mf : Token} {rest : List Token}
    (hfirst : s.readyQueue = mf :: rest) (hhit : s'.hitQueue = s.hitQueue)
    (hready : s'.readyQueue = rest) : OnTime s' { h with taken := h.taken + 1 } where
  hitQueue := hhit.trans hs.hitQueue
  readyQueue := by
    change _ = ((DelayLine.departed h.cycles (h.table cfg)).drop (h.taken + 1)).map _
    have hrest := congrArg List.tail (hs.readyQueue.symm.trans hfirst)
    rw [← List.map_tail, List.tail_drop] at hrest
    rw [hready, hrest]
    rfl
  taken_le := by
    have hlength := congrArg List.length (hs.readyQueue.symm.trans hfirst)
    rw [List.length_map, List.length_drop, List.length_cons] at hlength
    change h.taken + 1 ≤ (DelayLine.departed h.cycles (h.table cfg)).length
    omega
  numbered := hs.numbered
  number_lt := hs.number_lt

/-- What an access does to the two queues. -/
theorem access {c : Cache cfg} {addr : NewAddrType} {mf : Token} {time : Time}
    {status : CacheRequestStatus} {s' : Core cfg}
    (hdefer : cfg.deferHitResponse = true) (hcase : AccessCase c cls addr mf time status s') :
    s'.readyQueue = c.core.readyQueue ∧
      s'.hitQueue = c.core.hitQueue ++
        if status = .hit then [⟨mf, Cache.hitResponseLatency cfg (c.mfs mf)⟩] else [] := by
  cases hcase with
  | refused => exact ⟨rfl, (List.append_nil _).symm⟩
  | hit p _ _ _ line forward =>
      have hrespond : ∀ s : Core cfg, (s.respond mf p.idx).hitQueue =
          s.hitQueue ++ [⟨mf, Cache.hitResponseLatency cfg (s.mfs mf)⟩] := by
        intro s
        rw [Core.respond, if_pos hdefer]
      refine ⟨by simp [Core.setLine], ?_⟩
      rw [if_pos rfl, hrespond]
      simp [Core.setLine, Cache.core]
  | forward => exact ⟨rfl, (List.append_nil _).symm⟩
  | write => exact ⟨by simp [Core.setLine], by simp [Core.setLine]⟩
  | fetch p _ _ _ reader s written hfetcher =>
      obtain ⟨-, -, -, -, hhit, hready, -⟩ := hfetcher.frame
      refine ⟨?_, ?_⟩
      · simp [Core.setLine, hready]
      · simp [Core.setLine, hhit]

/-- **One step keeps the queues on time.** -/
theorem step (hs : OnTime sys.core h) (hdefer : cfg.deferHitResponse = true)
    (hwidth : 0 < cfg.dataPortWidth) (hpromise : sys.Promise o)
    (hperform : sys.perform cls o = .ok (sys', b)) : OnTime sys'.core (h.note sys o sys' b) := by
  cases System.step_cases hpromise.suits hperform with
  | access n m time events status hcase hbelow =>
      obtain ⟨hready, hhit⟩ := access hdefer hcase
      rw [sys.build_mfs_caller n m] at hhit
      by_cases hstatus : status = .hit
      · subst hstatus
        exact hs.accept hwidth hhit hready
      · rw [if_neg hstatus, List.append_nil] at hhit
        have hnote : h.note sys (.access n m time events) sys' (.access (.caller n) m status
            (System.joined sys.core sys'.core (cfg.mshrAddr m.addr))) = h := by
          cases status <;> first | rfl | exact absurd rfl hstatus
        rw [hnote]
        exact hs.of_same hhit hready
  | tick memportFull waiting done htick hcore hbelow =>
      -- the queue is the line of the deadlines, so a tick takes out what is due
      cases htick.symm.trans hs.tick_eq
      rw [hcore]
      exact hs.tick rfl rfl
  | push memportFull waiting done htick mf rest hqueue hcore hbelow =>
      cases htick.symm.trans hs.tick_eq
      rw [hcore]
      exact hs.tick rfl rfl
  | wait _ _ _ _ _ _ _ _ hcore =>
      rw [hcore]
      exact hs.of_same rfl rfl
  | complete _ c mf _ horigin _ _ _ _ _ hcore =>
      have hqueues : c.core.hitQueue = sys.core.hitQueue ∧
          c.core.readyQueue = sys.core.readyQueue := by
        rcases horigin with ⟨-, rfl⟩ | ⟨_, _, -, -, rfl⟩ <;> exact ⟨rfl, rfl⟩
      rw [hcore]
      exact hs.of_same hqueues.1 hqueues.2
  | ready mf rest hqueue hpinned hcore =>
      rw [hcore]
      refine hs.take hqueue ?_ ?_ <;> simp
  | deliver mf a rest _ _ _ _ _ hcore =>
      have hdeliver : (sys.core.deliver a rest).hitQueue = sys.core.hitQueue ∧
          (sys.core.deliver a rest).readyQueue = sys.core.readyQueue := by
        unfold Core.deliver
        split <;> exact ⟨rfl, rfl⟩
      rw [hcore]
      refine hs.of_same ?_ ?_ <;> simp [hdeliver]
  | flush hcore =>
      rw [hcore]
      exact hs.of_same rfl rfl
  | invalidate hcore =>
      rw [hcore]
      exact hs.of_same rfl rfl
  | retire _ hcore =>
      rw [hcore]
      exact hs.of_same rfl rfl

/-- **The queues are on time in every run.** -/
theorem of_run {mfs : Token → MemFetch} {trace : List Obs} {s : System cfg × HitLog}
    (hdefer : cfg.deferHitResponse = true) (hwidth : 0 < cfg.dataPortWidth)
    (hrun : System.HitRun cls mfs trace s) : OnTime s.1.core s.2 := by
  refine hrun.state_invariant (fun s => OnTime s.1.core s.2) (init mfs) ?_
  rintro ⟨sys, h⟩ o ⟨sys', h'⟩ b hs hpromise hstep
  obtain ⟨hperform, rfl⟩ := Runs.withHistory_eq_ok.1 hstep
  exact hs.step hdefer hwidth hpromise hperform

end OnTime

namespace OnTime

variable {s : Core cfg} {sys sys' : System cfg} {h : HitLog} {cls : CacheClass}

/-- The next cycle returns. -/
theorem cycle_ok (hs : OnTime sys.core h) (cls : CacheClass) (memportFull : Bool) :
    ∃ sys' b, sys.perform cls (.cycle memportFull) = .ok (sys', b) ∧
      sys'.core.readyQueue = sys.core.readyQueue ++
        (h.hits.filter fun r => r.due cfg = h.cycles + 1).map Hit.mf := by
  obtain ⟨⟨c, pushed⟩, hcycle⟩ : ∃ r, sys.cache.cycle memportFull = .ok r :=
    ⟨_, bind_eq_ok.2 ⟨_, hs.tick_eq, rfl⟩⟩
  refine ⟨_, _, bind_eq_ok.2 ⟨_, hcycle, rfl⟩, ?_⟩
  obtain ⟨waiting, done, htick, hcore⟩ := Cache.cycle_core hcycle
  cases htick.symm.trans hs.tick_eq
  change c.core.readyQueue = _
  rcases hcore with ⟨-, hcore⟩ | ⟨_, _, -, -, hcore⟩
  · rw [hcore]
    rfl
  · rw [hcore]
    rfl

/-- Only a cycle adds to the ready response queue. -/
theorem readyQueue_of_step {o : Op} {b : Obs} (hdefer : cfg.deferHitResponse = true)
    (hpromise : sys.Promise o) (hperform : sys.perform cls o = .ok (sys', b))
    (hcycle : ∀ memportFull, o ≠ .cycle memportFull) :
    sys'.core.readyQueue = sys.core.readyQueue ∨
      ∃ mf, sys.core.readyQueue = mf :: sys'.core.readyQueue := by
  cases System.step_cases hpromise.suits hperform with
  | access n m time events status hcase hbelow => exact Or.inl (access hdefer hcase).1
  | tick memportFull => exact absurd rfl (hcycle memportFull)
  | push memportFull => exact absurd rfl (hcycle memportFull)
  | wait _ _ _ _ _ _ _ _ hcore =>
      rw [hcore]
      exact Or.inl rfl
  | complete _ c mf _ horigin _ _ _ _ _ hcore =>
      have hready : c.core.readyQueue = sys.core.readyQueue := by
        rcases horigin with ⟨-, rfl⟩ | ⟨_, _, -, -, rfl⟩ <;> rfl
      rw [hcore]
      exact Or.inl hready
  | ready mf rest hqueue _ hcore =>
      rw [hcore]
      exact Or.inr ⟨mf, by simp [hqueue]⟩
  | deliver mf a rest _ _ _ _ _ hcore =>
      have hdeliver : (sys.core.deliver a rest).readyQueue = sys.core.readyQueue := by
        unfold Core.deliver
        split <;> rfl
      rw [hcore]
      exact Or.inl (by simp [hdeliver])
  | flush hcore =>
      rw [hcore]
      exact Or.inl rfl
  | invalidate hcore =>
      rw [hcore]
      exact Or.inl rfl
  | retire _ hcore =>
      rw [hcore]
      exact Or.inl rfl

/-- The ready responses are in the order of their cycles and acceptances. -/
theorem sorted (hs : OnTime s h) : ∃ ready : List Hit, s.readyQueue = ready.map Hit.mf ∧
    (∀ r ∈ ready, r ∈ h.hits ∧ r.due cfg ≤ h.cycles) ∧
    ready.Pairwise fun r r' => r.due cfg < r'.due cfg ∨
      r.due cfg = r'.due cfg ∧ r.number < r'.number := by
  have hdue : ∀ e ∈ (DelayLine.departed h.cycles (h.table cfg)).drop h.taken,
      e.1 ∈ h.hits ∧ e.2 = e.1.due cfg ∧ e.2 ≤ h.cycles := by
    intro e he
    obtain ⟨hmem, hle⟩ := DelayLine.of_mem_departed (List.mem_of_mem_drop he)
    obtain ⟨r, hr, rfl⟩ := List.mem_map.1 hmem
    exact ⟨hr, rfl, hle⟩
  refine ⟨((DelayLine.departed h.cycles (h.table cfg)).drop h.taken).map Prod.fst, ?_, ?_, ?_⟩
  · rw [hs.readyQueue, List.map_map]
    rfl
  · intro r hr
    obtain ⟨e, he, rfl⟩ := List.mem_map.1 hr
    obtain ⟨hmem, heq, hle⟩ := hdue e he
    exact ⟨hmem, heq ▸ hle⟩
  · have htable : (h.table cfg).Pairwise fun r r' => r.1.number < r'.1.number :=
      List.pairwise_map.2 hs.numbered
    have hleft := DelayLine.departed_sorted (R := fun r r' : Hit => r.number < r'.number) htable
      h.cycles
    have hsorted := hleft.sublist (List.drop_sublist h.taken _)
    rw [List.pairwise_map]
    refine hsorted.imp_of_mem ?_
    intro e e' he he' hlex
    rwa [(hdue e he).2.1, (hdue e' he').2.1] at hlex

end OnTime

/-- **Every deferred hit is ready in its cycle, and the ready responses are in order**: in every run
of a cache that defers its hits, the next `cycle` returns and moves to the ready response queue
exactly the hits that were accepted `max 1 ⌈d / w⌉` cycles ago, no other call adds to that queue,
and the queue is in the order of the cycles and, within a cycle, of the acceptances. -/
theorem hit_responses_on_time {cls : CacheClass} {mfs : Token → MemFetch} {trace : List Obs}
    {s : System cfg × HitLog} (hdefer : cfg.deferHitResponse = true)
    (hwidth : 0 < cfg.dataPortWidth) (hrun : System.HitRun cls mfs trace s) :
    (∀ memportFull, ∃ sys' b, s.1.perform cls (.cycle memportFull) = .ok (sys', b) ∧
        sys'.core.readyQueue = s.1.core.readyQueue ++
          (s.2.hits.filter fun r => r.due cfg = s.2.cycles + 1).map Hit.mf) ∧
      (∀ o sys' b, s.1.Promise o → s.1.perform cls o = .ok (sys', b) →
        (∀ memportFull, o ≠ .cycle memportFull) →
        sys'.core.readyQueue = s.1.core.readyQueue ∨
          ∃ mf, s.1.core.readyQueue = mf :: sys'.core.readyQueue) ∧
      ∃ ready : List Hit, s.1.core.readyQueue = ready.map Hit.mf ∧
        (∀ r ∈ ready, r ∈ s.2.hits ∧ r.due cfg ≤ s.2.cycles) ∧
        ready.Pairwise fun r r' => r.due cfg < r'.due cfg ∨
          r.due cfg = r'.due cfg ∧ r.number < r'.number := by
  have hs := OnTime.of_run hdefer hwidth hrun
  refine ⟨hs.cycle_ok cls, fun o sys' b hpromise hperform hcycle => ?_, hs.sorted⟩
  exact OnTime.readyQueue_of_step hdefer hpromise hperform hcycle

/-- Two hits of one cycle, and one of two cycles between them: after a cycle the short ones are
ready, in the order of their acceptance. -/
theorem hit_responses_on_time_three_hits :
    ∃ trace, ∃ s : System (CacheConfig.small 'N' 'R' 'm' 'N' 2 true) × HitLog, ∃ sys' b,
      System.HitRun .readOnlyCache (fun _ => MemFetch.load 0) trace s ∧
      s.1.perform .readOnlyCache (.cycle false) = .ok (sys', b) ∧
      sys'.core.readyQueue = [.caller 1, .caller 3] := by
  obtain ⟨trace, s, hrun, hempty, hdue⟩ :
      ∃ trace, ∃ s : System (CacheConfig.small 'N' 'R' 'm' 'N' 2 true) × HitLog,
        System.HitRun .readOnlyCache (fun _ => MemFetch.load 0) trace s ∧
        s.1.core.readyQueue = [] ∧
        (s.2.hits.filter fun r => r.due (CacheConfig.small 'N' 'R' 'm' 'N' 2 true) =
          s.2.cycles + 1).map Hit.mf = [.caller 1, .caller 3] :=
    Runs.exists_run_of_exec [.access 0 (MemFetch.load 0) 0 [], .cycle false,
      .fill (.caller 0) 2, .nextAccess, .access 1 (MemFetch.load 0) 3 [],
      .access 2 { MemFetch.load 0 with dataSize := 64 } 4 [], .access 3 (MemFetch.load 0) 5 []]
      (by decide)
  obtain ⟨hcycle, -⟩ := hit_responses_on_time rfl (by decide) hrun
  obtain ⟨sys', b, hperform, hready⟩ := hcycle false
  rw [hempty, hdue] at hready
  exact ⟨trace, s, sys', b, hrun, hperform, hready⟩

end OpenCache
