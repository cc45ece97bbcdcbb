/-
The final check of a cache: `no_pending_accesses` and `queues_empty`.

`no_pending_accesses` looks at three queues.  A request that has left the miss queue for the lower
level is in none of them, and neither is a response that is ready in the MSHR table: the check
passes while requests are still owed.

* `OpenCache.Cache.noPendingAccesses`, `OpenCache.Cache.queuesEmpty` — the two checks;
* `OpenCache.Unpinned` — the invariant of the caches that do not defer their hits: nothing is ever
  pinned;
* `OpenCache.final_check_sound_iff` — **the check is sound exactly in the states where the lower
  level has answered every fetch and every response has been read**;
* `OpenCache.final_check_passes_with_fetch_below` — a read that is pending below passes the check.
-/

import OpenCache.Pins
import OpenCache.Fetches

set_option relaxedAutoImplicit false
set_option autoImplicit false

namespace OpenCache

variable {cfg : CacheConfig}

namespace Cache

/-- `no_pending_accesses`. -/
def noPendingAccesses (c : Cache cfg) : Bool :=
  c.missQueue.isEmpty && c.hitResponseQueue.isEmpty && c.readyResponseQueue.isEmpty

/-- `queues_empty`. -/
def queuesEmpty (c : Cache cfg) : Bool :=
  c.missQueue.isEmpty && c.extraMfFields.entries.isEmpty && c.hitResponseQueue.isEmpty &&
    c.readyResponseQueue.isEmpty && c.pendingResponseIndices.entries.isEmpty && c.mshrs.empty

end Cache

/-! ### Caches that do not defer their hits -/

/-- Nothing is pinned. -/
structure Unpinned (s : Core cfg) : Prop where
  pending : s.pending = ∅
  count : ∀ i, (s.lines i).pendingResponseCount = 0

namespace Unpinned

variable {s s' : Core cfg}

theorem of_same (h : Unpinned s) (hpending : s'.pending = s.pending)
    (hcount : ∀ i, (s'.lines i).pendingResponseCount = (s.lines i).pendingResponseCount) :
    Unpinned s' :=
  ⟨hpending.trans h.pending, fun i => (hcount i).trans (h.count i)⟩

/-- One line changes, and keeps its pins. -/
theorem of_update (h : Unpinned s) {idx : ℕ} {b : CacheBlock cfg.cacheType}
    (hpending : s'.pending = s.pending) (hlines : s'.lines = Function.update s.lines idx b)
    (hb : b.pendingResponseCount = (s.lines idx).pendingResponseCount) : Unpinned s' := by
  refine h.of_same hpending fun i => ?_
  rw [hlines]
  by_cases hi : i = idx
  · subst hi
    rw [Function.update_self, hb]
  · rw [Function.update_of_ne hi]

theorem unpin (h : Unpinned s) (mf : Token) : Unpinned (s.unpin mf) := by
  have hnone : s.pending.lookup mf = none := by
    rw [h.pending]
    rfl
  rw [Core.unpin, hnone]
  exact h

/-- Without deferred responses, an access pins nothing. -/
theorem access {c : Cache cfg} {cls : CacheClass} {addr : NewAddrType} {mf : Token} {time : Time}
    {status : CacheRequestStatus} (h : Unpinned c.core) (hdefer : cfg.deferHitResponse = false)
    (hcase : AccessCase c cls addr mf time status s') : Unpinned s' := by
  cases hcase with
  | refused => exact h
  | hit p hp _ _ line forward heffect =>
      have hrespond : ∀ s : Core cfg, s.respond mf p.idx = s := fun s => by
        simp [Core.respond, hdefer]
      rw [hrespond]
      exact h.of_update (by simp [Core.setLine]) (by simp [Core.setLine])
        (SameTenant.hitEffect heffect).count
  | forward p hp => exact h.of_same rfl fun _ => rfl
  | write p hp _ _ _ _ _ line forward heffect =>
      exact h.of_update (by simp [Core.setLine]) (by simp [Core.setLine])
        ((SameTenant.writeEffect heffect).count.trans (Accounted.touched_count hp))
  | fetch p hp _ _ reader s written hfetcher =>
      obtain ⟨hlines, -, -, -, -, -, hpending⟩ := hfetcher.frame
      have hb : (written (c.touched addr (c.mfs mf) time p)).pendingResponseCount =
          (c.core.lines p.idx).pendingResponseCount :=
        (SameTenant.fetcher hfetcher _).count.trans (Accounted.touched_count hp)
      refine h.of_update ?_ ?_ hb
      · simp [Core.setLine, Core.pinMiss, hdefer, hpending]
      · simp [Core.setLine, Core.pinMiss, hdefer, hlines]

/-- One step pins nothing. -/
theorem step {sys sys' : System cfg} {cls : CacheClass} {o : Op} {b : Obs}
    (h : Unpinned sys.core) (hdefer : cfg.deferHitResponse = false) (hsuits : System.Suits cfg o)
    (hperform : sys.perform cls o = .ok (sys', b)) : Unpinned sys'.core := by
  cases System.step_cases hsuits hperform with
  | access n m time events status hcase hbelow =>
      have hbuild : Unpinned (sys.build n m).core := h.of_same rfl fun _ => rfl
      exact hbuild.access hdefer hcase
  | tick memportFull waiting done htick hcore hbelow =>
      rw [hcore]
      exact h.of_same rfl fun _ => rfl
  | push memportFull waiting done htick mf rest hqueue hcore hbelow =>
      rw [hcore]
      exact h.of_same rfl fun _ => rfl
  | wait n m time original horiginal e pendingRead he hcore hbelow =>
      rw [hcore]
      exact h.of_same rfl fun _ => rfl
  | complete o c mf time horigin e he hentry lines hfill hcore hbelow =>
      have hc : c.tagArray.lines = sys.core.lines ∧ c.core.pending = sys.core.pending := by
        rcases horigin with ⟨-, rfl⟩ | ⟨n, m, -, -, rfl⟩ <;> exact ⟨rfl, rfl⟩
      rw [hcore]
      refine h.of_same hc.2 fun i => ?_
      rw [← hc.1]
      exact Accounted.fill_count hfill i
  | ready mf rest hqueue hpinned hcore hbelow =>
      rw [hcore]
      have hpopped : Unpinned { sys.core with readyQueue := rest } := h.of_same rfl fun _ => rfl
      exact hpopped.unpin mf
  | deliver mf a rest addresses hready hanswered hentry hpinned hcore hbelow =>
      rw [hcore]
      refine Unpinned.unpin ?_ mf
      refine h.of_same ?_ fun i => ?_
      · unfold Core.deliver
        split <;> rfl
      · unfold Core.deliver
        split <;> rfl
  | flush hcore hbelow =>
      rw [hcore]
      exact h.of_same rfl fun i => (SameTenant.flush _ i).count
  | invalidate hcore hbelow =>
      rw [hcore]
      exact h.of_same rfl fun i => (SameTenant.invalidate _ i).count
  | retire mf hcore hbelow =>
      rw [hcore]
      exact h.of_same rfl fun _ => rfl

/-- Nothing is pinned in any state that can be reached. -/
theorem of_run {cls : CacheClass} {mfs : Token → MemFetch} {trace : List Obs} {sys : System cfg}
    (hdefer : cfg.deferHitResponse = false)
    (h : System.Run cls System.Promise (System.init cfg mfs) trace sys) : Unpinned sys.core := by
  refine Runs.Run.state_invariant (fun s => Unpinned s.core) ⟨rfl, fun _ => rfl⟩ ?_ h
  intro s o s' b hs hpromise hperform
  exact hs.step hdefer hpromise.suits hperform

end Unpinned

/-! ### The check -/

section Run

variable {cls : CacheClass} {mfs : Token → MemFetch} {trace : List Obs} {sys : System cfg}

/-- When no request waits, no line is pinned and no index is kept. -/
theorem unpinned_of_waiting (hrun : System.Run cls System.Promise (System.init cfg mfs) trace sys)
    (hwaiting : sys.core.waiting = []) :
    sys.core.pending = ∅ ∧ ∀ i, (sys.core.lines i).isPinned = false := by
  cases hdefer : cfg.deferHitResponse with
  | false =>
      have hunpinned := Unpinned.of_run hdefer hrun
      refine ⟨hunpinned.pending, fun i => ?_⟩
      simp [CacheBlock.isPinned, hunpinned.count i]
  | true =>
      have hacc := Accounted.of_run hdefer (hrun.mono fun _ _ h => h.distinct)
      constructor
      · have hkeys := hacc.keys
        rw [hwaiting, List.perm_nil] at hkeys
        refine AList.ext ?_
        exact List.map_eq_nil_iff.1 hkeys
      · intro i
        refine (hacc.isPinned_eq_false_iff i).2 fun t ht => ?_
        rw [hwaiting] at ht
        cases ht

/-- **The final check is sound exactly where nothing is left to be answered or read.**  In every
state that can be reached, with deferred hits or without, if `no_pending_accesses` returns true,
then `queues_empty` is true and no line is pinned if and only if no request below is still waited
for and no response is ready. -/
theorem final_check_sound_iff (hrun : System.Run cls System.Promise (System.init cfg mfs) trace sys)
    (hcheck : sys.cache.noPendingAccesses = true) :
    (sys.cache.queuesEmpty = true ∧ ∀ i, (sys.core.lines i).isPinned = false) ↔
      (∀ t ∈ sys.below, sys.cache.waitingForFill t = false) ∧ sys.cache.accessReady = false := by
  obtain ⟨⟨hmiss, hhit⟩, hready⟩ : (sys.cache.missQueue = [] ∧ sys.cache.hitResponseQueue = []) ∧
      sys.cache.readyResponseQueue = [] := by
    simpa [Cache.noPendingAccesses] using hcheck
  constructor
  · rintro ⟨hempty, -⟩
    simp only [Cache.queuesEmpty, MshrTable.empty, Bool.and_eq_true, List.isEmpty_iff] at hempty
    obtain ⟨⟨⟨⟨⟨-, hextra⟩, -⟩, -⟩, -⟩, -, hanswered⟩ := hempty
    constructor
    · intro t _
      simp [Cache.waitingForFill, AList.lookup, hextra]
    · simp [Cache.accessReady, MshrTable.accessReady, hready, hanswered]
  · rintro ⟨hbelow, hread⟩
    have htracked : Tracked sys.core sys.sent := Tracked.of_run (hrun.mono fun _ _ h => h.answers)
    have hnone : ∀ t e, sys.core.extra.lookup t ≠ some e := by
      intro t e he
      have hsent := htracked.mem_sent he
      rw [System.sent, hmiss, List.nil_append] at hsent
      have hwaits := hbelow t hsent
      rw [Cache.waitingForFill] at hwaits
      have hlookup : sys.cache.extraMfFields.lookup t = some e := he
      rw [hlookup] at hwaits
      cases hwaits
    have hanswered' : sys.cache.mshrs.currentResponse = [] := by
      simpa [Cache.accessReady, MshrTable.accessReady, hready] using hread
    have hanswered : sys.core.answered = [] := hanswered'
    -- an entry is ready, or its fetch is below
    have hentries : ∀ a, a ∉ sys.core.entries := by
      intro a ha
      obtain ⟨t, e, he, -⟩ := htracked.fetched a ha (by simp [hanswered])
      exact hnone t e he
    have hdata : sys.core.entries.entries = [] := by
      refine List.eq_nil_iff_forall_not_mem.2 fun e he => ?_
      exact hentries e.1 (List.mem_map_of_mem he)
    have hextra : sys.core.extra.entries = [] := by
      refine List.eq_nil_iff_forall_not_mem.2 fun e he => ?_
      exact hnone e.1 e.2 (AList.mem_lookup_iff.2 he)
    have hwaiting : sys.core.waiting = [] := by
      have hhit' : sys.core.hitQueue = [] := hhit
      have hready' : sys.core.readyQueue = [] := hready
      simp [Core.waiting, Core.hitTokens, hhit', hready', AList.values, hdata]
    obtain ⟨hpending, hpins⟩ := unpinned_of_waiting hrun hwaiting
    refine ⟨?_, hpins⟩
    have hdata' : sys.cache.mshrs.data.entries = [] := hdata
    have hextra' : sys.cache.extraMfFields.entries = [] := hextra
    have hpending' : sys.cache.pendingResponseIndices = ∅ := hpending
    simp [Cache.queuesEmpty, MshrTable.empty, hmiss, hhit, hready, hdata', hextra', hpending',
      hanswered']

end Run

/-- A read is sent, answered and returned, and a write-through is below: the check is sound. -/
theorem final_check_sound_iff_drained :
    ∃ trace sys, System.Run (.dataCache .l1) System.Promise
        (System.init (CacheConfig.small 'S' 'T' 'm' 'N' 2 true) fun _ => MemFetch.load 0)
        trace sys ∧
      sys.below = [.caller 1] ∧ sys.cache.queuesEmpty = true := by
  obtain ⟨trace, sys, hrun, hcheck, hbelow, hanswered, hread⟩ :
      ∃ trace sys, System.Run (.dataCache .l1) System.Promise
          (System.init (CacheConfig.small 'S' 'T' 'm' 'N' 2 true) fun _ => MemFetch.load 0)
            trace sys ∧
        sys.cache.noPendingAccesses = true ∧ sys.below = [.caller 1] ∧
        (∀ t ∈ sys.below, sys.cache.waitingForFill t = false) ∧ sys.cache.accessReady = false :=
    Runs.exists_run_of_exec [.access 0 (MemFetch.load 0) 0 [],
      .access 1 (MemFetch.store 32 {32}) 1 [], .cycle false, .cycle false, .fill (.caller 0) 2,
      .nextAccess] (by decide)
  exact ⟨trace, sys, hrun, hbelow, ((final_check_sound_iff hrun hcheck).2 ⟨hanswered, hread⟩).1⟩

/-- A read has left the miss queue for the lower level: the check passes, and the request is still
owed, with its entry, its extra fields and its pin. -/
theorem final_check_passes_with_fetch_below :
    ∃ trace sys, System.Run (.dataCache .l1) System.Promise
        (System.init (CacheConfig.small 'S' 'B' 'm' 'W' 2 true) fun _ => MemFetch.load 0)
        trace sys ∧
      sys.cache.noPendingAccesses = true ∧ sys.cache.queuesEmpty = false ∧
      sys.core.entries.lookup 0 = some [.caller 0] ∧ (sys.core.extra.lookup (.caller 0)).isSome ∧
      sys.core.pending.lookup (.caller 0) = some 1 ∧ (sys.core.lines 1).isPinned = true :=
  Runs.exists_run_of_exec [.access 0 (MemFetch.load 0) 0 [], .cycle false] (by decide)

end OpenCache
