/-
A cache between its caller and the memory port, driven by any sequence of method calls.

The caller submits requests and takes responses; the lower level takes what the cache pushes to the
memory port, answers the requests that wait for a fill, and is done with the others at some point.
Nothing is assumed about when either of them acts.  What they promise is `System.Promise`: a request
that the cache or the lower level still holds is not submitted again, `next_access` is called only
when `access_ready`, and a fill answers a request that was pushed and waits.

* `OpenCache.System` — the cache and the requests below it;
* `OpenCache.Op`, `OpenCache.System.perform` — the method calls and what they do;
* `OpenCache.Obs` — what the caller and the lower level see of a call;
* `OpenCache.System.Promise` — what the environment promises;
* `OpenCache.System.step_cases` — **what a step does to the core of the cache**, as one case
  distinction over the ten things that can happen;
* `OpenCache.System.perform_only` — the assertions that a call can fail on.
-/

import OpenCache.Aborts
import OpenCache.Runs

set_option relaxedAutoImplicit false
set_option autoImplicit false

namespace OpenCache

/-- A cache, and the requests it has pushed that the lower level still holds. -/
structure System (cfg : CacheConfig) where
  cache : Cache cfg
  below : List Token

/-- The calls of the environment.  An access comes with the object that the caller has built, and
with the address and the events it passes; a child response with the object that the lower level
has built. -/
inductive Op
  | access (n : ℕ) (m : MemFetch) (time : Time) (events : List CacheEvent)
  | cycle (memportFull : Bool)
  | fill (mf : Token) (time : Time)
  | fillChild (n : ℕ) (m : MemFetch) (time : Time)
  | nextAccess
  | flush
  | invalidate
  | retire (mf : Token)

/-- What is seen of a call: of an access also the request it has put into the MSHR table, if any,
and of a returned request the MSHR entry it comes from, unless it was a hit. -/
inductive Obs
  | access (mf : Token) (m : MemFetch) (status : CacheRequestStatus) (joined : Option Token)
  | cycle (pushed : Option Token)
  | fill (mf : Token)
  | nextAccess (mf : Token) (m : MemFetch) (entry : Option NewAddrType)
  | flush
  | invalidate
  | retire (mf : Token)

namespace Core

variable {cfg : CacheConfig}

/-- The requests in the hit response queue. -/
def hitTokens (s : Core cfg) : List Token := s.hitQueue.map DelayedResponseEntry.mf

/-- The requests that wait in a cache for their response. -/
def waiting (s : Core cfg) : List Token := s.hitTokens ++ s.readyQueue ++ s.entries.values

/-- A hit waits in the hit response queue. -/
theorem respond_waiting (hdefer : cfg.deferHitResponse = true) (s : Core cfg)
    (t : Token) (idx : ℕ) :
    (s.respond t idx).waiting.Perm (t :: s.waiting) := by
  rw [respond, if_pos hdefer]
  simp only [waiting, hitTokens, List.map_append, List.map_cons, List.map_nil, List.append_assoc]
  exact List.perm_middle

/-- A miss waits in the list of its MSHR entry. -/
theorem miss_waiting (s : Core cfg) (a : NewAddrType) (t : Token) (idx : ℕ) :
    (s.miss a t idx).waiting.Perm (t :: s.waiting) := by
  simp only [waiting, hitTokens, miss_frame, join]
  exact ((AList.values_insert_append _ _ _).append_left _).trans List.perm_middle

/-- The delays of hits end without a loss. -/
theorem tick_waiting {s : Core cfg} {waiting : List DelayedResponseEntry} {done : List Token}
    (h : Cache.tickHitResponses s.hitQueue = .ok (waiting, done)) :
    (s.tick waiting done).waiting.Perm s.waiting := by
  refine List.Perm.append_right _ ?_
  have hperm : (s.hitTokens ++ s.readyQueue).Perm
      (waiting.map DelayedResponseEntry.mf ++ (done ++ s.readyQueue)) := by
    rw [← List.append_assoc]
    exact (Cache.tickHitResponses_perm h).append_right _
  exact (hperm.trans (List.perm_append_comm.append_left _)).symm

/-- The first request of the ready response queue waits no longer. -/
theorem ready_waiting {s : Core cfg} {mf : Token} {rest : List Token}
    (h : s.readyQueue = mf :: rest) :
    s.waiting.Perm (mf :: ({ s with readyQueue := rest } : Core cfg).waiting) := by
  have hs : s.waiting = s.hitTokens ++ (mf :: rest) ++ s.entries.values := by rw [← h, waiting]
  rw [hs, List.append_assoc, List.cons_append]
  refine List.perm_middle.trans (List.Perm.cons _ ?_)
  rw [← List.append_assoc]
  exact List.Perm.refl _

/-- The first request of an MSHR entry waits no longer. -/
theorem deliver_waiting {s : Core cfg} {a : NewAddrType} {mf : Token} {rest : List Token}
    (h : s.entries.lookup a = some (mf :: rest)) :
    s.waiting.Perm (mf :: (s.deliver a rest).waiting) := by
  have hvalues : s.entries.values.Perm (mf :: (s.deliver a rest).entries.values) := by
    refine (AList.values_of_lookup h).trans (List.Perm.cons _ ?_)
    unfold deliver
    split
    · next hrest =>
        rw [hrest]
        exact List.Perm.refl _
    · rw [AList.values_insert]
      exact List.Perm.refl _
  have hothers : (s.deliver a rest).hitTokens ++ (s.deliver a rest).readyQueue =
      s.hitTokens ++ s.readyQueue := by
    unfold deliver
    split <;> rfl
  rw [waiting, waiting, hothers]
  exact (hvalues.append_left _).trans List.perm_middle

end Core

namespace System

variable {cfg : CacheConfig}

/-- The initial state, with any objects the environment has built. -/
def init (cfg : CacheConfig) (mfs : Token → MemFetch) : System cfg := ⟨Cache.init cfg mfs, []⟩

/-- The core of the cache. -/
def core (sys : System cfg) : Core cfg := sys.cache.core

/-- The requests that the cache has sent down and not yet heard of. -/
def sent (sys : System cfg) : List Token := sys.cache.missQueue ++ sys.below

/-- The requests that the cache or the lower level still holds. -/
def held (sys : System cfg) : List Token := sys.core.waiting ++ sys.sent

/-- Build the object that a pointer of the environment points to. -/
def build (sys : System cfg) (n : ℕ) (m : MemFetch) : Cache cfg :=
  { sys.cache with mfs := Function.update sys.cache.mfs (.caller n) m }

@[simp] theorem build_mfs_caller (sys : System cfg) (n : ℕ) (m : MemFetch) :
    (sys.build n m).mfs (.caller n) = m :=
  Function.update_self _ _ _

/-- An access with the address of the object that was built for it. -/
theorem access_of_build {sys : System cfg} {cls : CacheClass} {n : ℕ} {m : MemFetch} {time : Time}
    {status : CacheRequestStatus} {s' : Core cfg}
    (hcase : AccessCase (sys.build n m) cls m.addr (.caller n) time status s') :
    AccessCase (sys.build n m) cls ((sys.build n m).mfs (.caller n)).addr (.caller n) time status
      s' := by
  rwa [build_mfs_caller]

/-- The request that an access has added to the MSHR entry of an address. -/
def joined (before after : Core cfg) (a : NewAddrType) : Option Token :=
  if ((before.entries.lookup a).getD []).length < ((after.entries.lookup a).getD []).length then
    ((after.entries.lookup a).getD []).getLast?
  else none

/-- One call. -/
def perform (cls : CacheClass) (sys : System cfg) : Op → Step (System cfg × Obs)
  | .access n m time events => do
      let (c, status, _) ← (sys.build n m).access cls m.addr (.caller n) time events
      return (⟨c, sys.below⟩,
        .access (.caller n) m status (joined sys.core c.core (cfg.mshrAddr m.addr)))
  | .cycle memportFull => do
      let (c, pushed) ← sys.cache.cycle memportFull
      return (⟨c, sys.below ++ pushed.toList⟩, .cycle pushed)
  | .fill mf time => do
      let c ← sys.cache.fill mf time
      return (⟨c, sys.below.erase mf⟩, .fill mf)
  | .fillChild n m time => do
      let c ← (sys.build n m).fill (.caller n) time
      match m.originalMf with
      | none => .error .fillNoOriginal
      | some original =>
          return (⟨c, if c.waitingForFill original then sys.below else sys.below.erase original⟩,
            .fill original)
  | .nextAccess => do
      let (c, mf) ← sys.cache.nextAccess
      return (⟨c, sys.below⟩, .nextAccess mf (c.mfs mf)
        (if sys.core.readyQueue = [] then sys.core.answered.head? else none))
  | .flush => return (⟨sys.cache.flush, sys.below⟩, .flush)
  | .invalidate => return (⟨sys.cache.invalidate, sys.below⟩, .invalidate)
  | .retire mf => return (⟨sys.cache, sys.below.erase mf⟩, .retire mf)

/-- What the environment promises about its calls.  In a `SECTOR_ASSOC` cache a response is a new
object, a child of the request it answers; in the others it is the request itself. -/
def Promise (sys : System cfg) : Op → Prop
  | .access n _ _ _ => .caller n ∉ sys.held
  | .cycle _ => True
  | .fill mf _ =>
      cfg.mshrType ≠ .sectorAssoc ∧ mf ∈ sys.below ∧ sys.cache.waitingForFill mf = true
  | .fillChild n m _ =>
      cfg.mshrType = .sectorAssoc ∧ .caller n ∉ sys.held ∧
        ∃ original ∈ m.originalMf, original ∈ sys.below ∧
          sys.cache.waitingForFill original = true
  | .nextAccess => sys.cache.accessReady = true
  | .flush => True
  | .invalidate => True
  | .retire mf => mf ∈ sys.below ∧ sys.cache.waitingForFill mf = false

instance (sys : System cfg) (o : Op) : Decidable (sys.Promise o) := by
  induction o using Op.casesOn <;> unfold Promise <;> infer_instance

/-- The runs of a cache of class `cls` under a promise. -/
abbrev Run (cls : CacheClass) (promise : System cfg → Op → Prop) :
    System cfg → List Obs → System cfg → Prop :=
  Runs.Run (perform cls) promise

/-- The kind of response that a cache with the given MSHRs expects. -/
def Suits (cfg : CacheConfig) : Op → Prop
  | .fill _ _ => cfg.mshrType ≠ .sectorAssoc
  | .fillChild _ _ _ => cfg.mshrType = .sectorAssoc
  | _ => True

instance (o : Op) : Decidable (Suits cfg o) := by
  induction o using Op.casesOn <;> unfold Suits <;> infer_instance

theorem Promise.suits {sys : System cfg} {o : Op} (h : sys.Promise o) : Suits cfg o := by
  cases o with
  | fill mf time => exact h.1
  | fillChild n m time => exact h.1
  | _ => trivial

/-! ### What a step does to the core -/

/-- The line that a complete response fills, in a cache that allocates on misses or on fills. -/
inductive FillCase (c : Cache cfg) (m : MemFetch) (e : ExtraMfFields) (time : Time) :
    (ℕ → CacheBlock cfg.cacheType) → Prop
  | onMiss (hpolicy : cfg.allocPolicy = .onMiss)
      (hi : cfg.getSectorIndex m.accessSectorMask = .ok (cfg.sectorIndex m.accessSectorMask)) :
      FillCase c m e time (Function.update c.tagArray.lines e.cacheIndex
        ((c.tagArray.lines e.cacheIndex).fill (cfg.sectorIndex m.accessSectorMask)
          m.accessByteMask))
  | onFill (hpolicy : cfg.allocPolicy = .onFill) (ta : TagArray cfg)
      (hta : c.tagArray.fillAddr e.blockAddr time m.accessSectorMask m.accessByteMask m.isWrite =
        .ok ta) : FillCase c m e time ta.lines

/-- The things that can happen in a step, with the core and the requests below that it leaves. -/
inductive StepCase (cls : CacheClass) (sys sys' : System cfg) : Op → Obs → Prop
  | access (n : ℕ) (m : MemFetch) (time : Time) (events : List CacheEvent)
      (status : CacheRequestStatus)
      (hcase : AccessCase (sys.build n m) cls m.addr (.caller n) time status sys'.core)
      (hbelow : sys'.below = sys.below) :
      StepCase cls sys sys' (.access n m time events) (.access (.caller n) m status
        (joined sys.core sys'.core (cfg.mshrAddr m.addr)))
  | tick (memportFull : Bool) (waiting : List DelayedResponseEntry) (done : List Token)
      (htick : Cache.tickHitResponses sys.core.hitQueue = .ok (waiting, done))
      (hcore : sys'.core = sys.core.tick waiting done) (hbelow : sys'.below = sys.below) :
      StepCase cls sys sys' (.cycle memportFull) (.cycle none)
  | push (memportFull : Bool) (waiting : List DelayedResponseEntry) (done : List Token)
      (htick : Cache.tickHitResponses sys.core.hitQueue = .ok (waiting, done)) (mf : Token)
      (rest : List Token) (hqueue : sys.core.missQueue = mf :: rest)
      (hcore : sys'.core = { sys.core.tick waiting done with missQueue := rest })
      (hbelow : sys'.below = sys.below ++ [mf]) :
      StepCase cls sys sys' (.cycle memportFull) (.cycle (some mf))
  | wait (n : ℕ) (m : MemFetch) (time : Time) (original : Token)
      (horiginal : m.originalMf = some original) (e : ExtraMfFields) (pendingRead : BitVec 32)
      (he : sys.core.extra.lookup original = some e)
      (hcore : sys'.core = { (sys.build n m).core with
        extra := sys.core.extra.insert original { e with pendingRead } })
      (hbelow : sys'.below = sys.below) :
      StepCase cls sys sys' (.fillChild n m time) (.fill original)
  | complete (o : Op) (c : Cache cfg) (mf : Token) (time : Time)
      (horigin : o = .fill mf time ∧ c = sys.cache ∨
        ∃ n m, o = .fillChild n m time ∧ m.originalMf = some mf ∧ c = sys.build n m)
      (e : ExtraMfFields) (he : sys.core.extra.lookup mf = some e)
      (hentry : (sys.core.entries.lookup e.blockAddr).isSome = true)
      (lines : ℕ → CacheBlock cfg.cacheType) (hfill : FillCase c (c.mfs mf) e time lines)
      (hcore : sys'.core = { c.core.complete mf e with lines })
      (hbelow : sys'.below = sys.below.erase mf) :
      StepCase cls sys sys' o (.fill mf)
  | ready (mf : Token) (rest : List Token) (hqueue : sys.core.readyQueue = mf :: rest)
      (hpinned : ∀ idx, sys.core.pending.lookup mf = some idx →
        0 < (sys.core.lines idx).pendingResponseCount)
      (hcore : sys'.core = ({ sys.core with readyQueue := rest } : Core cfg).unpin mf)
      (hbelow : sys'.below = sys.below) :
      StepCase cls sys sys' .nextAccess (.nextAccess mf (sys.core.mfs mf) none)
  | deliver (mf : Token) (a : NewAddrType) (rest : List Token)
      (addresses : List NewAddrType) (hready : sys.core.readyQueue = [])
      (hanswered : sys.core.answered = a :: addresses)
      (hentry : sys.core.entries.lookup a = some (mf :: rest))
      (hpinned : ∀ idx, sys.core.pending.lookup mf = some idx →
        0 < (sys.core.lines idx).pendingResponseCount)
      (hcore : sys'.core = (sys.core.deliver a rest).unpin mf)
      (hbelow : sys'.below = sys.below) :
      StepCase cls sys sys' .nextAccess (.nextAccess mf (sys.core.mfs mf) (some a))
  | flush (hcore : sys'.core = sys.cache.flush.core) (hbelow : sys'.below = sys.below) :
      StepCase cls sys sys' .flush .flush
  | invalidate (hcore : sys'.core = sys.cache.invalidate.core) (hbelow : sys'.below = sys.below) :
      StepCase cls sys sys' .invalidate .invalidate
  | retire (mf : Token) (hcore : sys'.core = sys.core) (hbelow : sys'.below = sys.below.erase mf) :
      StepCase cls sys sys' (.retire mf) (.retire mf)

variable {cls : CacheClass} {sys sys' : System cfg} {o : Op} {b : Obs}

/-- A response that does not go through the children of `SECTOR_ASSOC`. -/
private theorem fill_cases {c : Cache cfg} {mf : Token} {time : Time}
    (hassoc : cfg.mshrType ≠ .sectorAssoc) (h : sys.cache.fill mf time = .ok c)
    (hsys : sys' = ⟨c, sys.below.erase mf⟩) :
    StepCase cls sys sys' (.fill mf time) (.fill mf) := by
  subst hsys
  rw [Cache.fill, if_neg hassoc] at h
  obtain ⟨e, he, hentry, hor⟩ := Cache.fillComplete_core h
  rcases hor with ⟨hon, hi, hcore⟩ | ⟨hon, ta, hta, hcore⟩
  · exact .complete _ sys.cache mf time (Or.inl ⟨rfl, rfl⟩) e he hentry _ (.onMiss hon hi) hcore rfl
  · exact .complete _ sys.cache mf time (Or.inl ⟨rfl, rfl⟩) e he hentry _ (.onFill hon ta hta)
      hcore rfl

/-- A child response: the request keeps waiting, or its response is complete. -/
private theorem fillChild_cases {c : Cache cfg} {n : ℕ} {m : MemFetch} {time : Time}
    {original : Token} (hassoc : cfg.mshrType = .sectorAssoc)
    (horiginal : m.originalMf = some original)
    (h : (sys.build n m).fill (.caller n) time = .ok c)
    (hsys : sys' =
      ⟨c, if c.waitingForFill original then sys.below else sys.below.erase original⟩) :
    StepCase cls sys sys' (.fillChild n m time) (.fill original) := by
  subst hsys
  have horig : ((sys.build n m).mfs (.caller n)).originalMf = some original := by
    simp [build, horiginal]
  rw [Cache.fill, if_pos hassoc, horig] at h
  dsimp only at h
  cases he : (sys.build n m).extraMfFields.lookup original with
  | none => simp [he] at h
  | some e =>
      simp only [he] at h
      split at h
      · cases h
        refine .wait n m time original horiginal e (e.pendingRead - 1) he rfl ?_
        simp [Cache.waitingForFill]
      · obtain ⟨e', he', hentry, hor⟩ := Cache.fillComplete_core h
        have hee : e' = { e with pendingRead := e.pendingRead - 1 } :=
          Option.some_inj.1 (he'.symm.trans (AList.lookup_insert _))
        subst hee
        have hcomplete := (sys.build n m).core.complete_insert original e (e.pendingRead - 1)
        have hcore : c.core =
            { (sys.build n m).core.complete original e with lines := c.core.lines } := by
          rw [← hcomplete]
          rcases hor with ⟨-, -, hcore⟩ | ⟨-, ta, -, hcore⟩
          · rw [hcore]
            rfl
          · rw [hcore]
            rfl
        have hwait : c.waitingForFill original = false := by
          rw [Cache.waitingForFill, show c.extraMfFields = _ from congrArg Core.extra hcore]
          simp [Core.complete]
        refine .complete _ (sys.build n m) original time (Or.inr ⟨n, m, rfl, horiginal, rfl⟩) e he
          hentry c.core.lines ?_ hcore (by simp [hwait])
        rcases hor with ⟨hon, hi, hcore⟩ | ⟨hon, ta, hta, hcore⟩
        · rw [hcore]
          exact .onMiss hon hi
        · rw [hcore]
          exact .onFill hon ta hta

/-- **What a step does to the core.** -/
theorem step_cases (hsuits : Suits cfg o) (h : sys.perform cls o = .ok (sys', b)) :
    StepCase cls sys sys' o b := by
  cases o with
  | access n m time events =>
      obtain ⟨⟨c, status, events'⟩, hacc, h⟩ := bind_eq_ok.1 h
      cases h
      have haddr : ((sys.build n m).mfs (.caller n)).addr = m.addr := by simp [build]
      exact .access n m time events status (Cache.access_cases hacc) rfl
  | cycle memportFull =>
      obtain ⟨⟨c, pushed⟩, hcycle, h⟩ := bind_eq_ok.1 h
      cases h
      obtain ⟨waiting, done, htick, ⟨rfl, hcore⟩ | ⟨mf, rest, hqueue, rfl, hcore⟩⟩ :=
        Cache.cycle_core hcycle
      · exact .tick _ waiting done htick hcore (List.append_nil _)
      · exact .push _ waiting done htick mf rest hqueue hcore rfl
  | fill mf time =>
      obtain ⟨c, hfill, h⟩ := bind_eq_ok.1 h
      cases h
      exact fill_cases hsuits hfill rfl
  | fillChild n m time =>
      obtain ⟨c, hfill, h⟩ := bind_eq_ok.1 h
      cases ho : m.originalMf with
      | none => simp [ho] at h
      | some original =>
          simp only [ho] at h
          cases h
          exact fillChild_cases hsuits ho hfill rfl
  | nextAccess =>
      obtain ⟨⟨c, mf⟩, hnext, h⟩ := bind_eq_ok.1 h
      cases h
      obtain ⟨hpinned, hor⟩ := Cache.nextAccess_core hnext
      have hmfs : c.mfs mf = sys.core.mfs mf := by
        change c.core.mfs mf = _
        rcases hor with ⟨rest, -, hcore⟩ | ⟨-, a, others, rest, -, -, hcore⟩
        · rw [hcore]
          simp [core]
        · rw [hcore]
          simp only [Core.unpin_frame, Core.deliver]
          split <;> rfl
      rw [hmfs]
      rcases hor with ⟨rest, hqueue, hcore⟩ | ⟨hready, a, others, rest, hans, hentry, hcore⟩
      · rw [if_neg (show sys.core.readyQueue ≠
          [] by simp [show sys.core.readyQueue = _ from hqueue])]
        exact .ready mf rest hqueue hpinned hcore rfl
      · rw [if_pos (show sys.core.readyQueue = [] from hready),
          show sys.core.answered = _ from hans, List.head?_cons]
        exact .deliver mf a rest others hready hans hentry hpinned hcore rfl
  | flush =>
      cases h
      exact .flush rfl rfl
  | invalidate =>
      cases h
      exact .invalidate rfl rfl
  | retire mf =>
      cases h
      exact .retire mf rfl rfl

/-- Where a fetch that is remembered comes from: it was remembered before the step, for the same
line and the same address, or an access has sent it for the line of its probe. -/
theorem StepCase.fetch_origin (h : StepCase cls sys sys' o b) {t : Token} {e : ExtraMfFields}
    (he : sys'.core.extra.lookup t = some e) :
    (∃ e₀, sys.core.extra.lookup t = some e₀ ∧ e.cacheIndex = e₀.cacheIndex ∧
        e.blockAddr = e₀.blockAddr ∧ e.addr = e₀.addr) ∨
      ∃ n m time events p, o = .access n m time events ∧
        (sys.build n m).Probes m.addr ((sys.build n m).mfs (.caller n)) p ∧
        (p.status = .hitReserved ∨ p.status = .miss ∨ p.status = .sectorMiss) ∧
        e.cacheIndex = p.idx ∧ e.blockAddr = cfg.mshrAddr m.addr := by
  have hsame : sys'.core.extra = sys.core.extra → ∃ e₀, sys.core.extra.lookup t = some e₀ ∧
      e.cacheIndex = e₀.cacheIndex ∧ e.blockAddr = e₀.blockAddr ∧ e.addr = e₀.addr := by
    intro hextra
    rw [hextra] at he
    exact ⟨e, he, rfl, rfl, rfl⟩
  cases h with
  | access n m time events status hcase =>
      have hm : (sys.build n m).mfs (.caller n) = m := by simp [build]
      rcases hcase.extra_origin he with he | ⟨p, hp, hstatus, ad, size, rfl⟩
      · exact Or.inl ⟨e, he, rfl, rfl, rfl⟩
      · refine Or.inr ⟨n, m, time, events, p, rfl, hp, hstatus, rfl, ?_⟩
        rw [hm]
        rfl
  | tick _ _ _ _ hcore => exact Or.inl (hsame (by rw [hcore]; rfl))
  | push _ _ _ _ _ _ _ hcore => exact Or.inl (hsame (by rw [hcore]; rfl))
  | wait _ _ _ original _ e₀ _ he₀ hcore =>
      rw [hcore] at he
      by_cases ht : t = original
      · subst ht
        rw [AList.lookup_insert] at he
        obtain rfl := Option.some_inj.1 he
        exact Or.inl ⟨e₀, he₀, rfl, rfl, rfl⟩
      · rw [AList.lookup_insert_ne ht] at he
        exact Or.inl ⟨e, he, rfl, rfl, rfl⟩
  | complete _ c mf _ horigin _ _ _ _ _ hcore =>
      have hc : c.core.extra = sys.core.extra := by
        rcases horigin with ⟨-, rfl⟩ | ⟨_, _, -, -, rfl⟩ <;> rfl
      rw [hcore] at he
      change (c.core.extra.erase mf).lookup t = some e at he
      rw [hc] at he
      by_cases ht : t = mf
      · subst ht
        rw [AList.lookup_erase] at he
        cases he
      · rw [AList.lookup_erase_ne ht] at he
        exact Or.inl ⟨e, he, rfl, rfl, rfl⟩
  | ready _ _ _ _ hcore => exact Or.inl (hsame (by rw [hcore]; simp))
  | deliver _ _ _ _ _ _ _ _ hcore =>
      refine Or.inl (hsame ?_)
      rw [hcore, (Core.unpin_frame _ _).2.2.2.1, Core.deliver]
      split <;> rfl
  | flush hcore => exact Or.inl (hsame (by rw [hcore]; rfl))
  | invalidate hcore => exact Or.inl (hsame (by rw [hcore]; rfl))
  | retire _ hcore => exact Or.inl (hsame (by rw [hcore]))

/-- The assertions that a call can fail on are those of the method it calls. -/
theorem perform_only {P : Abort → Prop} (hP : ∀ e : Abort, e.plain = true → P e)
    (haccess : ∀ n m time events, o = .access n m time events →
      Raises.Only P ((sys.build n m).access cls m.addr (.caller n) time events))
    (hfill : ∀ mf time, o = .fill mf time → Raises.Only P (sys.cache.fill mf time))
    (hchild : ∀ n m time, o = .fillChild n m time →
      Raises.Only P ((sys.build n m).fill (.caller n) time) ∧
        (m.originalMf = none → P .fillNoOriginal))
    (hnext : o = .nextAccess → Raises.Only P sys.cache.nextAccess) :
    Raises.Only P (sys.perform cls o) := by
  cases o with
  | access n m time events => exact .bind (haccess n m time events rfl) fun _ _ => .ok _
  | cycle memportFull => exact .bind (Cache.cycle_only hP _ _) fun _ _ => .ok _
  | fill mf time => exact .bind (hfill mf time rfl) fun _ _ => .ok _
  | fillChild n m time =>
      refine .bind (hchild n m time rfl).1 fun _ _ => ?_
      cases ho : m.originalMf with
      | none => exact .error ((hchild n m time rfl).2 ho)
      | some original => exact .ok _
  | nextAccess => exact .bind (hnext rfl) fun _ _ => .ok _
  | flush => exact .ok _
  | invalidate => exact .ok _
  | retire mf => exact .ok _

end System

end OpenCache
