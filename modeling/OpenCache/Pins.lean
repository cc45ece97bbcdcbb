/-
Accounting for the pins: which requests wait in the cache for their response, and which lines are
pinned for them.

With deferred responses every accepted request is pinned on the line it was accepted on, under its
token, until `next_access` returns it.  The requests wait in the hit response queue, in the ready
response queue, or in the list of an MSHR entry.

* `OpenCache.Accounted` — the invariant: the keys of the pending response indices are the requests
  that wait, and the count of a line is the number of keys that map to it;
* `OpenCache.Accounted.access`, `OpenCache.Accounted.unpin` — accepting a request adds a key and a
  pin, returning one removes them;
* `OpenCache.Accounted.of_run` — the invariant holds in every state of every run;
* `OpenCache.refcount_accounts_for_waiting` — **the reference counts are exact**.
-/

import OpenCache.System

set_option relaxedAutoImplicit false
set_option autoImplicit false

namespace OpenCache

variable {cfg : CacheConfig}

/-- The promise that the pins need: a request that waits for its response is not submitted again,
and the responses are of the kind the cache expects. -/
def System.Distinct (sys : System cfg) : Op → Prop
  | .access n _ _ _ => .caller n ∉ sys.core.waiting
  | o => System.Suits cfg o

theorem System.Distinct.suits {sys : System cfg} {o : Op} (h : sys.Distinct o) :
    System.Suits cfg o := by
  cases o with
  | access n m time events => trivial
  | _ => exact h

theorem System.Promise.distinct {sys : System cfg} {o : Op} (h : sys.Promise o) :
    sys.Distinct o := by
  cases o with
  | access n m time events => exact fun hmem => h (List.mem_append_left _ hmem)
  | fill mf time => exact h.1
  | fillChild n m time => exact h.1
  | _ => trivial

/-- The number of requests that are pinned on a line. -/
def Core.pinsOn (s : Core cfg) (i : ℕ) : ℕ := s.pending.entries.countP fun e => e.2 = i

/-- Every request that waits is pinned on one line, and no other pin is counted. -/
structure Accounted (s : Core cfg) : Prop where
  keys : s.pending.keys.Perm s.waiting
  count : ∀ i, (s.lines i).pendingResponseCount = s.pinsOn i
  created : ∀ n, .created n ∈ s.waiting → n < s.created

namespace Accounted

variable {s : Core cfg}

theorem nodup (h : Accounted s) : s.waiting.Nodup := h.keys.nodup_iff.1 s.pending.keys_nodup

theorem mem_pending (h : Accounted s) {t : Token} : t ∈ s.pending ↔ t ∈ s.waiting := by
  rw [AList.mem_keys, h.keys.mem_iff]

/-! ### Updates that accept nothing -/

/-- An update that keeps the requests that wait, the pins and the counts of the lines. -/
theorem of_same {s' : Core cfg} (h : Accounted s) (hwaiting : s'.waiting.Perm s.waiting)
    (hpending : s'.pending = s.pending)
    (hcount : ∀ i, (s'.lines i).pendingResponseCount = (s.lines i).pendingResponseCount)
    (hcreated : s.created ≤ s'.created) : Accounted s' where
  keys := by
    rw [hpending]
    exact h.keys.trans hwaiting.symm
  count := by
    intro i
    rw [hcount, h.count, Core.pinsOn, Core.pinsOn, hpending]
  created := by
    intro n hn
    exact (h.created n (hwaiting.mem_iff.1 hn)).trans_le hcreated

theorem setLine (h : Accounted s) {idx : ℕ} {b : CacheBlock cfg.cacheType}
    (hb : b.pendingResponseCount = (s.lines idx).pendingResponseCount) :
    Accounted (s.setLine idx b) := by
  refine h.of_same (List.Perm.refl _) rfl ?_ le_rfl
  intro i
  by_cases hi : i = idx
  · rw [hi, Core.setLine_lines_self, hb]
  · simp [Core.setLine, hi]

theorem enqueueIf (h : Accounted s) (b : Bool) (mf : Token) : Accounted (s.enqueueIf b mf) :=
  h.of_same (by simp [Core.waiting, Core.hitTokens]) (by simp) (by simp) (by simp)

theorem alloc (h : Accounted s) (m : MemFetch) : Accounted (s.alloc m) :=
  h.of_same (List.Perm.refl _) rfl (fun _ => rfl) (Nat.le_succ _)

theorem sendOwn (h : Accounted s) (m : Option MemFetch) : Accounted (s.sendOwn m) := by
  cases m with
  | none => exact h
  | some m => exact h.of_same (List.Perm.refl _) rfl (fun _ => rfl) (Nat.le_succ _)

/-! ### Accepting and returning -/

/-- A request that is pinned on a line and put where it waits. -/
theorem accept {s' : Core cfg} (h : Accounted s) {t : Token} (idx : ℕ) (ht : t ∉ s.waiting)
    (hcreated : ∀ n, t = .created n → n < s.created) (hwaiting : s'.waiting.Perm (t :: s.waiting))
    (hpending : s'.pending = s.pending.insert t idx)
    (hlines : s'.lines = (s.setLine idx (s.lines idx).pin).lines)
    (hle : s'.created = s.created) : Accounted s' := by
  have hnot : t ∉ s.pending := fun hmem => ht (h.mem_pending.1 hmem)
  refine ⟨?_, ?_, ?_⟩
  · rw [hpending, AList.keys_insert, List.erase_of_not_mem (by rwa [← AList.mem_keys])]
    exact (h.keys.cons t).trans hwaiting.symm
  · intro i
    rw [hlines, Core.pinsOn, hpending, AList.countP_insert, AList.erase_of_notMem hnot,
      ← Core.pinsOn, ← h.count]
    by_cases hi : i = idx
    · subst hi
      simp [Core.setLine, CacheBlock.pin]
    · simp [Core.setLine, hi, Ne.symm hi]
  · intro n hn
    rw [hle]
    rcases List.mem_cons.1 (hwaiting.mem_iff.1 hn) with hn | hn
    · exact hcreated n hn.symm
    · exact h.created n hn

/-- A request that is returned. -/
theorem unpin {s' : Core cfg} (h : Accounted s) {t : Token}
    (hwaiting : s.waiting.Perm (t :: s'.waiting)) (hpending : s'.pending = s.pending)
    (hlines : s'.lines = s.lines) (hle : s'.created = s.created) : Accounted (s'.unpin t) := by
  have hmem : t ∈ s.pending := h.mem_pending.2 (hwaiting.mem_iff.2 List.mem_cons_self)
  obtain ⟨idx, hidx⟩ := Option.isSome_iff_exists.1 (AList.lookup_isSome.2 hmem)
  have hunpin : s'.unpin t = { s'.setLine idx { s'.lines idx with
      pendingResponseCount := (s'.lines idx).pendingResponseCount - 1 } with
      pending := s'.pending.erase t } := by
    rw [Core.unpin, hpending, hidx]
  have hcount : ∀ i, s.pinsOn i =
      (s.pending.erase t).entries.countP (fun e => e.2 = i) + if idx = i then 1 else 0 := by
    intro i
    rw [Core.pinsOn, AList.countP_of_lookup _ hidx]
    simp
  refine ⟨?_, ?_, ?_⟩
  · have hkeys : (s.pending.erase t).keys.Perm s'.waiting := by
      rw [AList.keys_erase]
      have hperm := (h.keys.trans hwaiting).erase t
      rwa [List.erase_cons_head] at hperm
    rw [hunpin, hpending]
    exact hkeys
  · intro i
    rw [hunpin, Core.pinsOn, hpending, hlines]
    have hi := hcount i
    rw [← h.count] at hi
    by_cases hidx' : i = idx
    · subst hidx'
      simpa [Core.setLine] using Nat.sub_eq_of_eq_add hi
    · rw [if_neg (Ne.symm hidx'), Nat.add_zero] at hi
      simpa [Core.setLine, hidx', hlines] using hi
  · intro n hn
    simp only [Core.unpin_frame, hle]
    refine h.created n (hwaiting.mem_iff.2 (List.mem_cons_of_mem _ ?_))
    simpa [Core.waiting, Core.hitTokens] using hn

section Defer

variable (hdefer : cfg.deferHitResponse = true) {t : Token}

include hdefer

/-- A hit waits in the hit response queue. -/
theorem respond (h : Accounted s) (ht : t ∉ s.waiting)
    (hcreated : ∀ n, t = .created n → n < s.created) (idx : ℕ) : Accounted (s.respond t idx) := by
  refine h.accept idx ht hcreated (Core.respond_waiting hdefer s t idx) ?_ ?_ (by simp) <;>
    rw [Core.respond, if_pos hdefer] <;> rfl

/-- A miss waits in the list of its MSHR entry. -/
theorem miss (h : Accounted s) (ht : t ∉ s.waiting) (hcreated : ∀ n, t = .created n → n < s.created)
    (a : NewAddrType) (idx : ℕ) : Accounted (s.miss a t idx) := by
  refine h.accept idx ht hcreated (s.miss_waiting a t idx) ?_ ?_ (by simp)
  · simp [Core.pinMiss, hdefer, Core.pin]
  · simp [Core.pinMiss, hdefer, Core.pin]

end Defer

/-! ### One access -/

section Access

variable {c : Cache cfg} {cls : CacheClass} {addr : NewAddrType} {mf : Token} {time : Time}
  {status : CacheRequestStatus} {s' : Core cfg}

/-- The line that an access has found or taken has as many pins as before: a victim has none. -/
theorem touched_count {p : ProbeResult} (hp : c.Probes addr (c.mfs mf) p) :
    (c.touched addr (c.mfs mf) time p).pendingResponseCount =
      (c.tagArray.lines p.idx).pendingResponseCount := by
  by_cases hs : p.status = .miss ∧ cfg.allocPolicy = .onMiss
  · rw [TagArray.count_of_miss hp hs.1, Cache.touched, hs.1]
    simp only [TagArray.touchedLine, if_pos hs.2]
    exact (CacheBlock.allocate_tenant _ _ _ _ _).2.2
  · exact (SameTenant.touchedLine (not_and_or.1 hs) _).count

/-- The request that fetches is new to the cache. -/
theorem fetcher {reader : Token} {s : Core cfg}
    {written : CacheBlock cfg.cacheType → CacheBlock cfg.cacheType} (h : Accounted c.core)
    (hnew : mf ∉ c.core.waiting) (hcaller : ∀ n, mf ≠ .created n)
    (hf : Fetcher cfg cls mf c.core reader s written) :
    Accounted s ∧ s.lines = c.core.lines ∧ reader ∉ s.waiting ∧
      ∀ n, reader = .created n → n < s.created := by
  have hfresh : .created c.core.created ∉ c.core.waiting := fun hmem =>
    lt_irrefl _ (h.created _ hmem)
  cases hf with
  | read => exact ⟨h, rfl, hnew, fun n hn => absurd hn (hcaller n)⟩
  | naive =>
      refine ⟨(h.enqueueIf true mf).alloc _, rfl, hfresh, ?_⟩
      rintro n ⟨⟩
      exact Nat.lt_succ_self _
  | fetchOnWrite =>
      refine ⟨h.alloc _, rfl, hfresh, ?_⟩
      rintro n ⟨⟩
      exact Nat.lt_succ_self _

/-- An access that is accepted as a hit, or into the MSHR table, adds a key and a pin; the others
leave the pins as they are. -/
theorem access (hdefer : cfg.deferHitResponse = true) (h : Accounted c.core)
    (hnew : mf ∉ c.core.waiting) (hcaller : ∀ n, mf ≠ .created n)
    (hcase : AccessCase c cls addr mf time status s') : Accounted s' := by
  cases hcase with
  | refused => exact h
  | hit p hp _ _ line forward heffect =>
      have hline := (h.setLine (SameTenant.hitEffect heffect).count).enqueueIf forward mf
      refine hline.respond hdefer ?_ (fun n hn => absurd hn (hcaller n)) p.idx
      simpa [Core.waiting, Core.hitTokens, Core.setLine] using hnew
  | forward p hp => exact h.of_same (List.Perm.refl _) rfl (fun _ => rfl) le_rfl
  | write p hp _ _ _ _ _ line forward heffect =>
      refine ((h.enqueueIf forward mf).setLine ?_).sendOwn _
      rw [(SameTenant.writeEffect heffect).count, touched_count hp]
      simp only [Core.enqueueIf_frame]
      rfl
  | fetch p hp _ _ reader s written hfetcher =>
      obtain ⟨hs, hlines, hreader, hlt⟩ := h.fetcher hnew hcaller hfetcher
      have htouched : Accounted (s.setLine p.idx (c.touched addr (c.mfs mf) time p)) := by
        refine hs.setLine ?_
        rw [touched_count hp, hlines]
        rfl
      have hmiss := htouched.miss hdefer hreader hlt (cfg.mshrAddr (c.mfs mf).addr) p.idx
      exact (hmiss.setLine (SameTenant.fetcher hfetcher _).count).sendOwn _

end Access

/-! ### One step -/

section Step

variable {sys sys' : System cfg} {cls : CacheClass} {o : Op} {b : Obs}

/-- A fill leaves the number of pins of every line: if it takes a victim, that has none. -/
theorem fill_count {c : Cache cfg} {m : MemFetch} {e : ExtraMfFields} {time : Time}
    {lines : ℕ → CacheBlock cfg.cacheType} (h : System.FillCase c m e time lines) (i : ℕ) :
    (lines i).pendingResponseCount = (c.tagArray.lines i).pendingResponseCount := by
  have hupdate : ∀ idx (new : CacheBlock cfg.cacheType),
      new.pendingResponseCount = (c.tagArray.lines idx).pendingResponseCount →
      (Function.update c.tagArray.lines idx new i).pendingResponseCount =
        (c.tagArray.lines i).pendingResponseCount := by
    intro idx new hnew
    by_cases hi : i = idx
    · rw [hi, Function.update_self, hnew]
    · rw [Function.update_of_ne hi]
  cases h with
  | onMiss => exact hupdate _ _ (SameTenant.fill _ _ _).count
  | onFill _ ta hta =>
      obtain ⟨p, hp, ⟨-, hlines⟩ | ⟨-, -, hlines⟩⟩ := TagArray.fillAddr_eq_ok hta
      · rw [hlines]
      · rw [hlines]
        refine hupdate _ _ ((SameTenant.fill _ _ _).count.trans ?_)
        cases hs : p.status with
        | miss => rw [TagArray.count_of_miss hp hs, TagArray.fillTarget,
            (CacheBlock.allocate_tenant _ _ _ _ _).2.2]
        | _ => rfl

/-- **One step keeps the account of the pins.** -/
theorem step (hdefer : cfg.deferHitResponse = true) (h : Accounted sys.core)
    (hpromise : sys.Distinct o) (hperform : sys.perform cls o = .ok (sys', b)) :
    Accounted sys'.core := by
  cases System.step_cases hpromise.suits hperform with
  | access n m time events status hcase hbelow =>
      have hbuild : Accounted (sys.build n m).core :=
        h.of_same (List.Perm.refl _) rfl (fun _ => rfl) le_rfl
      exact hbuild.access hdefer hpromise (by simp) hcase
  | tick memportFull waiting done htick hcore hbelow =>
      rw [hcore]
      exact h.of_same (Core.tick_waiting htick) rfl (fun _ => rfl) le_rfl
  | push memportFull waiting done htick mf rest hqueue hcore hbelow =>
      rw [hcore]
      exact h.of_same (Core.tick_waiting htick) rfl (fun _ => rfl) le_rfl
  | wait n m time original horiginal e pendingRead he hcore hbelow =>
      rw [hcore]
      exact h.of_same (List.Perm.refl _) rfl (fun _ => rfl) le_rfl
  | complete o c mf time horigin e he hentry lines hfill hcore hbelow =>
      have hlines : c.tagArray.lines = sys.core.lines ∧ c.core.waiting = sys.core.waiting ∧
          c.core.pending = sys.core.pending ∧ c.core.created = sys.core.created := by
        rcases horigin with ⟨-, rfl⟩ | ⟨n, m, -, -, rfl⟩ <;> exact ⟨rfl, rfl, rfl, rfl⟩
      rw [hcore]
      refine h.of_same (List.Perm.of_eq hlines.2.1) hlines.2.2.1 (fun i => ?_) hlines.2.2.2.ge
      rw [← hlines.1]
      exact fill_count hfill i
  | ready mf rest hqueue hpinned hcore hbelow =>
      rw [hcore]
      exact h.unpin (Core.ready_waiting hqueue) rfl rfl rfl
  | deliver mf a rest addresses hready hanswered hentry hpinned hcore hbelow =>
      rw [hcore]
      refine h.unpin (Core.deliver_waiting hentry) ?_ ?_ ?_ <;>
        · unfold Core.deliver
          split <;> rfl
  | flush hcore hbelow =>
      rw [hcore]
      exact h.of_same (List.Perm.refl _) rfl (fun i => (SameTenant.flush _ i).count) le_rfl
  | invalidate hcore hbelow =>
      rw [hcore]
      exact h.of_same (List.Perm.refl _) rfl (fun i => (SameTenant.invalidate _ i).count) le_rfl
  | retire mf hcore hbelow =>
      rw [hcore]
      exact h

end Step

/-- **The account of the pins is right in every state that can be reached.** -/
theorem of_run {cls : CacheClass} {mfs : Token → MemFetch} {trace : List Obs} {sys : System cfg}
    (hdefer : cfg.deferHitResponse = true)
    (h : System.Run cls System.Distinct (System.init cfg mfs) trace sys) : Accounted sys.core := by
  refine Runs.Run.state_invariant (fun s => Accounted s.core) ?_ ?_ h
  · exact ⟨List.Perm.refl _, fun _ => rfl, by simp [Core.waiting, Core.hitTokens, System.core,
      System.init, Cache.core, Cache.init, MshrTable.init, AList.values]⟩
  · intro s o s' b hs hp hperform
    exact hs.step hdefer hp hperform

/-- A line is unpinned exactly when no request that waits is pinned on it. -/
theorem isPinned_eq_false_iff (h : Accounted s) (i : ℕ) :
    (s.lines i).isPinned = false ↔ ∀ t ∈ s.waiting, s.pending.lookup t ≠ some i := by
  have hzero : (s.lines i).isPinned = false ↔ s.pinsOn i = 0 := by
    simp [CacheBlock.isPinned, h.count]
  rw [hzero, Core.pinsOn, List.countP_eq_zero]
  constructor
  · intro hnone t _ ht
    exact hnone ⟨t, i⟩ (AList.mem_lookup_iff.1 ht) (by simp)
  · rintro hnone ⟨t, j⟩ he hj
    have hlookup : s.pending.lookup t = some j := AList.mem_lookup_iff.2 he
    have hij : j = i := by simpa using hj
    refine hnone t (h.mem_pending.1 (AList.lookup_isSome.1 ?_)) (hij ▸ hlookup)
    rw [hlookup]
    rfl

/-- The line that a request is pinned on has a pin. -/
theorem count_ne_zero (h : Accounted s) {t : Token} {i : ℕ} (hi : s.pending.lookup t = some i) :
    (s.lines i).pendingResponseCount ≠ 0 := by
  intro hzero
  have hunpinned : (s.lines i).isPinned = false := by simp [CacheBlock.isPinned, hzero]
  have hwaits : t ∈ s.waiting := h.mem_pending.1 (AList.lookup_isSome.1 (by rw [hi]; rfl))
  exact (h.isPinned_eq_false_iff i).1 hunpinned t hwaits hi

/-- No call fails on `m_pending_response_count > 0`. -/
theorem perform_ne_unpinZero {sys : System cfg} (h : Accounted sys.core) (cls : CacheClass)
    (o : Op) : sys.perform cls o ≠ .error .unpinZero := by
  have hother : ∀ e : Abort, e.concern ≠ some .pins → e ≠ .unpinZero := by
    rintro e he rfl
    exact he rfl
  have hP : ∀ e : Abort, e.plain = true → e ≠ .unpinZero :=
    fun e he => hother e (by simp [Abort.concern_of_ofInput (Abort.ofInput_of_plain he)])
  have htable : ∀ e : Abort, e.concern = some .table → e ≠ .unpinZero :=
    fun e he => hother e (by simp [he])
  have hfill : ∀ (c : Cache cfg) mf time, Raises.Only (· ≠ .unpinZero) (c.fill mf time) :=
    fun c mf time => Cache.fill_only hP (fun _ => by simp) (fun _ => by simp)
      (fun _ _ _ => by simp) (fun t _ e _ => ⟨fun _ => by simp,
        MshrTable.markReady_only htable _ _, 
        fun _ => ⟨TagArray.probe_only hP (by simp) _ _ _ _ _, fun _ _ => .of (by simp) _⟩⟩) time
  have honly : Raises.Only (· ≠ .unpinZero) (sys.perform cls o) := by
    refine System.perform_only hP (fun n m time events _ => ?_) (fun mf time _ => hfill _ mf time)
      (fun n m time _ => ⟨hfill _ _ time, fun _ => by simp⟩) fun _ => ?_
    · exact Cache.access_only hP (fun a mf _ => MshrTable.add_only htable _ a mf)
        (TagArray.probe_only hP (by simp) _ _ _ _ _) (fun _ _ => .of (by simp) _) cls time events
    · refine Cache.nextAccess_only hP (fun _ _ => MshrTable.nextAccess_only htable _) ?_
      intro mf idx hidx hzero
      exact absurd hzero (h.count_ne_zero hidx)
  exact fun he => honly _ he rfl

end Accounted

/-- **The reference counts are exact**: in every state that a cache with deferred responses can
reach, the keys of the pending response indices are the requests in the hit response queue, the
ready response queue and the MSHR lists, each once; the count of a line is the number of keys that
map to it, so that a line is unpinned exactly when no request on it is still to be returned; and no
call fails on the assertion of `unpin`. -/
theorem refcount_accounts_for_waiting {cls : CacheClass} {mfs : Token → MemFetch}
    {trace : List Obs} {sys : System cfg} (hdefer : cfg.deferHitResponse = true)
    (h : System.Run cls System.Distinct (System.init cfg mfs) trace sys) :
    sys.core.pending.keys.Perm
        (sys.core.hitTokens ++ sys.core.readyQueue ++ sys.core.entries.values) ∧
      (sys.core.hitTokens ++ sys.core.readyQueue ++ sys.core.entries.values).Nodup ∧
      (∀ i, (sys.core.lines i).pendingResponseCount =
        (sys.core.pending.entries.filter fun e => e.2 = i).length) ∧
      (∀ i, (sys.core.lines i).isPinned = false ↔
        ∀ t ∈ sys.core.waiting, sys.core.pending.lookup t ≠ some i) ∧
      ∀ o, sys.perform cls o ≠ .error .unpinZero := by
  have hacc := Accounted.of_run hdefer h
  refine ⟨hacc.keys, hacc.nodup, ?_, hacc.isPinned_eq_false_iff, hacc.perform_ne_unpinZero cls⟩
  intro i
  rw [hacc.count, Core.pinsOn, List.countP_eq_length_filter]

/-- A read that has been filled and a hit on it are pinned on one line. -/
theorem refcount_accounts_for_read_and_hit :
    ∃ trace sys, System.Run (.dataCache .l1) System.Promise
      (System.init (CacheConfig.small 'S' 'B' 'm' 'L' 2 true) fun _ => MemFetch.load 0) trace sys ∧
      (sys.core.lines 1).pendingResponseCount = 2 ∧
      (sys.core.pending.entries.filter fun e => e.2 = 1).length = 2 := by
  obtain ⟨trace, sys, hrun, hcount⟩ :
      ∃ trace sys, System.Run (.dataCache .l1) System.Promise
        (System.init (CacheConfig.small 'S' 'B' 'm' 'L' 2 true) fun _ => MemFetch.load 0)
          trace sys ∧
        (sys.core.lines 1).pendingResponseCount = 2 :=
    Runs.exists_run_of_exec [.access 0 (MemFetch.load 0) 0 [], .cycle false, .fill (.caller 0) 1,
      .access 1 (MemFetch.load 0) 2 []] (by decide)
  have hexact := refcount_accounts_for_waiting (by decide) (hrun.mono fun _ _ h => h.distinct)
  exact ⟨trace, sys, hrun, hcount, (hexact.2.2.1 1).symm.trans hcount⟩

end OpenCache
