/-
Exactly-once delivery: what a cache owes to its caller, and that it returns exactly that.

The ledger of a run lists the requests that were accepted, as hits or into the MSHR table, and not
yet returned, with the address and the data size they had when they were accepted.  The cache keeps
them in three containers, and rewrites those whose fetch is under way; what a request was like is
its `Core.origin`, also while it is rewritten.

* `OpenCache.owed` — the ledger of a run;
* `OpenCache.Core.origin` — the address and the data size of a request, rewritten or not;
* `OpenCache.Delivered` — the invariant: the cache holds what its ledger lists, each MSHR entry in
  the order of acceptance;
* `OpenCache.Delivered.step` — one step keeps the cache and its ledger together;
* `OpenCache.exactly_once_delivery` — **every accepted request is in one place until it is
  returned, once, in order and as it was**.
-/

import OpenCache.Fetches
import OpenCache.Ledger
import OpenCache.Pins

set_option relaxedAutoImplicit false
set_option autoImplicit false

namespace OpenCache

variable {cfg : CacheConfig}

/-! ### The ledger of a run -/

/-- What the cache owes to its caller: a token, the MSHR entry it waits in unless it was a hit, and
the address and the data size it was accepted with. -/
abbrev Debt := Ledger.Item Token NewAddrType (NewAddrType × ℕ)

/-- The request that an observed call has accepted.  A hit is accepted itself; a miss has put a
request into the MSHR table: the request itself, or a read of one atom that the cache
has created. -/
def Obs.accepted (cfg : CacheConfig) : Obs → Option Debt
  | .access mf m .hit _ => some ⟨mf, none, (m.addr, m.dataSize)⟩
  | .access mf m _ (some t) =>
      some ⟨t, some (cfg.mshrAddr m.addr), (m.addr, if t = mf then m.dataSize else cfg.atomSz)⟩
  | _ => none

/-- The ledger after an observed call. -/
def owedAfter (cfg : CacheConfig) (l : List Debt) : Obs → List Debt
  | .nextAccess mf _ _ => Ledger.settle l mf
  | b => l ++ (b.accepted cfg).toList

/-- The ledger of a run: what was accepted and not yet returned, in the order of acceptance. -/
def owed (cfg : CacheConfig) (trace : List Obs) : List Debt := trace.foldl (owedAfter cfg) []

theorem owed_snoc (trace : List Obs) (b : Obs) :
    owed cfg (trace ++ [b]) = owedAfter cfg (owed cfg trace) b := by
  rw [owed, owed, List.foldl_append]
  rfl

/-- A call that neither accepts nor returns a request leaves the ledger. -/
theorem owedAfter_nothing {l : List Debt} {b : Obs} (hreturn : ∀ mf m a, b ≠ .nextAccess mf m a)
    (haccept : b.accepted cfg = none) : owedAfter cfg l b = l := by
  have happend : owedAfter cfg l b = l ++ (b.accepted cfg).toList := by
    cases b with
    | nextAccess mf m a => exact absurd rfl (hreturn mf m a)
    | _ => rfl
  rw [happend, haccept]
  exact List.append_nil l

/-- An access that is neither a hit nor joins an MSHR entry leaves the ledger. -/
theorem owedAfter_of_none {l : List Debt} {mf : Token} {m : MemFetch} {status : CacheRequestStatus}
    (h : status ≠ .hit) : owedAfter cfg l (.access mf m status none) = l := by
  refine owedAfter_nothing (by simp) ?_
  cases status with
  | hit => exact absurd rfl h
  | _ => rfl

/-! ### Requests that are rewritten -/

/-- The address and the data size of a request: while its fetch is under way, the ones that are
remembered. -/
def Core.origin (s : Core cfg) (t : Token) : NewAddrType × ℕ :=
  match s.extra.lookup t with
  | some e => (e.addr, e.dataSize)
  | none => ((s.mfs t).addr, (s.mfs t).dataSize)

namespace Core

variable {s s' : Core cfg} {t : Token}

theorem origin_of_none (h : s.extra.lookup t = none) :
    s.origin t = ((s.mfs t).addr, (s.mfs t).dataSize) := by
  rw [origin, h]

theorem origin_congr (hextra : s'.extra.lookup t = s.extra.lookup t) (hmfs : s'.mfs t = s.mfs t) :
    s'.origin t = s.origin t := by
  rw [origin, origin, hextra, hmfs]

/-- A miss rewrites the request that is sent, and remembers what it was like. -/
theorem miss_origin {reader : Token} (h : s.extra.lookup reader = none) (a : NewAddrType) (idx : ℕ)
    (t : Token) : (s.miss a reader idx).origin t = s.origin t := by
  cases hl : s.entries.lookup a with
  | some l => exact origin_congr (by simp [miss_of_some hl, join]) (by simp [miss_of_some hl, join])
  | none =>
      rw [miss_of_none hl]
      by_cases ht : t = reader
      · subst ht
        rw [origin_of_none h, origin, launch, AList.lookup_insert]
        simp [join, ExtraMfFields.new]
      · refine origin_congr ?_ ?_
        · simp [launch, join, AList.lookup_insert_ne ht]
        · simp [launch, join, Function.update_of_ne ht]

/-- The response gives a request back what was rewritten in it. -/
theorem complete_origin {mf : Token} {e : ExtraMfFields} (he : s.extra.lookup mf = some e)
    (t : Token) : (s.complete mf e).origin t = s.origin t := by
  by_cases ht : t = mf
  · subst ht
    rw [origin_of_none (AList.lookup_erase _ _), origin, he]
    simp [complete]
  · exact origin_congr (AList.lookup_erase_ne ht) (Function.update_of_ne ht _ _)

end Core

/-! ### The cache and its ledger -/

/-- An update that leaves a request as it was, rewritten or not. -/
structure SameRequest (s s' : Core cfg) (t : Token) : Prop where
  origin : s'.origin t = s.origin t
  isWrite : (s'.mfs t).isWrite = (s.mfs t).isWrite
  accessType : (s'.mfs t).accessType = (s.mfs t).accessType

namespace SameRequest

variable {s s' s'' : Core cfg} {t : Token}

theorem trans (h : SameRequest s s' t) (h' : SameRequest s' s'' t) : SameRequest s s'' t :=
  ⟨h'.origin.trans h.origin, h'.isWrite.trans h.isWrite, h'.accessType.trans h.accessType⟩

theorem of_eq (hextra : s'.extra = s.extra) (hmfs : s'.mfs t = s.mfs t) : SameRequest s s' t :=
  ⟨Core.origin_congr (by rw [hextra]) hmfs, by rw [hmfs], by rw [hmfs]⟩

theorem alloc (m : MemFetch) (ht : ∀ n, t = .created n → n < s.created) :
    SameRequest s (s.alloc m) t := by
  refine of_eq rfl (Function.update_of_ne ?_ _ _)
  intro heq
  exact lt_irrefl _ (ht _ heq)

theorem sendOwn (m : Option MemFetch) (ht : ∀ n, t = .created n → n < s.created) :
    SameRequest s (s.sendOwn m) t := by
  cases m with
  | none => exact of_eq rfl rfl
  | some m => exact (alloc m ht).trans (of_eq rfl rfl)

theorem fetcher {cls : CacheClass} {mf reader : Token}
    {written : CacheBlock cfg.cacheType → CacheBlock cfg.cacheType}
    (h : Fetcher cfg cls mf s reader s' written) (ht : ∀ n, t = .created n → n < s.created) :
    SameRequest s s' t := by
  cases h with
  | read => exact of_eq rfl rfl
  | naive =>
      have hforward : SameRequest s (s.enqueue mf) t := of_eq rfl rfl
      exact hforward.trans (alloc _ ht)
  | fetchOnWrite => exact alloc _ ht

theorem miss {reader : Token} (h : s.extra.lookup reader = none) (a : NewAddrType) (idx : ℕ) :
    SameRequest s (s.miss a reader idx) t := by
  refine ⟨Core.miss_origin h a idx t, ?_, ?_⟩
  all_goals
    cases hl : s.entries.lookup a with
    | some l => simp [Core.miss_of_some hl, Core.join]
    | none =>
        by_cases ht : t = reader
        · simp [Core.miss_of_none hl, Core.launch, Core.join, ht]
        · simp [Core.miss_of_none hl, Core.launch, Core.join, ht]

theorem complete {mf : Token} {e : ExtraMfFields} (he : s.extra.lookup mf = some e) :
    SameRequest s (s.complete mf e) t := by
  refine ⟨Core.complete_origin he t, ?_, ?_⟩
  all_goals
    by_cases ht : t = mf
    · simp [Core.complete, ht]
    · simp [Core.complete, ht]

end SameRequest

/-- The cache holds what its ledger lists.  The requests in the MSHR table are reads, and those that
the cache has created are the reads that a write miss allocates. -/
structure Delivered (cls : CacheClass) (l : List Debt) (s : Core cfg) : Prop where
  tokens : (Ledger.tokens l).Perm s.waiting
  queues : ∀ a, (s.entries.lookup a).getD [] = Ledger.queueOf l a
  origin : ∀ p ∈ l, s.origin p.token = p.value
  reads : ∀ p ∈ l, p.queue ≠ none → (s.mfs p.token).isWrite = false
  own : ∀ p ∈ l, ∀ k, p.token = .created k → p.queue ≠ none ∧
    ∃ types, cls = .dataCache types ∧ (s.mfs p.token).accessType = types.wrAllocType

namespace Delivered

variable {cls : CacheClass} {l : List Debt} {s s' : Core cfg}

theorem waits (h : Delivered cls l s) {p : Debt} (hp : p ∈ l) : p.token ∈ s.waiting :=
  h.tokens.mem_iff.1 (Ledger.mem_tokens.2 ⟨p, hp, rfl⟩)

/-- An update that accepts and returns nothing. -/
theorem of_same (h : Delivered cls l s) (hwaiting : s'.waiting.Perm s.waiting)
    (hentries : s'.entries = s.entries) (hsame : ∀ t ∈ s.waiting, SameRequest s s' t) :
    Delivered cls l s' where
  tokens := h.tokens.trans hwaiting.symm
  queues := by rw [hentries]; exact h.queues
  origin := fun p hp => (hsame _ (h.waits hp)).origin.trans (h.origin p hp)
  reads := fun p hp hq => (hsame _ (h.waits hp)).isWrite.trans (h.reads p hp hq)
  own := by
    intro p hp k hk
    obtain ⟨hq, types, hcls, htype⟩ := h.own p hp k hk
    exact ⟨hq, types, hcls, (hsame _ (h.waits hp)).accessType.trans htype⟩

/-- A request is accepted. -/
theorem post (h : Delivered cls l s) (p : Debt) (hwaiting : s'.waiting.Perm (p.token :: s.waiting))
    (hqueues : ∀ a, (s'.entries.lookup a).getD [] =
      if p.queue = some a then (s.entries.lookup a).getD [] ++ [p.token]
      else (s.entries.lookup a).getD [])
    (hsame : ∀ t ∈ s.waiting, SameRequest s s' t) (horigin : s'.origin p.token = p.value)
    (hread : p.queue ≠ none → (s'.mfs p.token).isWrite = false)
    (hown : ∀ k, p.token = .created k → p.queue ≠ none ∧
      ∃ types, cls = .dataCache types ∧ (s'.mfs p.token).accessType = types.wrAllocType) :
    Delivered cls (l ++ [p]) s' := by
  have hcases : ∀ q ∈ l ++ [p], q ∈ l ∨ q = p := fun q hq =>
    (List.mem_append.1 hq).imp_right List.mem_singleton.1
  refine ⟨?_, ?_, ?_, ?_, ?_⟩
  · rw [Ledger.tokens_append]
    exact (h.tokens.append_right _).trans
      ((List.perm_append_singleton _ _).trans hwaiting.symm)
  · intro a
    rw [hqueues, h.queues]
    split
    · next hq => exact (Ledger.queueOf_append_of_eq hq).symm
    · next hq => exact (Ledger.queueOf_append_of_ne hq).symm
  · intro q hq
    rcases hcases q hq with hq | rfl
    · exact (hsame _ (h.waits hq)).origin.trans (h.origin q hq)
    · exact horigin
  · intro q hq hne
    rcases hcases q hq with hq | rfl
    · exact (hsame _ (h.waits hq)).isWrite.trans (h.reads q hq hne)
    · exact hread hne
  · intro q hq k hk
    rcases hcases q hq with hq | rfl
    · obtain ⟨hne, types, hcls, htype⟩ := h.own q hq k hk
      exact ⟨hne, types, hcls, (hsame _ (h.waits hq)).accessType.trans htype⟩
    · exact hown k hk

/-- A request is returned. -/
theorem settle (h : Delivered cls l s) {t : Token} (hnodup : s.waiting.Nodup)
    (hwaiting : s.waiting.Perm (t :: s'.waiting))
    (hqueues : ∀ a, (s'.entries.lookup a).getD [] =
      ((s.entries.lookup a).getD []).filter (· ≠ t))
    (hsame : ∀ t ∈ s.waiting, SameRequest s s' t) : Delivered cls (Ledger.settle l t) s' where
  tokens := Ledger.tokens_settle (h.tokens.trans hwaiting) (hwaiting.nodup_iff.1 hnodup)
  queues := by
    intro a
    rw [hqueues, h.queues, Ledger.queueOf_settle]
  origin := fun p hp =>
    (hsame _ (h.waits (Ledger.mem_settle.1 hp).1)).origin.trans
      (h.origin p (Ledger.mem_settle.1 hp).1)
  reads := fun p hp hq => (hsame _ (h.waits (Ledger.mem_settle.1 hp).1)).isWrite.trans
    (h.reads p (Ledger.mem_settle.1 hp).1 hq)
  own := by
    intro p hp k hk
    have hp := (Ledger.mem_settle.1 hp).1
    obtain ⟨hq, types, hcls, htype⟩ := h.own p hp k hk
    exact ⟨hq, types, hcls, (hsame _ (h.waits hp)).accessType.trans htype⟩

/-! ### One access -/

theorem joined_of_same {before after : Core cfg} (h : after.entries = before.entries)
    (a : NewAddrType) : System.joined before after a = none := by
  rw [System.joined, h, if_neg (lt_irrefl _)]

theorem joined_of_join {before after : Core cfg} {a : NewAddrType} {t : Token}
    (h : after.entries = (before.join a t).entries) : System.joined before after a = some t := by
  rw [System.joined, h]
  simp [Core.join]

section Access

variable {c : Cache cfg} {mf : Token} {time : Time} {status : CacheRequestStatus}

/-- A request in the MSHR table joins the queue of its entry. -/
theorem join_queues (s : Core cfg) (a : NewAddrType) (t : Token) (a' : NewAddrType) :
    ((s.join a t).entries.lookup a').getD [] =
      if some a = some a' then (s.entries.lookup a').getD [] ++ [t]
      else (s.entries.lookup a').getD [] := by
  by_cases haa : a' = a
  · subst haa
    simp [Core.join]
  · simp [Core.join, AList.lookup_insert_ne haa, Ne.symm haa]

/-- **An access that is accepted adds a debt**, and the others add none. -/
theorem access (hdefer : cfg.deferHitResponse = true) (hacc : Accounted c.core)
    {below : List Token} (htracked : Tracked c.core (c.core.missQueue ++ below))
    (h : Delivered cls l c.core) (hnew : mf ∉ c.core.waiting)
    (hsent : mf ∉ c.core.missQueue ++ below) (hcaller : ∀ n, mf ≠ .created n)
    (hcase : AccessCase c cls (c.mfs mf).addr mf time status s') :
    Delivered cls (owedAfter cfg l (.access mf (c.mfs mf) status
      (System.joined c.core s' (cfg.mshrAddr (c.mfs mf).addr)))) s' := by
  have hextra : c.core.extra.lookup mf = none := by
    cases he : c.core.extra.lookup mf with
    | none => rfl
    | some e => exact absurd (htracked.mem_sent he) hsent
  -- what waits is neither the request nor anything that the cache makes in this access
  have hold : ∀ t ∈ c.core.waiting, t ≠ mf ∧ ∀ n, t = .created n → n < c.core.created := by
    rintro t ht
    refine ⟨?_, ?_⟩
    · rintro rfl
      exact hnew ht
    · rintro n rfl
      exact hacc.created n ht
  cases hcase with
  | refused =>
      rw [joined_of_same rfl, owedAfter_of_none (by simp)]
      exact h
  | hit p hp _ _ line forward heffect =>
      refine h.post ⟨mf, none, _⟩ ((Core.respond_waiting hdefer _ _ _).trans ?_) ?_ ?_ ?_ ?_ ?_
      · simp [Core.waiting, Core.hitTokens, Core.setLine]
      · intro a
        simp [Core.setLine]
      · intro t ht
        refine .of_eq ?_ ?_ <;> simp [Core.setLine]
      · refine Eq.trans (Core.origin_congr ?_ ?_) (Core.origin_of_none hextra) <;>
          simp [Core.setLine]
      · intro hq
        exact absurd rfl hq
      · intro k hk
        exact absurd hk (hcaller k)
  | forward p hp =>
      have hjoined : System.joined c.core (c.core.enqueue mf) (cfg.mshrAddr (c.mfs mf).addr) =
          none := joined_of_same rfl _
      rw [hjoined, owedAfter_of_none (by simp)]
      exact h.of_same (List.Perm.refl _) rfl fun t _ => .of_eq rfl rfl
  | write p hp _ _ _ _ _ line forward heffect =>
      rw [joined_of_same (by simp [Core.setLine]), owedAfter_of_none (by simp)]
      refine h.of_same ?_ ?_ ?_
      · simp [Core.waiting, Core.hitTokens, Core.setLine]
      · simp [Core.setLine]
      · intro t ht
        refine SameRequest.trans (.of_eq ?_ ?_) (SameRequest.sendOwn _ fun n hn => ?_)
        · simp [Core.setLine]
        · simp [Core.setLine]
        · simpa [Core.setLine] using (hold t ht).2 n hn
  | fetch p hp _ _ reader s written hfetcher =>
      obtain ⟨hlines, hentries, hans, hext, hhit, hready, hpending⟩ := hfetcher.frame
      obtain ⟨hread, haddr, -, -⟩ := hfetcher.request
      have hlt : ∀ n, reader = .created n → n < s.created :=
        (hacc.fetcher hnew hcaller hfetcher).2.2.2
      have hle : c.core.created ≤ s.created := by
        rcases hfetcher.reader_eq with ⟨-, rfl, -⟩ | ⟨-, hs, -⟩
        · exact le_rfl
        · exact hs ▸ Nat.le_succ _
      have hreader : (s.setLine p.idx (c.touched (c.mfs mf).addr (c.mfs mf) time p)).extra.lookup
          reader = none := by
        change s.extra.lookup reader = none
        rw [hext]
        rcases hfetcher.reader_eq with ⟨rfl, -, -⟩ | ⟨rfl, -, -⟩
        · exact hextra
        · cases he : c.core.extra.lookup (.created c.core.created) with
          | none => rfl
          | some e => exact absurd (htracked.created _ (htracked.mem_sent he)) (lt_irrefl _)
      -- the debt is the one of the reader, which is the request or the fetch made for it
      have hjoin : ∀ (s₁ : Core cfg), s₁.entries =
          (c.core.join (cfg.mshrAddr (c.mfs mf).addr) reader).entries →
          System.joined c.core s₁ (cfg.mshrAddr (c.mfs mf).addr) = some reader :=
        fun _ => joined_of_join
      rw [hjoin _ (by simp [Core.setLine, Core.join, hentries])]
      generalize hmiss : (s.setLine p.idx (c.touched (c.mfs mf).addr (c.mfs mf) time p)).miss
        (cfg.mshrAddr (c.mfs mf).addr) reader p.idx = s₁
      have hsame : ∀ t, SameRequest s s₁ t := fun t => by
        have hline : SameRequest s
            (s.setLine p.idx (c.touched (c.mfs mf).addr (c.mfs mf) time p)) t := .of_eq rfl rfl
        rw [← hmiss]
        exact hline.trans (SameRequest.miss hreader _ _)
      have hcreated : s₁.created = s.created := by rw [← hmiss]; simp [Core.setLine]
      have hsend : ∀ (b : CacheBlock cfg.cacheType) (w : Option MemFetch) (t : Token),
          (∀ n, t = .created n → n < s.created) →
          SameRequest s ((s₁.setLine p.idx b).sendOwn w) t := by
        intro b w t ht
        have hline : SameRequest s₁ (s₁.setLine p.idx b) t := .of_eq rfl rfl
        refine ((hsame t).trans hline).trans (SameRequest.sendOwn w fun n hn => ?_)
        exact (ht n hn).trans_eq hcreated.symm
      refine h.post ⟨reader, some (cfg.mshrAddr (c.mfs mf).addr), _⟩ ?_ ?_ ?_ ?_ ?_ ?_
      · have hwaiting : s₁.waiting.Perm (reader :: c.core.waiting) := by
          rw [← hmiss]
          refine (Core.miss_waiting _ _ _ _).trans ?_
          simp [Core.waiting, Core.hitTokens, Core.setLine, hentries, hhit, hready]
        simpa [Core.waiting, Core.hitTokens, Core.setLine] using hwaiting
      · intro a
        rw [← join_queues]
        simp [← hmiss, Core.setLine, Core.join, hentries]
      · intro t ht
        exact (SameRequest.fetcher hfetcher (hold t ht).2).trans
          (hsend _ _ t fun n hn => ((hold t ht).2 n hn).trans_le hle)
      · refine (hsend _ _ reader hlt).origin.trans ((Core.origin_of_none hreader).trans ?_)
        refine Prod.ext haddr ?_
        by_cases hmf : reader = mf
        · rcases hfetcher.reader_eq with ⟨-, hs, -⟩ | ⟨hr, -⟩
          · rw [if_pos hmf, hmf, hs]
            rfl
          · exact absurd (hmf.symm.trans hr) (hcaller _)
        · rw [if_neg hmf]
          exact (hfetcher.own hmf).1
      · exact fun _ => (hsend _ _ reader hlt).isWrite.trans hread
      · intro k hk
        have hne : reader ≠ mf := fun hmf => hcaller k (hmf.symm.trans hk)
        obtain ⟨-, types, hcls, htype⟩ := hfetcher.own hne
        exact ⟨by simp, types, hcls, (hsend _ _ reader hlt).accessType.trans htype⟩

end Access

/-! ### One step -/

section Step

/-- A request in the ready response queue is not rewritten. -/
theorem extra_of_ready {sent : List Token} (htracked : Tracked s sent) (hnodup : s.waiting.Nodup)
    {t : Token} (ht : t ∈ s.readyQueue) : s.extra.lookup t = none := by
  cases he : s.extra.lookup t with
  | none => rfl
  | some e =>
      have hwaits := htracked.waits t e he
      have hentry := AList.lookup_isSome.2 (htracked.entry t e he).1
      obtain ⟨l, hl⟩ := Option.isSome_iff_exists.1 hentry
      rw [hl] at hwaits
      have hvalues : t ∈ s.entries.values := AList.mem_values.2 ⟨_, l, hl, hwaits⟩
      exact absurd rfl ((List.nodup_append.1 hnodup).2.2 t (List.mem_append_right _ ht) t hvalues)

/-- A request in an answered MSHR entry is not rewritten. -/
theorem extra_of_answered {sent : List Token} (htracked : Tracked s sent)
    (hnodup : s.waiting.Nodup) {a : NewAddrType} {l : List Token} (hl : s.entries.lookup a = some l)
    (ha : a ∈ s.answered) {t : Token} (ht : t ∈ l) : s.extra.lookup t = none := by
  cases he : s.extra.lookup t with
  | none => rfl
  | some e =>
      have hwaits := htracked.waits t e he
      obtain ⟨l', hl'⟩ := Option.isSome_iff_exists.1
        (AList.lookup_isSome.2 (htracked.entry t e he).1)
      rw [hl'] at hwaits
      have hvalues : s.entries.values.Nodup := (List.nodup_append.1 hnodup).2.1
      have hea : e.blockAddr = a := AList.eq_of_mem_of_nodup hvalues hl' hl hwaits ht
      exact absurd (hea ▸ ha) (htracked.entry t e he).2

/-- An entry after its first request has been returned. -/
theorem deliver_queues (hnodup : s.waiting.Nodup) {a : NewAddrType} {t : Token}
    {rest : List Token} (hl : s.entries.lookup a = some (t :: rest)) (a' : NewAddrType) :
    ((s.deliver a rest).entries.lookup a').getD [] =
      ((s.entries.lookup a').getD []).filter (· ≠ t) := by
  have hvalues : s.entries.values.Nodup := (List.nodup_append.1 hnodup).2.1
  have hlist : (t :: rest).Nodup :=
    (List.nodup_append.1 ((AList.values_of_lookup hl).nodup_iff.1 hvalues)).1
  have hkeep : ∀ l : List Token, t ∉ l → l.filter (· ≠ t) = l := by
    intro l ht
    refine List.filter_eq_self.2 fun x hx => ?_
    have hne : x ≠ t := by
      rintro rfl
      exact ht hx
    simpa using hne
  by_cases haa : a' = a
  · have hfirst : ((s.deliver a rest).entries.lookup a).getD [] = rest := by
      unfold Core.deliver
      split
      · next hrest => simp [hrest]
      · simp
    rw [haa, hfirst, hl, Option.getD_some, List.filter_cons_of_neg (by simp),
      hkeep rest (List.nodup_cons.1 hlist).1]
  · have hother : (s.deliver a rest).entries.lookup a' = s.entries.lookup a' := by
      unfold Core.deliver
      split
      · exact AList.lookup_erase_ne haa
      · exact AList.lookup_insert_ne haa
    rw [hother]
    refine (hkeep _ fun ht => ?_).symm
    cases hl' : s.entries.lookup a' with
    | none => simp [hl'] at ht
    | some l' =>
        rw [hl'] at ht
        exact haa (AList.eq_of_mem_of_nodup hvalues hl' hl ht List.mem_cons_self)

variable {sys sys' : System cfg} {o : Op} {b : Obs}

/-- **One step keeps the cache and its ledger together.** -/
theorem step (hdefer : cfg.deferHitResponse = true) (hacc : Accounted sys.core)
    (htracked : Tracked sys.core sys.sent) (h : Delivered cls l sys.core)
    (hpromise : sys.Promise o) (hperform : sys.perform cls o = .ok (sys', b)) :
    Delivered cls (owedAfter cfg l b) sys'.core := by
  have hbuild : ∀ n m, .caller n ∉ sys.held → Delivered cls l (sys.build n m).core := by
    intro n m hn
    refine h.of_same (List.Perm.refl _) rfl fun t ht => .of_eq rfl ?_
    refine Function.update_of_ne ?_ _ _
    rintro rfl
    exact hn (List.mem_append_left _ ht)
  cases System.step_cases hpromise.suits hperform with
  | access n m time events status hcase hbelow =>
      have hm : (sys.build n m).mfs (.caller n) = m := Function.update_self _ _ _
      have hsent : .caller n ∉ sys.sent := fun hmem => hpromise (List.mem_append_right _ hmem)
      have hbuilt : Accounted (sys.build n m).core :=
        hacc.of_same (List.Perm.refl _) rfl (fun _ => rfl) le_rfl
      have hcase' := System.access_of_build hcase
      have hstep := (hbuild n m hpromise).access hdefer hbuilt
        (htracked.build fun hmem => absurd hmem hsent)
        (fun hmem => hpromise (List.mem_append_left _ hmem)) hsent (by simp) hcase'
      rw [hm] at hstep
      exact hstep
  | tick memportFull waiting done htick hcore hbelow =>
      rw [hcore, owedAfter_nothing (by simp) rfl]
      exact h.of_same (Core.tick_waiting htick) rfl fun t _ => .of_eq rfl rfl
  | push memportFull waiting done htick mf rest hqueue hcore hbelow =>
      rw [hcore, owedAfter_nothing (by simp) rfl]
      exact h.of_same (Core.tick_waiting htick) rfl fun t _ => .of_eq rfl rfl
  | wait n m time original horiginal e pendingRead he hcore hbelow =>
      rw [hcore, owedAfter_nothing (by simp) rfl]
      refine (hbuild n m hpromise.2.1).of_same (List.Perm.refl _) rfl fun t _ => ⟨?_, rfl, rfl⟩
      by_cases ht : t = original
      · have he' : (sys.build n m).core.extra.lookup t = some e := ht ▸ he
        rw [Core.origin, Core.origin, he', ht, AList.lookup_insert]
      · exact Core.origin_congr (AList.lookup_insert_ne ht) rfl
  | complete o c mf time horigin e he hentry lines hfill hcore hbelow =>
      rw [hcore, owedAfter_nothing (by simp) rfl]
      obtain ⟨hc, hextra⟩ : Delivered cls l c.core ∧ c.core.extra.lookup mf = some e := by
        rcases horigin with ⟨-, rfl⟩ | ⟨n, m, rfl, -, rfl⟩
        · exact ⟨h, he⟩
        · exact ⟨hbuild n m hpromise.2.1, he⟩
      refine hc.of_same (List.Perm.refl _) rfl fun t _ => ?_
      have hlines : SameRequest (c.core.complete mf e)
          ({ c.core.complete mf e with lines } : Core cfg) t := .of_eq rfl rfl
      exact (SameRequest.complete hextra).trans hlines
  | ready mf rest hqueue hpinned hcore hbelow =>
      have hmem : mf ∈ sys.core.readyQueue := by rw [hqueue]; exact List.mem_cons_self
      have hvalues : mf ∉ sys.core.entries.values := fun hv =>
        (List.nodup_append.1 hacc.nodup).2.2 mf (List.mem_append_right _ hmem) mf hv rfl
      rw [hcore]
      refine h.settle hacc.nodup ?_ (fun a => ?_) fun t _ => .of_eq (by simp) (by simp)
      · simpa [Core.waiting, Core.hitTokens] using Core.ready_waiting hqueue
      -- a hit waits in no entry, so no queue of an entry changes
      · simp only [Core.unpin_frame]
        refine (List.filter_eq_self.2 fun x hx => ?_).symm
        have hne : x ≠ mf := by
          rintro rfl
          cases hl : sys.core.entries.lookup a with
          | none => simp [hl] at hx
          | some l' =>
              rw [hl] at hx
              exact hvalues (AList.mem_values.2 ⟨a, l', hl, hx⟩)
        simpa using hne
  | deliver mf a rest addresses hready hanswered hentry hpinned hcore hbelow =>
      have hframe : (sys.core.deliver a rest).extra = sys.core.extra ∧
          (sys.core.deliver a rest).mfs = sys.core.mfs := by
        unfold Core.deliver
        split <;> exact ⟨rfl, rfl⟩
      rw [hcore]
      refine h.settle hacc.nodup ?_ (fun a' => ?_) fun t _ => .of_eq ?_ ?_
      · simpa [Core.waiting, Core.hitTokens] using Core.deliver_waiting hentry
      · rw [← deliver_queues hacc.nodup hentry a']
        simp
      · simp [hframe.1]
      · simp [hframe.2]
  | flush hcore hbelow =>
      rw [hcore, owedAfter_nothing (by simp) rfl]
      exact h.of_same (List.Perm.refl _) rfl fun t _ => .of_eq rfl rfl
  | invalidate hcore hbelow =>
      rw [hcore, owedAfter_nothing (by simp) rfl]
      exact h.of_same (List.Perm.refl _) rfl fun t _ => .of_eq rfl rfl
  | retire mf hcore hbelow =>
      rw [hcore, owedAfter_nothing (by simp) rfl]
      exact h

end Step

/-- A hit, and a read that is not refused, is owed from then on. -/
theorem accepted {sys sys' : System cfg} {n : ℕ} {m : MemFetch} {time : Time}
    {events : List CacheEvent} {status : CacheRequestStatus} {joined : Option Token}
    (hperform : sys.perform cls (.access n m time events) =
      .ok (sys', .access (.caller n) m status joined))
    (haccept : status = .hit ∨ m.isWrite = false ∧ status ≠ .reservationFail) (l : List Debt) :
    ∃ p ∈ owedAfter cfg l (.access (.caller n) m status joined),
      p.token = .caller n ∧ p.value = (m.addr, m.dataSize) := by
  have hlast : ∀ p : Debt, p ∈ l ++ [p] := fun p =>
    List.mem_append_right _ (List.mem_singleton_self p)
  have hm : (sys.build n m).core.mfs (.caller n) = m := Function.update_self _ _ _
  cases System.step_cases (show System.Suits cfg (.access n m time events) from trivial)
    hperform with
  | access _ _ _ _ _ hcase hbelow =>
      generalize hcore : sys'.core = s' at hcase
      cases hcase with
      | refused => exact absurd rfl (haccept.resolve_left (by simp)).2
      | hit => exact ⟨_, hlast ⟨.caller n, none, (m.addr, m.dataSize)⟩, rfl, rfl⟩
      | forward p hp _ hwrite =>
          have hw : m.isWrite = true := hm ▸ hwrite
          rw [hw] at haccept
          simp at haccept
      | write p hp _ hwrite =>
          have hw : m.isWrite = true := hm ▸ hwrite
          rw [hw] at haccept
          simp at haccept
      | fetch p hp _ _ reader s written hfetcher =>
          have hread : m.isWrite = false := (haccept.resolve_left (by simp)).1
          rcases hfetcher.reader_eq with ⟨rfl, rfl, -⟩ | ⟨-, -, hwrite, -⟩
          · have hjoined : System.joined sys.core sys'.core (cfg.mshrAddr m.addr) =
                some (.caller n) := by
              refine joined_of_join ?_
              rw [hcore]
              simp [Core.setLine, Core.join]
              rfl
            rw [← hcore, hjoined]
            refine ⟨_, hlast ⟨.caller n, some (cfg.mshrAddr m.addr), _⟩, rfl, ?_⟩
            simp
          · rw [hm, hread] at hwrite
            cases hwrite

/-- A request that `next_access` returns is owed, as it is returned and from where. -/
theorem returned {sys sys' : System cfg} (hacc : Accounted sys.core)
    (htracked : Tracked sys.core sys.sent) (h : Delivered cls l sys.core) {mf : Token}
    {m : MemFetch} {entry : Option NewAddrType}
    (hperform : sys.perform cls .nextAccess = .ok (sys', .nextAccess mf m entry)) :
    ∃ p ∈ l, p.token = mf ∧ p.queue = entry ∧ p.value = (m.addr, m.dataSize) ∧
      (∀ a, entry = some a → (l.filter fun q => q.queue = some a).head? = some p) ∧
      ∀ k, mf = .created k → m.isWrite = false ∧
        ∃ types, cls = .dataCache types ∧ m.accessType = types.wrAllocType := by
  have hvalue : ∀ p ∈ l, sys.core.extra.lookup p.token = none →
      p.value = ((sys.core.mfs p.token).addr, (sys.core.mfs p.token).dataSize) :=
    fun p hp hnone => (h.origin p hp).symm.trans (Core.origin_of_none hnone)
  have hown : ∀ p ∈ l, ∀ k, p.token = .created k → (sys.core.mfs p.token).isWrite = false ∧
      ∃ types, cls = .dataCache types ∧ (sys.core.mfs p.token).accessType = types.wrAllocType := by
    intro p hp k hk
    obtain ⟨hq, htype⟩ := h.own p hp k hk
    exact ⟨h.reads p hp hq, htype⟩
  cases System.step_cases (show System.Suits cfg .nextAccess from trivial) hperform with
  | ready _ rest hqueue hpinned hcore hbelow =>
      have hmem : mf ∈ sys.core.readyQueue := by rw [hqueue]; exact List.mem_cons_self
      have hwaits : mf ∈ sys.core.waiting :=
        List.mem_append_left _ (List.mem_append_right _ hmem)
      obtain ⟨p, hp, rfl⟩ := Ledger.mem_tokens.1 (h.tokens.mem_iff.2 hwaits)
      refine ⟨p, hp, rfl, ?_, hvalue p hp (extra_of_ready htracked hacc.nodup hmem),
        by rintro a ⟨⟩, hown p hp⟩
      -- a request in an MSHR list is not in the ready response queue
      by_contra hq
      obtain ⟨a, ha⟩ := Option.ne_none_iff_exists'.1 hq
      have hlist := Ledger.mem_queueOf hp ha
      rw [← h.queues] at hlist
      cases hl : sys.core.entries.lookup a with
      | none => simp [hl] at hlist
      | some l' =>
          rw [hl] at hlist
          exact (List.nodup_append.1 hacc.nodup).2.2 _ (List.mem_append_right _ hmem) _
            (AList.mem_values.2 ⟨a, l', hl, hlist⟩) rfl
  | deliver _ a rest addresses hready hanswered hentry hpinned hcore hbelow =>
      have hqueue := h.queues a
      rw [hentry, Option.getD_some] at hqueue
      obtain ⟨p, hp, rfl, hpq, hhead⟩ := Ledger.exists_of_queueOf hqueue.symm
      have hans : a ∈ sys.core.answered := by rw [hanswered]; exact List.mem_cons_self
      refine ⟨p, hp, rfl, hpq, hvalue p hp (extra_of_answered htracked hacc.nodup hentry hans
        List.mem_cons_self), ?_, hown p hp⟩
      rintro a' ⟨⟩
      exact hhead

end Delivered

/-! ### Whole runs -/

/-- What the caller gets back from a call: a request, with the address and the data size it has. -/
def Obs.returned : Obs → Option (Token × (NewAddrType × ℕ))
  | .nextAccess mf m _ => some (mf, (m.addr, m.dataSize))
  | _ => none

/-- A debt as the caller sees it. -/
def Debt.request (p : Debt) : Token × (NewAddrType × ℕ) := (p.token, p.value)

section Run

variable {cls : CacheClass} {mfs : Token → MemFetch} {trace : List Obs} {sys : System cfg}

/-- Only `next_access` returns a request. -/
theorem eq_nextAccess {sys' : System cfg} {o : Op} {mf : Token} {m : MemFetch}
    {entry : Option NewAddrType} (hsuits : System.Suits cfg o)
    (h : sys.perform cls o = .ok (sys', .nextAccess mf m entry)) : o = .nextAccess := by
  cases System.step_cases hsuits h with
  | ready => rfl
  | deliver => rfl

/-- What has been accepted is what has been returned and what is owed, each request as it was. -/
def Conserved (cfg : CacheConfig) (trace : List Obs) : Prop :=
  ((trace.filterMap (Obs.accepted cfg)).map Debt.request).Perm
    (trace.filterMap Obs.returned ++ (owed cfg trace).map Debt.request)

theorem Conserved.of_returned {mf : Token} {m : MemFetch} {entry : Option NewAddrType}
    (h : Conserved cfg trace) (hnodup : (Ledger.tokens (owed cfg trace)).Nodup) {p : Debt}
    (hp : p ∈ owed cfg trace) (htoken : p.token = mf) (hvalue : p.value = (m.addr, m.dataSize)) :
    Conserved cfg (trace ++ [.nextAccess mf m entry]) := by
  have hrequest : Debt.request p = (mf, (m.addr, m.dataSize)) := Prod.ext htoken hvalue
  have hperm := (Ledger.perm_cons_settle hnodup hp).map Debt.request
  rw [htoken, List.map_cons, hrequest] at hperm
  rw [Conserved, owed_snoc, List.filterMap_append, List.filterMap_append]
  simp only [Obs.accepted, Obs.returned, List.filterMap_cons, List.filterMap_nil, List.append_nil,
    List.append_assoc, List.singleton_append]
  exact h.trans (hperm.append_left _)

theorem Conserved.of_accepted {b : Obs} (h : Conserved cfg trace) (hreturn : b.returned = none) :
    Conserved cfg (trace ++ [b]) := by
  have howed : owed cfg (trace ++ [b]) = owed cfg trace ++ (b.accepted cfg).toList := by
    rw [owed_snoc]
    cases b with
    | nextAccess mf m a => cases hreturn
    | _ => rfl
  have hsingle : ∀ {β : Type} (f : Obs → Option β), [b].filterMap f = (f b).toList := by
    intro β f
    cases hf : f b <;> simp [hf]
  rw [Conserved, howed, List.filterMap_append, List.filterMap_append, hsingle, hsingle, hreturn,
    List.map_append, List.map_append, Option.toList_none, List.append_nil, ← List.append_assoc]
  exact List.Perm.append_right _ h

/-- The invariants of delivery hold in every state that can be reached. -/
theorem delivered_of_run (hdefer : cfg.deferHitResponse = true)
    (h : System.Run cls System.Promise (System.init cfg mfs) trace sys) :
    Accounted sys.core ∧ Tracked sys.core sys.sent ∧ Delivered cls (owed cfg trace) sys.core ∧
      Conserved cfg trace := by
  refine Runs.Run.invariant (fun trace sys => Accounted sys.core ∧ Tracked sys.core sys.sent ∧
    Delivered cls (owed cfg trace) sys.core ∧ Conserved cfg trace) ?_ ?_ h
  · have hnil : System.Run cls System.Promise (System.init cfg mfs) [] (System.init cfg mfs) := .nil
    refine ⟨.of_run hdefer (hnil.mono fun _ _ h => h.distinct),
      .of_run (hnil.mono fun _ _ h => h.answers), ?_, List.Perm.refl _⟩
    constructor
    · exact List.Perm.refl _
    · intro a
      rfl
    all_goals
      intro p hp
      cases hp
  · rintro trace s o s' b ⟨hacc, htracked, hdelivered, hconserved⟩ hpromise hperform
    refine ⟨hacc.step hdefer hpromise.distinct hperform, htracked.step hpromise.answers hperform,
      ?_, ?_⟩
    · rw [owed_snoc]
      exact hdelivered.step hdefer hacc htracked hpromise hperform
    · cases b with
      | nextAccess mf m entry =>
          obtain rfl := eq_nextAccess hpromise.suits hperform
          obtain ⟨p, hp, htoken, -, hvalue, -⟩ := hdelivered.returned hacc htracked hperform
          exact hconserved.of_returned (hdelivered.tokens.nodup_iff.2 hacc.nodup) hp htoken hvalue
      | _ => exact hconserved.of_accepted rfl

/-- **Exactly-once delivery.**  In every state that a cache with deferred responses can reach, the
accepted requests that were not yet returned are in exactly one place each, among the hit response
queue, the ready response queue and the lists of the MSHR table.  Each list of the table is in the
order of acceptance, and what a miss puts into it is a read.  Every hit, and every read that is not
refused, is owed from then on.  The requests accepted so far, with their addresses and data sizes,
are those returned so far and those still owed.  What `next_access`
returns now is owed, has the address and the data size it was accepted with, and is the oldest of
its MSHR entry; if the caller has not submitted it, it is a read that the cache has created for a
write. -/
theorem exactly_once_delivery (hdefer : cfg.deferHitResponse = true)
    (h : System.Run cls System.Promise (System.init cfg mfs) trace sys) :
    (Ledger.tokens (owed cfg trace)).Perm
        (sys.core.hitTokens ++ sys.core.readyQueue ++ sys.core.entries.values) ∧
      (sys.core.hitTokens ++ sys.core.readyQueue ++ sys.core.entries.values).Nodup ∧
      (∀ a, (sys.core.entries.lookup a).getD [] = Ledger.queueOf (owed cfg trace) a) ∧
      (∀ p ∈ owed cfg trace, p.queue ≠ none → (sys.core.mfs p.token).isWrite = false) ∧
      ((trace.filterMap (Obs.accepted cfg)).map Debt.request).Perm
        (trace.filterMap Obs.returned ++ (owed cfg trace).map Debt.request) ∧
      (∀ n m time events sys' status joined,
        sys.perform cls (.access n m time events) =
          .ok (sys', .access (.caller n) m status joined) →
        status = .hit ∨ m.isWrite = false ∧ status ≠ .reservationFail →
        ∃ p ∈ owed cfg (trace ++ [.access (.caller n) m status joined]),
          p.token = .caller n ∧ p.value = (m.addr, m.dataSize)) ∧
      ∀ sys' mf m entry, sys.perform cls .nextAccess = .ok (sys', .nextAccess mf m entry) →
        ∃ p ∈ owed cfg trace, p.token = mf ∧ p.queue = entry ∧ p.value = (m.addr, m.dataSize) ∧
          (∀ a, entry = some a →
            ((owed cfg trace).filter fun q => q.queue = some a).head? = some p) ∧
          ∀ k, mf = .created k → m.isWrite = false ∧
            ∃ types, cls = .dataCache types ∧ m.accessType = types.wrAllocType := by
  obtain ⟨hacc, htracked, hdelivered, hconserved⟩ := delivered_of_run hdefer h
  refine ⟨hdelivered.tokens, hacc.nodup, hdelivered.queues, hdelivered.reads, hconserved, ?_,
    fun sys' mf m entry hperform => hdelivered.returned hacc htracked hperform⟩
  intro n m time events sys' status joined hperform haccept
  rw [owed_snoc]
  exact Delivered.accepted hperform haccept _

/-- Two reads of a sector share a fetch; one has been returned, the other waits in the list of the
MSHR entry. -/
theorem exactly_once_delivery_of_merged_reads :
    ∃ trace sys, System.Run (.dataCache .l1) System.Promise
      (System.init (CacheConfig.small 'S' 'B' 'm' 'L' 2 true) fun _ => MemFetch.load 0) trace sys ∧
      Ledger.tokens (owed (CacheConfig.small 'S' 'B' 'm' 'L' 2 true) trace) = [.caller 1] ∧
      (Ledger.tokens (owed (CacheConfig.small 'S' 'B' 'm' 'L' 2 true) trace)).Perm
        (sys.core.hitTokens ++ sys.core.readyQueue ++ sys.core.entries.values) := by
  obtain ⟨trace, sys, hrun, howed⟩ :
      ∃ trace sys, System.Run (.dataCache .l1) System.Promise
        (System.init (CacheConfig.small 'S' 'B' 'm' 'L' 2 true) fun _ => MemFetch.load 0)
          trace sys ∧
        Ledger.tokens (owed (CacheConfig.small 'S' 'B' 'm' 'L' 2 true) trace) = [.caller 1] :=
    Runs.exists_run_of_exec [.access 0 (MemFetch.load 0) 0 [], .access 1 (MemFetch.load 0) 1 [],
      .cycle false, .fill (.caller 0) 2, .nextAccess] (by decide)
  exact ⟨trace, sys, hrun, howed, (exactly_once_delivery (by decide) hrun).1⟩

end Run

end OpenCache
