/-
The MSHR table and the fetches that are under way.

Every entry of the MSHR table is either answered, and then its address waits in the current
responses, or one fetch for it is under way: a request that the cache remembers in
`m_extra_mf_fields` and that is in the miss queue or below it.  The property does not depend on how
hits are answered, and a request may be submitted again while it is under way, as long as its object
is not rebuilt.

* `OpenCache.System.Answers` — what is asked of the environment;
* `OpenCache.Tracked` — the invariant;
* `OpenCache.Tracked.miss` — accepting a miss keeps it, whether or not the entry is new;
* `OpenCache.Tracked.of_run` — the invariant holds in every state of every run;
* `OpenCache.outstanding_fetches_match_entries` — **entries and fetches match, and no assertion of
  the table or of a fill fails**.
-/

import OpenCache.System

set_option relaxedAutoImplicit false
set_option autoImplicit false

namespace OpenCache

variable {cfg : CacheConfig}

/-- The promise that the fetches need: the object of a request that is on its way is not rebuilt,
and the lower level answers only what it has been sent and waits for an answer. -/
def System.Answers (sys : System cfg) : Op → Prop
  | .access n m _ _ => .caller n ∈ sys.sent → m = sys.cache.mfs (.caller n)
  | .fill mf _ =>
      cfg.mshrType ≠ .sectorAssoc ∧ mf ∈ sys.below ∧ sys.cache.waitingForFill mf = true
  | .fillChild n m _ =>
      cfg.mshrType = .sectorAssoc ∧ .caller n ∉ sys.sent ∧
        ∃ original ∈ m.originalMf, original ∈ sys.below ∧
          sys.cache.waitingForFill original = true
  | .retire mf => mf ∈ sys.below ∧ sys.cache.waitingForFill mf = false
  | _ => True

theorem System.Answers.suits {sys : System cfg} {o : Op} (h : sys.Answers o) :
    System.Suits cfg o := by
  cases o with
  | fill mf time => exact h.1
  | fillChild n m time => exact h.1
  | _ => trivial

theorem System.Promise.answers {sys : System cfg} {o : Op} (h : sys.Promise o) :
    sys.Answers o := by
  cases o with
  | access n m time events => exact fun hmem => absurd (List.mem_append_right _ hmem) h
  | fill mf time => exact h
  | fillChild n m time => exact ⟨h.1, fun hmem => h.2.1 (List.mem_append_right _ hmem), h.2.2⟩
  | retire mf => exact h
  | _ => trivial

/-- A fetch that is remembered: the address it was sent for is the address of its request. -/
structure Fetching (s : Core cfg) (t : Token) (e : ExtraMfFields) : Prop where
  valid : e.valid = true
  isRead : (s.mfs t).isWrite = false
  addr : (s.mfs t).addr = e.blockAddr
  aligned : cfg.mshrAddr e.blockAddr = e.blockAddr

/-- Entries and fetches match, where `sent` are the requests in the miss queue and below it. -/
structure Tracked (s : Core cfg) (sent : List Token) : Prop where
  nonempty : ∀ a, s.entries.lookup a ≠ some []
  nodup : s.answered.Nodup
  answered : ∀ a ∈ s.answered, a ∈ s.entries
  entry : ∀ t e, s.extra.lookup t = some e → e.blockAddr ∈ s.entries ∧ e.blockAddr ∉ s.answered
  waits : ∀ t e, s.extra.lookup t = some e → t ∈ (s.entries.lookup e.blockAddr).getD []
  unique : ∀ t e t' e', s.extra.lookup t = some e → s.extra.lookup t' = some e' →
    e.blockAddr = e'.blockAddr → t = t'
  fetched : ∀ a ∈ s.entries, a ∉ s.answered → ∃ t e, s.extra.lookup t = some e ∧ e.blockAddr = a
  fetching : ∀ t e, s.extra.lookup t = some e → Fetching s t e ∧ sent.count t = 1
  reads : ∀ t ∈ sent, (s.mfs t).isWrite = false → t ∈ s.extra
  created : ∀ n, .created n ∈ sent → n < s.created
  entries_le : s.entries.entries.length ≤ cfg.mshrEntries
  merge_le : ∀ a l, s.entries.lookup a = some l → l.length ≤ cfg.mshrMaxMerge

namespace Tracked

variable {s s' : Core cfg} {sent sent' : List Token}

theorem mem_sent (h : Tracked s sent) {t : Token} {e : ExtraMfFields}
    (he : s.extra.lookup t = some e) : t ∈ sent :=
  List.count_pos_iff.1 (by rw [(h.fetching t e he).2]; exact Nat.one_pos)

theorem mem_sent_of_mem (h : Tracked s sent) {t : Token} (ht : t ∈ s.extra) : t ∈ sent := by
  obtain ⟨e, he⟩ := Option.isSome_iff_exists.1 (AList.lookup_isSome.2 ht)
  exact h.mem_sent he

/-- The order in which the requests are on their way does not matter. -/
theorem perm (h : Tracked s sent) (hperm : sent.Perm sent') : Tracked s sent' :=
  { h with
    fetching := fun t e he => by
      rw [← hperm.count_eq]
      exact h.fetching t e he
    reads := fun t ht => h.reads t (hperm.mem_iff.2 ht)
    created := fun n hn => h.created n (hperm.mem_iff.2 hn) }

/-! ### Updates that leave the table -/

/-- An update that keeps the table, the fetches, and the objects of the requests on their way. -/
theorem of_same (h : Tracked s sent) (hentries : s'.entries = s.entries)
    (hanswered : s'.answered = s.answered) (hextra : s'.extra = s.extra)
    (hmfs : ∀ t ∈ sent, s'.mfs t = s.mfs t) (hcreated : s.created ≤ s'.created) :
    Tracked s' sent where
  nonempty := by rw [hentries]; exact h.nonempty
  nodup := by rw [hanswered]; exact h.nodup
  answered := by rw [hanswered, hentries]; exact h.answered
  entry := by rw [hextra, hentries, hanswered]; exact h.entry
  waits := by rw [hextra, hentries]; exact h.waits
  unique := by rw [hextra]; exact h.unique
  fetched := by rw [hextra, hentries, hanswered]; exact h.fetched
  fetching := by
    intro t e he
    rw [hextra] at he
    obtain ⟨hf, hcount⟩ := h.fetching t e he
    have ht := hmfs t (h.mem_sent he)
    exact ⟨⟨hf.valid, by rw [ht]; exact hf.isRead, by rw [ht]; exact hf.addr, hf.aligned⟩, hcount⟩
  reads := by
    intro t ht hread
    rw [hmfs t ht] at hread
    rw [hextra]
    exact h.reads t ht hread
  created := fun n hn => (h.created n hn).trans_le hcreated
  entries_le := by rw [hentries]; exact h.entries_le
  merge_le := by rw [hentries]; exact h.merge_le

/-- A write is put into the miss queue. -/
theorem enqueue (h : Tracked s sent) {mf : Token} (hwrite : (s.mfs mf).isWrite = true)
    (hcreated : ∀ n, mf = .created n → n < s.created) : Tracked (s.enqueue mf) (mf :: sent) :=
  { h with
    fetching := by
      intro t e he
      obtain ⟨hf, hcount⟩ := h.fetching t e he
      have hne : mf ≠ t := by
        rintro rfl
        exact absurd hf.isRead (by simp [hwrite])
      exact ⟨⟨hf.valid, hf.isRead, hf.addr, hf.aligned⟩, by rw [List.count_cons_of_ne hne, hcount]⟩
    reads := by
      intro t ht hread
      rcases List.mem_cons.1 ht with rfl | ht
      · exact absurd hread (by simpa [Core.enqueue] using hwrite)
      · exact h.reads t ht hread
    created := by
      intro n hn
      rcases List.mem_cons.1 hn with hn | hn
      · exact hcreated n hn.symm
      · exact h.created n hn }

theorem alloc (h : Tracked s sent) (m : MemFetch) : Tracked (s.alloc m) sent := by
  refine h.of_same rfl rfl rfl ?_ (Nat.le_succ _)
  intro t ht
  have hne : t ≠ .created s.created := by
    rintro rfl
    exact lt_irrefl _ (h.created _ ht)
  exact Function.update_of_ne hne _ _

/-- A request that the cache allocates for a write-back is put into the miss queue. -/
theorem sendOwn (h : Tracked s sent) {m : Option MemFetch} (hwrite : ∀ w ∈ m, w.isWrite = true) :
    ∃ own : List Token, (s.sendOwn m).missQueue = s.missQueue ++ own ∧
      Tracked (s.sendOwn m) (own ++ sent) := by
  cases m with
  | none => exact ⟨[], (List.append_nil _).symm, h⟩
  | some w =>
      refine ⟨[.created s.created], rfl, (h.alloc w).enqueue ?_ ?_⟩
      · simpa [Core.alloc] using hwrite w rfl
      · rintro n ⟨⟩
        exact Nat.lt_succ_self _

/-! ### Accepting a miss -/

/-- A request joins an entry that is there. -/
theorem merge (h : Tracked s sent) {a : NewAddrType} {l : List Token}
    (hl : s.entries.lookup a = some l) (hlt : l.length < cfg.mshrMaxMerge) (t : Token) :
    Tracked (s.join a t) sent := by
  have hmem : a ∈ s.entries := AList.lookup_isSome.1 (by rw [hl]; rfl)
  have hjoin : (s.join a t).entries = s.entries.insert a (l ++ [t]) := by simp [Core.join, hl]
  have hkeys : ∀ a', a' ∈ (s.join a t).entries ↔ a' ∈ s.entries := by
    intro a'
    rw [hjoin, AList.mem_insert]
    exact ⟨fun ha' => ha'.elim (fun ha' => ha' ▸ hmem) id, Or.inr⟩
  -- the entries are those from before, with one that is a request longer
  have hlookup : ∀ a' l', (s.join a t).entries.lookup a' = some l' →
      a' = a ∧ l' = l ++ [t] ∨ s.entries.lookup a' = some l' := by
    intro a' l' hl'
    rw [hjoin] at hl'
    by_cases ha' : a' = a
    · rw [ha', AList.lookup_insert] at hl'
      exact Or.inl ⟨ha', (Option.some_inj.1 hl').symm⟩
    · rw [AList.lookup_insert_ne ha'] at hl'
      exact Or.inr hl'
  exact
    { nonempty := by
        intro a' ha'
        rcases hlookup a' [] ha' with ⟨-, hnil⟩ | ha'
        · exact absurd hnil (by simp)
        · exact h.nonempty a' ha'
      nodup := h.nodup
      answered := fun a' ha' => (hkeys a').2 (h.answered a' ha')
      entry := fun t' e he => ⟨(hkeys _).2 (h.entry t' e he).1, (h.entry t' e he).2⟩
      waits := by
        intro t' e he
        have hwaits := h.waits t' e he
        rw [hjoin]
        by_cases hea : e.blockAddr = a
        · rw [hea, hl] at hwaits
          rw [hea, AList.lookup_insert]
          exact List.mem_append_left _ hwaits
        · rw [AList.lookup_insert_ne hea]
          exact hwaits
      unique := h.unique
      fetched := fun a' ha' => h.fetched a' ((hkeys a').1 ha')
      fetching := fun t' e he =>
        ⟨⟨(h.fetching t' e he).1.valid, (h.fetching t' e he).1.isRead, (h.fetching t' e he).1.addr,
          (h.fetching t' e he).1.aligned⟩, (h.fetching t' e he).2⟩
      reads := h.reads
      created := h.created
      entries_le := by
        rw [hjoin, AList.entries_insert, List.length_cons]
        change (s.entries.erase a).entries.length + 1 ≤ _
        rw [← AList.length_erase_of_lookup hl]
        exact h.entries_le
      merge_le := by
        intro a' l' hl'
        rcases hlookup a' l' hl' with ⟨-, rfl⟩ | hl'
        · rw [List.length_append]
          exact hlt
        · exact h.merge_le a' l' hl' }

/-- A request that makes a new entry is not on its way yet. -/
theorem reader_notMem (h : Tracked s sent) {a : NewAddrType} (hl : s.entries.lookup a = none)
    {t : Token} (hread : (s.mfs t).isWrite = false) (ha : a = cfg.mshrAddr (s.mfs t).addr) :
    t ∉ sent := by
  intro ht
  have hextra := h.reads t ht hread
  obtain ⟨e, he⟩ := Option.isSome_iff_exists.1 (AList.lookup_isSome.2 hextra)
  obtain ⟨hf, -⟩ := h.fetching t e he
  have hentry := (h.entry t e he).1
  rw [ha, hf.addr, hf.aligned] at hl
  exact AList.lookup_eq_none.1 hl hentry

/-- A request makes a new entry, and its fetch is sent. -/
theorem launch (h : Tracked s sent) {a : NewAddrType} (hl : s.entries.lookup a = none) {t : Token}
    (hread : (s.mfs t).isWrite = false) (ha : a = cfg.mshrAddr (s.mfs t).addr)
    (hcreated : ∀ n, t = .created n → n < s.created)
    (hlt : s.entries.entries.length < cfg.mshrEntries) (hmerge : 1 ≤ cfg.mshrMaxMerge) (idx : ℕ) :
    Tracked ((s.join a t).launch a t idx) (t :: sent) := by
  have hnot : a ∉ s.entries := AList.lookup_eq_none.1 hl
  have hsent : t ∉ sent := h.reader_notMem hl hread ha
  have hjoin : ((s.join a t).launch a t idx).entries = s.entries.insert a [t] := by
    simp [Core.join, Core.launch, hl]
  have hextra : ((s.join a t).launch a t idx).extra = s.extra.insert t
      (ExtraMfFields.new cfg a (s.mfs t).addr idx (s.mfs t).dataSize) := rfl
  have hmfs : ∀ t' ≠ t, ((s.join a t).launch a t idx).mfs t' = s.mfs t' :=
    fun t' ht' => Function.update_of_ne ht' _ _
  have hself : (((s.join a t).launch a t idx).mfs t).isWrite = false ∧
      (((s.join a t).launch a t idx).mfs t).addr = a := by
    simp only [Core.launch, Core.join, Function.update_self]
    exact ⟨hread, trivial⟩
  have hlookup : ∀ t' e, ((s.join a t).launch a t idx).extra.lookup t' = some e →
      t' = t ∧ e.blockAddr = a ∧ e.valid = true ∨ t' ≠ t ∧ s.extra.lookup t' = some e := by
    intro t' e he
    rw [hextra] at he
    by_cases ht' : t' = t
    · rw [ht', AList.lookup_insert] at he
      cases he
      exact Or.inl ⟨ht', rfl, rfl⟩
    · rw [AList.lookup_insert_ne ht'] at he
      exact Or.inr ⟨ht', he⟩
  -- no fetch is under way for the new entry, or the entry would be there
  have hold : ∀ t' e, s.extra.lookup t' = some e → e.blockAddr ≠ a := by
    rintro t' e he rfl
    exact hnot (h.entry t' e he).1
  exact
    { nonempty := by
        intro a' ha'
        rw [hjoin] at ha'
        by_cases haa : a' = a
        · rw [haa, AList.lookup_insert] at ha'
          cases ha'
        · rw [AList.lookup_insert_ne haa] at ha'
          exact h.nonempty a' ha'
      nodup := h.nodup
      answered := by
        intro a' ha'
        rw [hjoin, AList.mem_insert]
        exact Or.inr (h.answered a' ha')
      entry := by
        intro t' e he
        rw [hjoin, AList.mem_insert]
        rcases hlookup t' e he with ⟨-, hea, -⟩ | ⟨-, he⟩
        · rw [hea]
          exact ⟨Or.inl rfl, fun hans => hnot (h.answered a hans)⟩
        · exact ⟨Or.inr (h.entry t' e he).1, (h.entry t' e he).2⟩
      waits := by
        intro t' e he
        rw [hjoin]
        rcases hlookup t' e he with ⟨rfl, hea, -⟩ | ⟨-, he⟩
        · rw [hea, AList.lookup_insert]
          exact List.mem_singleton_self _
        · rw [AList.lookup_insert_ne (hold t' e he)]
          exact h.waits t' e he
      unique := by
        intro t₁ e₁ t₂ e₂ he₁ he₂ heq
        rcases hlookup t₁ e₁ he₁ with ⟨h₁, ha₁, -⟩ | ⟨-, he₁⟩ <;>
          rcases hlookup t₂ e₂ he₂ with ⟨h₂, ha₂, -⟩ | ⟨-, he₂⟩
        · rw [h₁, h₂]
        · exact absurd (heq.symm.trans ha₁) (hold t₂ e₂ he₂)
        · exact absurd (heq.trans ha₂) (hold t₁ e₁ he₁)
        · exact h.unique t₁ e₁ t₂ e₂ he₁ he₂ heq
      fetched := by
        intro a' ha' hans
        rw [hjoin, AList.mem_insert] at ha'
        by_cases haa : a' = a
        · refine ⟨t, ExtraMfFields.new cfg a (s.mfs t).addr idx (s.mfs t).dataSize, ?_, haa.symm⟩
          rw [hextra]
          exact AList.lookup_insert _
        · obtain ⟨t', e, he, hea⟩ := h.fetched a' (ha'.resolve_left haa) hans
          have htt : t' ≠ t := by
            rintro rfl
            exact hsent (h.mem_sent he)
          refine ⟨t', e, ?_, hea⟩
          rw [hextra, AList.lookup_insert_ne htt]
          exact he
      fetching := by
        intro t' e he
        rcases hlookup t' e he with ⟨rfl, hea, hvalid⟩ | ⟨htt, he⟩
        · refine ⟨⟨hvalid, hself.1, hself.2.trans hea.symm, ?_⟩, ?_⟩
          · rw [hea, ha, CacheConfig.mshrAddr_mshrAddr]
          · rw [List.count_cons_self, List.count_eq_zero_of_not_mem hsent]
        · obtain ⟨hf, hcount⟩ := h.fetching t' e he
          refine ⟨⟨hf.valid, ?_, ?_, hf.aligned⟩, ?_⟩
          · rw [hmfs t' htt]
            exact hf.isRead
          · rw [hmfs t' htt]
            exact hf.addr
          · rw [List.count_cons_of_ne (Ne.symm htt), hcount]
      reads := by
        intro t' ht' hr
        rw [hextra, AList.mem_insert]
        by_cases htt : t' = t
        · exact Or.inl htt
        · rw [hmfs t' htt] at hr
          exact Or.inr (h.reads t' ((List.mem_cons.1 ht').resolve_left htt) hr)
      created := by
        intro n hn
        rcases List.mem_cons.1 hn with hn | hn
        · exact hcreated n hn.symm
        · exact h.created n hn
      entries_le := by
        rw [hjoin, AList.entries_insert_of_notMem hnot, List.length_cons]
        exact hlt
      merge_le := by
        intro a' l' hl'
        rw [hjoin] at hl'
        by_cases haa : a' = a
        · rw [haa, AList.lookup_insert] at hl'
          cases hl'
          exact hmerge
        · rw [AList.lookup_insert_ne haa] at hl'
          exact h.merge_le a' l' hl' }

/-- **Accepting a miss keeps the match**: the request joins an entry, or makes one and is sent. -/
theorem miss (h : Tracked s sent) {a : NewAddrType} {t : Token}
    (hread : (s.mfs t).isWrite = false) (ha : a = cfg.mshrAddr (s.mfs t).addr)
    (hcreated : ∀ n, t = .created n → n < s.created)
    (hjoin : ∀ l, s.entries.lookup a = some l → l.length < cfg.mshrMaxMerge)
    (hnew : s.entries.lookup a = none →
      s.entries.entries.length < cfg.mshrEntries ∧ 1 ≤ cfg.mshrMaxMerge) (idx : ℕ) :
    ∃ own : List Token, (s.miss a t idx).missQueue = s.missQueue ++ own ∧
      Tracked (s.miss a t idx) (own ++ sent) := by
  cases hl : s.entries.lookup a with
  | some l =>
      refine ⟨[], by rw [Core.miss_of_some hl]; simp [Core.join], ?_⟩
      refine (h.merge hl (hjoin l hl) t).of_same ?_ ?_ ?_ (fun _ _ => ?_) ?_ <;>
        simp [Core.miss_of_some hl]
  | none =>
      refine ⟨[t], by rw [Core.miss_of_none hl]; simp [Core.launch, Core.join], ?_⟩
      refine (h.launch hl hread ha hcreated (hnew hl).1 (hnew hl).2 idx).of_same ?_ ?_ ?_
        (fun _ _ => ?_) ?_
      all_goals simp [Core.miss_of_none hl, Core.launch]

/-! ### Answers -/

/-- The response to a fetch: its entry is answered. -/
theorem complete (h : Tracked s sent) {t : Token} {e : ExtraMfFields}
    (he : s.extra.lookup t = some e) : Tracked (s.complete t e) (sent.erase t) := by
  have hother : ∀ t' e', (s.complete t e).extra.lookup t' = some e' →
      t' ≠ t ∧ s.extra.lookup t' = some e' := by
    intro t' e' he'
    by_cases htt : t' = t
    · rw [htt] at he'
      exact absurd he' (by simp [Core.complete])
    · exact ⟨htt, (AList.lookup_erase_ne htt).symm.trans he'⟩
  have hmfs : ∀ t' ≠ t, (s.complete t e).mfs t' = s.mfs t' :=
    fun t' htt => Function.update_of_ne htt _ _
  -- a fetch is on its way once, so that its response takes it away
  have hmem : ∀ t' ∈ sent.erase t, t' ≠ t ∧ t' ∈ sent := by
    intro t' ht'
    refine ⟨?_, List.mem_of_mem_erase ht'⟩
    rintro rfl
    have hcount := List.count_pos_iff.2 ht'
    rw [List.count_erase_self, (h.fetching t' e he).2] at hcount
    exact lt_irrefl _ hcount
  exact
    { nonempty := h.nonempty
      nodup := by
        refine List.nodup_append.2 ⟨h.nodup, List.nodup_singleton _, ?_⟩
        rintro a ha b hb rfl
        rw [List.mem_singleton.1 hb] at ha
        exact (h.entry t e he).2 ha
      answered := by
        intro a ha
        rcases List.mem_append.1 ha with ha | ha
        · exact h.answered a ha
        · rw [List.mem_singleton.1 ha]
          exact (h.entry t e he).1
      entry := by
        intro t' e' he'
        obtain ⟨htt, he'⟩ := hother t' e' he'
        refine ⟨(h.entry t' e' he').1, fun hans => ?_⟩
        rcases List.mem_append.1 hans with hans | hans
        · exact (h.entry t' e' he').2 hans
        · exact htt (h.unique t' e' t e he' he (List.mem_singleton.1 hans))
      waits := fun t' e' he' => h.waits t' e' (hother t' e' he').2
      unique := fun t₁ e₁ t₂ e₂ h₁ h₂ =>
        h.unique t₁ e₁ t₂ e₂ (hother t₁ e₁ h₁).2 (hother t₂ e₂ h₂).2
      fetched := by
        intro a ha hans
        obtain ⟨t', e', he', hea⟩ := h.fetched a ha fun hmem =>
          hans (List.mem_append_left _ hmem)
        have htt : t' ≠ t := by
          rintro rfl
          obtain rfl := Option.some_inj.1 (he'.symm.trans he)
          exact hans (List.mem_append_right _ (by rw [hea]; exact List.mem_singleton_self _))
        exact ⟨t', e', (AList.lookup_erase_ne htt).trans he', hea⟩
      fetching := by
        intro t' e' he'
        obtain ⟨htt, he'⟩ := hother t' e' he'
        obtain ⟨hf, hcount⟩ := h.fetching t' e' he'
        refine ⟨⟨hf.valid, ?_, ?_, hf.aligned⟩, ?_⟩
        · rw [hmfs t' htt]
          exact hf.isRead
        · rw [hmfs t' htt]
          exact hf.addr
        · rw [List.count_erase_of_ne htt, hcount]
      reads := by
        intro t' ht' hr
        obtain ⟨htt, ht'⟩ := hmem t' ht'
        rw [hmfs t' htt] at hr
        exact AList.mem_erase.2 ⟨htt, h.reads t' ht' hr⟩
      created := fun n hn => h.created n (hmem _ hn).2
      entries_le := h.entries_le
      merge_le := h.merge_le }

/-- The first request of an answered entry is returned. -/
theorem deliver (h : Tracked s sent) {a : NewAddrType} {others : List NewAddrType} {mf : Token}
    {rest : List Token} (hanswered : s.answered = a :: others)
    (hentry : s.entries.lookup a = some (mf :: rest)) : Tracked (s.deliver a rest) sent := by
  have hans : a ∈ s.answered := by rw [hanswered]; exact List.mem_cons_self
  have hne : ∀ t e, s.extra.lookup t = some e → e.blockAddr ≠ a := by
    rintro t e he rfl
    exact (h.entry t e he).2 hans
  have hfetching : ∀ t e, s.extra.lookup t = some e →
      Fetching (s.deliver a rest) t e ∧ sent.count t = 1 := by
    intro t e he
    obtain ⟨hf, hcount⟩ := h.fetching t e he
    have hmfs : (s.deliver a rest).mfs = s.mfs := by
      unfold Core.deliver
      split <;> rfl
    exact ⟨⟨hf.valid, by rw [hmfs]; exact hf.isRead, by rw [hmfs]; exact hf.addr, hf.aligned⟩,
      hcount⟩
  by_cases hrest : rest = []
  · -- the entry is released
    have hdeliver : s.deliver a rest =
        { s with entries := s.entries.erase a, answered := s.answered.tail } := if_pos hrest
    have hnodup : a ∉ others ∧ others.Nodup := List.nodup_cons.1 (hanswered ▸ h.nodup)
    have hlookup : ∀ a' l, (s.entries.erase a).lookup a' = some l →
        a' ≠ a ∧ s.entries.lookup a' = some l := by
      intro a' l hl
      by_cases haa : a' = a
      · rw [haa, AList.lookup_erase] at hl
        cases hl
      · exact ⟨haa, (AList.lookup_erase_ne haa).symm.trans hl⟩
    rw [hdeliver, hanswered] at hfetching ⊢
    exact
      { nonempty := fun a' ha' => h.nonempty a' (hlookup a' [] ha').2
        nodup := hnodup.2
        answered := by
          intro a' ha'
          refine AList.mem_erase.2 ⟨?_, h.answered a' (by rw [hanswered]; exact .tail _ ha')⟩
          rintro rfl
          exact hnodup.1 ha'
        entry := by
          intro t e he
          refine ⟨AList.mem_erase.2 ⟨hne t e he, (h.entry t e he).1⟩, fun hmem => ?_⟩
          exact (h.entry t e he).2 (by rw [hanswered]; exact .tail _ hmem)
        waits := by
          intro t e he
          rw [AList.lookup_erase_ne (hne t e he)]
          exact h.waits t e he
        unique := h.unique
        fetched := by
          intro a' ha' hnot
          obtain ⟨haa, ha'⟩ := AList.mem_erase.1 ha'
          refine h.fetched a' ha' ?_
          rw [hanswered]
          exact fun hmem => (List.mem_cons.1 hmem).elim haa hnot
        fetching := hfetching
        reads := h.reads
        created := h.created
        entries_le := by
          have hle := h.entries_le
          rw [AList.length_erase_of_lookup hentry] at hle
          exact (Nat.le_succ _).trans hle
        merge_le := fun a' l hl => h.merge_le a' l (hlookup a' l hl).2 }
  · -- the entry keeps its other requests
    have hdeliver : s.deliver a rest = { s with entries := s.entries.insert a rest } :=
      if_neg hrest
    have hmem : ∀ a', a' ∈ s.entries.insert a rest ↔ a' ∈ s.entries := by
      intro a'
      rw [AList.mem_insert]
      exact ⟨fun ha' => ha'.elim (fun ha' => ha' ▸ h.answered a hans) id, Or.inr⟩
    have hlookup : ∀ a' l, (s.entries.insert a rest).lookup a' = some l →
        a' = a ∧ l = rest ∨ s.entries.lookup a' = some l := by
      intro a' l hl
      by_cases haa : a' = a
      · rw [haa, AList.lookup_insert] at hl
        exact Or.inl ⟨haa, (Option.some_inj.1 hl).symm⟩
      · exact Or.inr ((AList.lookup_insert_ne haa).symm.trans hl)
    rw [hdeliver] at hfetching ⊢
    exact
      { nonempty := by
          intro a' ha'
          rcases hlookup a' [] ha' with ⟨-, hnil⟩ | ha'
          · exact hrest hnil.symm
          · exact h.nonempty a' ha'
        nodup := h.nodup
        answered := fun a' ha' => (hmem a').2 (h.answered a' ha')
        entry := fun t e he => ⟨(hmem _).2 (h.entry t e he).1, (h.entry t e he).2⟩
        waits := by
          intro t e he
          rw [AList.lookup_insert_ne (hne t e he)]
          exact h.waits t e he
        unique := h.unique
        fetched := fun a' ha' => h.fetched a' ((hmem a').1 ha')
        fetching := hfetching
        reads := h.reads
        created := h.created
        entries_le := by
          rw [AList.entries_insert, List.length_cons]
          change (s.entries.erase a).entries.length + 1 ≤ _
          rw [← AList.length_erase_of_lookup hentry]
          exact h.entries_le
        merge_le := by
          intro a' l hl
          rcases hlookup a' l hl with ⟨rfl, rfl⟩ | hl
          · exact (Nat.le_succ _).trans (h.merge_le a' _ hentry)
          · exact h.merge_le a' l hl }

/-- A request that is not waited for is gone from below. -/
theorem retire (h : Tracked s sent) {t : Token} (ht : t ∉ s.extra) : Tracked s (sent.erase t) :=
  { h with
    fetching := by
      intro t' e he
      have htt : t' ≠ t := by
        rintro rfl
        exact ht (AList.lookup_isSome.1 (by rw [he]; rfl))
      refine ⟨(h.fetching t' e he).1, ?_⟩
      rw [List.count_erase_of_ne htt, (h.fetching t' e he).2]
    reads := fun t' ht' => h.reads t' (List.mem_of_mem_erase ht')
    created := fun n hn => h.created n (List.mem_of_mem_erase hn) }

/-! ### One step -/

section Access

variable {c : Cache cfg} {cls : CacheClass} {addr : NewAddrType} {mf : Token} {time : Time}
  {status : CacheRequestStatus} {below : List Token}

/-- A hit that is forwarded is a write. -/
theorem isWrite_of_forward {m : MemFetch} {i : Fin 4} {b line : CacheBlock cfg.cacheType}
    {forward : Bool} (h : HitEffect cfg cls m time i b line forward) (hf : forward = true) :
    m.isWrite = true := by
  cases h with
  | read => cases hf
  | write hwrite => exact hwrite
  | evict hwrite => exact hwrite

/-- The write-back for a victim is a write. -/
theorem isWrite_writebackOf {m : MemFetch} {b : CacheBlock cfg.cacheType} :
    ∀ w ∈ writebackOf cfg cls m status b, w.isWrite = true := by
  intro w hw
  unfold writebackOf at hw
  split at hw
  · cases hw
  · split at hw
    · cases hw
    · obtain ⟨e, -, rfl⟩ := Option.map_eq_some_iff.1 hw
      rfl

/-- What is put into the miss queue is sent. -/
theorem of_own {own : List Token} (hqueue : s'.missQueue = s.missQueue ++ own)
    (h : Tracked s' (own ++ (s.missQueue ++ below))) : Tracked s' (s'.missQueue ++ below) := by
  refine h.perm ?_
  rw [hqueue, List.append_assoc]
  exact (List.perm_append_comm_assoc _ _ _)

theorem forward (h : Tracked s (s.missQueue ++ below)) (hwrite : (s.mfs mf).isWrite = true)
    (hcaller : ∀ n, mf ≠ .created n) :
    Tracked (s.enqueue mf) ((s.enqueue mf).missQueue ++ below) := by
  have henqueue := h.enqueue hwrite fun n hn => absurd hn (hcaller n)
  exact of_own rfl henqueue

theorem enqueueIf (h : Tracked s (s.missQueue ++ below)) {forward : Bool}
    (hwrite : forward = true → (s.mfs mf).isWrite = true) (hcaller : ∀ n, mf ≠ .created n) :
    Tracked (s.enqueueIf forward mf) ((s.enqueueIf forward mf).missQueue ++ below) := by
  cases forward with
  | false => exact h
  | true => exact h.forward (hwrite rfl) hcaller

/-- The request that fetches is a read of the address of the access. -/
theorem fetcher {s : Core cfg} {reader : Token}
    {written : CacheBlock cfg.cacheType → CacheBlock cfg.cacheType}
    (h : Tracked c.core (c.core.missQueue ++ below)) (hcaller : ∀ n, mf ≠ .created n)
    (hf : Fetcher cfg cls mf c.core reader s written) :
    Tracked s (s.missQueue ++ below) ∧ ∀ n, reader = .created n → n < s.created := by
  cases hf with
  | read hread => exact ⟨h, fun n hn => absurd hn (hcaller n)⟩
  | naive hwrite =>
      refine ⟨(h.forward hwrite hcaller).alloc _, ?_⟩
      rintro n ⟨⟩
      exact Nat.lt_succ_self _
  | fetchOnWrite =>
      refine ⟨h.alloc _, ?_⟩
      rintro n ⟨⟩
      exact Nat.lt_succ_self _

/-- An access keeps entries and fetches matched. -/
theorem access (h : Tracked c.core (c.core.missQueue ++ below))
    (hcaller : ∀ n, mf ≠ .created n) (hcase : AccessCase c cls addr mf time status s') :
    Tracked s' (s'.missQueue ++ below) := by
  cases hcase with
  | refused => exact h
  | hit p hp _ _ line forward heffect =>
      have hline : Tracked (c.core.setLine p.idx line) (c.core.missQueue ++ below) :=
        h.of_same rfl rfl rfl (fun _ _ => rfl) le_rfl
      have hforward := hline.enqueueIf (fun hf => isWrite_of_forward heffect hf) hcaller
      simp only [Core.respond_frame]
      refine hforward.of_same ?_ ?_ ?_ (fun _ _ => ?_) ?_ <;> simp
  | forward p hp _ hwrite => exact h.forward hwrite hcaller
  | write p hp _ hwrite _ _ _ line forward heffect =>
      have hforward : Tracked (c.core.enqueueIf forward mf) _ :=
        h.enqueueIf (fun _ => hwrite) hcaller
      have hline : Tracked ((c.core.enqueueIf forward mf).setLine p.idx line)
          ((c.core.enqueueIf forward mf).missQueue ++ below) :=
        hforward.of_same rfl rfl rfl (fun _ _ => rfl) le_rfl
      obtain ⟨own, hqueue, hown⟩ := hline.sendOwn isWrite_writebackOf
      exact of_own hqueue hown
  | fetch p hp _ _ reader s written hfetcher hjoin hnew =>
      obtain ⟨hs, hcreated⟩ := h.fetcher hcaller hfetcher
      obtain ⟨hread, haddr, -, -⟩ := hfetcher.request
      obtain ⟨-, hentries, -⟩ := hfetcher.frame
      have hline : Tracked (s.setLine p.idx (c.touched addr (c.mfs mf) time p))
          (s.missQueue ++ below) := hs.of_same rfl rfl rfl (fun _ _ => rfl) le_rfl
      have ha : cfg.mshrAddr (c.mfs mf).addr = cfg.mshrAddr (s.mfs reader).addr :=
        (congrArg cfg.mshrAddr haddr).symm
      have hlookup : ∀ a, s.entries.lookup a = c.mshrs.data.lookup a := fun a => by
        rw [hentries]
        rfl
      have hlen : s.entries.entries.length = c.mshrs.data.entries.length := by
        rw [hentries]
        rfl
      obtain ⟨own, hqueue, hown⟩ := hline.miss hread ha hcreated
        (fun l hl => hjoin l ((hlookup _).symm.trans hl))
        (fun hl => ⟨hlen ▸ (hnew ((hlookup _).symm.trans hl)).1,
          (hnew ((hlookup _).symm.trans hl)).2.1⟩) p.idx
      have hmiss := of_own hqueue hown
      dsimp only
      generalize (s.setLine p.idx (c.touched addr (c.mfs mf) time p)).miss _ reader p.idx = s₁
        at hmiss ⊢
      have hwritten : Tracked (s₁.setLine p.idx (written (s₁.lines p.idx)))
          (s₁.missQueue ++ below) := hmiss.of_same rfl rfl rfl (fun _ _ => rfl) le_rfl
      obtain ⟨own', hqueue', hown'⟩ := hwritten.sendOwn isWrite_writebackOf
      exact of_own hqueue' hown'

end Access

section Step

variable {sys sys' : System cfg} {cls : CacheClass} {o : Op} {b : Obs}

/-- The responses that are missing for a fetch do not matter. -/
theorem wait (h : Tracked s sent) {t : Token} {e : ExtraMfFields} (he : s.extra.lookup t = some e)
    (pendingRead : BitVec 32) :
    Tracked { s with extra := s.extra.insert t { e with pendingRead } } sent := by
  have hlookup : ∀ t' e', (s.extra.insert t { e with pendingRead }).lookup t' = some e' →
      ∃ e₀, s.extra.lookup t' = some e₀ ∧ e'.blockAddr = e₀.blockAddr ∧ e'.valid = e₀.valid := by
    intro t' e' he'
    by_cases htt : t' = t
    · rw [htt, AList.lookup_insert] at he'
      cases he'
      exact ⟨e, htt ▸ he, rfl, rfl⟩
    · exact ⟨e', (AList.lookup_insert_ne htt).symm.trans he', rfl, rfl⟩
  exact
    { h with
      entry := by
        intro t' e' he'
        obtain ⟨e₀, he₀, hblock, -⟩ := hlookup t' e' he'
        rw [hblock]
        exact h.entry t' e₀ he₀
      waits := by
        intro t' e' he'
        obtain ⟨e₀, he₀, hblock, -⟩ := hlookup t' e' he'
        rw [hblock]
        exact h.waits t' e₀ he₀
      unique := by
        intro t₁ e₁ t₂ e₂ h₁ h₂ heq
        obtain ⟨e₁', h₁', hblock₁, -⟩ := hlookup t₁ e₁ h₁
        obtain ⟨e₂', h₂', hblock₂, -⟩ := hlookup t₂ e₂ h₂
        exact h.unique t₁ e₁' t₂ e₂' h₁' h₂' (hblock₁.symm.trans (heq.trans hblock₂))
      fetched := by
        intro a ha hans
        obtain ⟨t', e', he', hea⟩ := h.fetched a ha hans
        by_cases htt : t' = t
        · obtain rfl := Option.some_inj.1 (he'.symm.trans (htt ▸ he))
          exact ⟨t, _, AList.lookup_insert _, hea⟩
        · exact ⟨t', e', (AList.lookup_insert_ne htt).trans he', hea⟩
      fetching := by
        intro t' e' he'
        obtain ⟨e₀, he₀, hblock, hvalid⟩ := hlookup t' e' he'
        obtain ⟨hf, hcount⟩ := h.fetching t' e₀ he₀
        exact ⟨⟨hvalid.trans hf.valid, hf.isRead, hf.addr.trans hblock.symm,
          by rw [hblock]; exact hf.aligned⟩, hcount⟩
      reads := fun t' ht' hr => (AList.mem_insert _).2 (Or.inr (h.reads t' ht' hr)) }

/-- The object of a request that is not on its way may be rebuilt. -/
theorem build (h : Tracked sys.core sys.sent) {n : ℕ} {m : MemFetch}
    (hm : .caller n ∈ sys.sent → m = sys.cache.mfs (.caller n)) :
    Tracked (sys.build n m).core sys.sent := by
  refine h.of_same rfl rfl rfl ?_ le_rfl
  intro t ht
  by_cases htn : t = .caller n
  · subst htn
    exact (Function.update_self _ _ _).trans (hm ht)
  · exact Function.update_of_ne htn _ _

/-- A request that is below leaves. -/
theorem erase_below {t : Token} {q below : List Token} (ht : t ∈ below) :
    ((q ++ below).erase t).Perm (q ++ below.erase t) := by
  refine (List.perm_append_comm.erase t).trans ?_
  rw [List.erase_append_left _ ht]
  exact List.perm_append_comm

/-- **One step keeps entries and fetches matched.** -/
theorem step (h : Tracked sys.core sys.sent) (hpromise : sys.Answers o)
    (hperform : sys.perform cls o = .ok (sys', b)) :
    Tracked sys'.core sys'.sent := by
  have hsent : sys.sent = sys.core.missQueue ++ sys.below := rfl
  have hsent' : sys'.sent = sys'.core.missQueue ++ sys'.below := rfl
  rw [hsent']
  cases System.step_cases hpromise.suits hperform with
  | access n m time events status hcase hbelow =>
      rw [hbelow]
      exact (h.build hpromise).access (by simp) hcase
  | tick memportFull waiting done htick hcore hbelow =>
      rw [hcore, hbelow]
      exact h.of_same rfl rfl rfl (fun _ _ => rfl) le_rfl
  | push memportFull waiting done htick mf rest hqueue hcore hbelow =>
      rw [hcore, hbelow]
      refine (h.perm ?_).of_same rfl rfl rfl (fun _ _ => rfl) le_rfl
      rw [hsent, hqueue, ← List.append_assoc]
      exact (List.perm_append_singleton _ _).symm
  | wait n m time original horiginal e pendingRead he hcore hbelow =>
      rw [hcore, hbelow]
      exact (h.build fun hmem => absurd hmem hpromise.2.1).wait he pendingRead
  | complete o c mf time horigin e he hentry lines hfill hcore hbelow =>
      obtain ⟨hc, hmem⟩ : Tracked c.core sys.sent ∧ mf ∈ sys.below := by
        rcases horigin with ⟨rfl, rfl⟩ | ⟨n, m, rfl, ho, rfl⟩
        · exact ⟨h, hpromise.2.1⟩
        · obtain ⟨original, ho', hmem, -⟩ := hpromise.2.2
          cases ho.symm.trans ho'
          exact ⟨h.build fun hmem => absurd hmem hpromise.2.1, hmem⟩
      have hextra : c.core.extra.lookup mf = some e := by
        rcases horigin with ⟨-, rfl⟩ | ⟨n, m, -, -, rfl⟩ <;> exact he
      have hqueue : c.core.missQueue = sys.core.missQueue := by
        rcases horigin with ⟨-, rfl⟩ | ⟨n, m, -, -, rfl⟩ <;> rfl
      rw [hcore, hbelow]
      change Tracked _ (c.core.missQueue ++ _)
      rw [hqueue]
      exact ((hc.complete hextra).perm (erase_below hmem)).of_same rfl rfl rfl (fun _ _ => rfl)
        le_rfl
  | ready mf rest hqueue hpinned hcore hbelow =>
      rw [hcore, hbelow]
      simp only [Core.unpin_frame]
      refine h.of_same ?_ ?_ ?_ (fun _ _ => ?_) ?_ <;> simp
  | deliver mf a rest addresses hready hanswered hentry hpinned hcore hbelow =>
      have hqueue : (sys.core.deliver a rest).missQueue = sys.core.missQueue := by
        unfold Core.deliver
        split <;> rfl
      rw [hcore, hbelow]
      simp only [Core.unpin_frame, hqueue]
      refine (h.deliver hanswered hentry).of_same ?_ ?_ ?_ (fun _ _ => ?_) ?_ <;> simp
  | flush hcore hbelow =>
      rw [hcore, hbelow]
      exact h.of_same rfl rfl rfl (fun _ _ => rfl) le_rfl
  | invalidate hcore hbelow =>
      rw [hcore, hbelow]
      exact h.of_same rfl rfl rfl (fun _ _ => rfl) le_rfl
  | retire mf hcore hbelow =>
      rw [hcore, hbelow]
      refine (h.retire fun hmem => ?_).perm (erase_below hpromise.1)
      have hsome : sys.cache.waitingForFill mf = true := AList.lookup_isSome.2 hmem
      rw [hpromise.2] at hsome
      cases hsome

/-- **Entries and fetches match in every state that can be reached.** -/
theorem of_run {mfs : Token → MemFetch} {trace : List Obs}
    (h : System.Run cls System.Answers (System.init cfg mfs) trace sys) :
    Tracked sys.core sys.sent := by
  refine Runs.Run.state_invariant (fun s => Tracked s.core s.sent) ?_ ?_ h
  · constructor <;> simp [System.core, System.init, Cache.core, Cache.init, MshrTable.init,
      System.sent]
  · intro s o s' b hs hp hperform
    exact hs.step hp hperform

end Step

/-! ### The assertions of the table -/

/-- A table with room takes a request. -/
theorem add_only (h : Tracked s sent) (hmerge : 1 ≤ cfg.mshrMaxMerge)
    {t : MshrTable cfg.mshrEntries cfg.mshrMaxMerge} (ht : t.data = s.entries) {a : NewAddrType}
    (hfull : t.full a = false) (mf : Token) (P : Abort → Prop) : Raises.Only P (t.add a mf) := by
  rw [MshrTable.full, ht] at hfull
  refine .bind (assertThat_only fun hn => absurd ?_ hn) fun _ _ =>
    .bind (assertThat_only fun hn => absurd ?_ hn) fun _ _ => .ok _
  · rw [ht, AList.entries_insert, List.length_cons]
    change (s.entries.erase a).entries.length + 1 ≤ _
    cases hl : s.entries.lookup a with
    | some l =>
        rw [← AList.length_erase_of_lookup hl]
        exact h.entries_le
    | none =>
        rw [hl] at hfull
        rw [AList.erase_of_notMem (AList.lookup_eq_none.1 hl)]
        exact Nat.lt_of_not_le (by simpa using hfull)
  · rw [ht, List.length_append]
    cases hl : s.entries.lookup a with
    | some l =>
        rw [hl] at hfull
        exact Nat.lt_of_not_le (by simpa using hfull)
    | none => exact hmerge

/-- An entry that waits for its fetch can be answered. -/
theorem markReady_only (h : Tracked s sent) {t : MshrTable cfg.mshrEntries cfg.mshrMaxMerge}
    (ht : t.data = s.entries) (hcur : t.currentResponse = s.answered) {mf : Token}
    {e : ExtraMfFields} (he : s.extra.lookup mf = some e) (P : Abort → Prop) :
    Raises.Only P (t.markReady e.blockAddr) := by
  obtain ⟨hentry, hnot⟩ := h.entry mf e he
  refine .bind (assertThat_only fun hn => absurd ?_ hn) fun _ _ =>
    .bind (assertThat_only fun hn => absurd ?_ hn) fun _ _ => .ok _
  · rw [ht]
    exact AList.lookup_isSome.2 hentry
  · have hnodup : (s.answered ++ [e.blockAddr]).Nodup := by
      refine List.nodup_append.2 ⟨h.nodup, List.nodup_singleton _, ?_⟩
      rintro a ha b hb rfl
      exact hnot (List.mem_singleton.1 hb ▸ ha)
    have hsub : (s.answered ++ [e.blockAddr]) ⊆ s.entries.keys := by
      intro a ha
      rcases List.mem_append.1 ha with ha | ha
      · exact AList.mem_keys.1 (h.answered a ha)
      · exact AList.mem_keys.1 (List.mem_singleton.1 ha ▸ hentry)
    have hle := (hnodup.subperm hsub).length_le
    rw [ht, hcur]
    simpa [AList.keys, List.keys] using hle

/-- An entry whose address waits in the current responses has a request to return. -/
theorem nextAccess_only (h : Tracked s sent) {t : MshrTable cfg.mshrEntries cfg.mshrMaxMerge}
    (ht : t.data = s.entries) (hcur : t.currentResponse = s.answered) {P : Abort → Prop}
    (hnone : s.answered = [] → P .mshrNextAccessNotReady) : Raises.Only P t.nextAccess := by
  unfold MshrTable.nextAccess
  split
  · next hnil => exact .error (hnone (hcur.symm.trans hnil))
  · next a others hcons =>
      have hans : a ∈ s.answered := by rw [← hcur, hcons]; exact List.mem_cons_self
      split
      · next hnil =>
          rw [ht] at hnil
          cases hl : s.entries.lookup a with
          | none => exact absurd (h.answered a hans) (AList.lookup_eq_none.1 hl)
          | some l =>
              rw [hl] at hnil
              cases hnil
              exact absurd hl (h.nonempty a)
      · exact .ite (fun _ => .ok _) fun _ => .ok _

/-- An assertion that is neither one of the MSHR table nor one of a fill. -/
def Benign (e : Abort) : Prop := e.concern ≠ some .table ∧ e.concern ≠ some .fill

theorem Benign.of_ofInput {e : Abort} (h : e.ofInput = true) : Benign e := by
  simp [Benign, Abort.concern_of_ofInput h]

/-- A response to a request that waits for it is taken. -/
theorem fill_only (hcfg : cfg.Checked) {c : Cache cfg} (h : Tracked c.core sent) {mf t : Token}
    (hanswered : c.answeredBy mf = some t) (hwaiting : c.waitingForFill t = true) (time : Time) :
    Raises.Only Benign (c.fill mf time) := by
  refine Cache.fill_only ?_ ?_ ?_ ?_ ?_ time
  · exact fun e he => .of_ofInput (Abort.ofInput_of_plain he)
  · intro hstream
    rcases hcfg.alloc with halloc | halloc <;> rw [halloc] at hstream <;> cases hstream
  · intro hnone
    rw [hanswered] at hnone
    cases hnone
  · intro t' ht' hnone
    cases hanswered.symm.trans ht'
    rw [Cache.waitingForFill, hnone] at hwaiting
    cases hwaiting
  · intro t' ht' e he
    have hextra : c.core.extra.lookup t' = some e := he
    refine ⟨fun hvalid => ?_, h.markReady_only rfl rfl hextra _, fun _ => ⟨?_, ?_⟩⟩
    · rw [(h.fetching t' e hextra).1.valid] at hvalid
      cases hvalid
    · exact TagArray.probe_only (fun e he => .of_ofInput (Abort.ofInput_of_plain he))
        ⟨by decide, by decide⟩ _ _ _ _ _
    · exact fun p _ => .of (.of_ofInput rfl) _

/-- No call that keeps the promise fails on an assertion of the MSHR table or of a fill. -/
theorem perform_only {sys : System cfg} (hcfg : cfg.Checked) (hmerge : 1 ≤ cfg.mshrMaxMerge)
    (h : Tracked sys.core sys.sent) {o : Op} (hpromise : sys.Answers o) (cls : CacheClass) :
    Raises.Only Benign (sys.perform cls o) := by
  have hP : ∀ e : Abort, e.plain = true → Benign e :=
    fun e he => .of_ofInput (Abort.ofInput_of_plain he)
  refine System.perform_only hP ?_ ?_ ?_ ?_
  · rintro n m time events rfl
    have hadd : ∀ a mf, (sys.build n m).mshrs.full a = false →
        Raises.Only Benign ((sys.build n m).mshrs.add a mf) :=
      fun a mf hfull => h.add_only hmerge rfl hfull mf _
    exact Cache.access_only hP hadd
      (TagArray.probe_only hP ⟨by decide, by decide⟩ _ _ _ _ _)
      (fun p _ => .of (.of_ofInput rfl) _) cls time events
  · rintro mf time rfl
    obtain ⟨hassoc, -, hwaiting⟩ := hpromise
    exact h.fill_only hcfg (if_neg hassoc) hwaiting time
  · rintro n m time rfl
    obtain ⟨hassoc, hnot, original, ho, -, hwaiting⟩ := hpromise
    refine ⟨(h.build fun hmem => absurd hmem hnot).fill_only hcfg ?_ hwaiting time, fun hnone => ?_⟩
    · rw [Cache.answeredBy, if_pos hassoc]
      simpa [System.build] using ho
    · rw [hnone] at ho
      cases ho
  · rintro rfl
    refine Cache.nextAccess_only hP (fun hready hqueue => ?_)
      fun _ _ _ _ => ⟨by decide, by decide⟩
    refine h.nextAccess_only rfl rfl fun hnil => ?_
    have hcur : sys.cache.mshrs.currentResponse = [] := hnil
    simp [Cache.accessReady, MshrTable.accessReady, hqueue, hcur] at hready

end Tracked

/-- **MSHR entries and outstanding fetches match**, in every state that a cache can reach under any
order of calls.  An entry has a non-empty list, and either its address occurs once in the current
responses, or one request is remembered for it, and that request is in the miss queue or below it
exactly once; the two exclude each other.  Every remembered request has its entry, the limits of the
table are kept, and no call fails on an assertion of the table or of a fill. -/
theorem outstanding_fetches_match_entries {cls : CacheClass} {mfs : Token → MemFetch}
    {trace : List Obs} {sys : System cfg} (hcfg : cfg.Accepted) (hmerge : 1 ≤ cfg.mshrMaxMerge)
    (h : System.Run cls System.Answers (System.init cfg mfs) trace sys) :
    (∀ a l, sys.core.entries.lookup a = some l →
      l ≠ [] ∧ l.length ≤ cfg.mshrMaxMerge ∧
        (sys.core.answered.count a = 1 ∧
            (∀ t e, sys.core.extra.lookup t = some e → e.blockAddr ≠ a) ∨
          a ∉ sys.core.answered ∧ ∃ t e, sys.core.extra.lookup t = some e ∧ e.blockAddr = a ∧
            (sys.core.missQueue ++ sys.below).count t = 1 ∧
              ∀ t' e', sys.core.extra.lookup t' = some e' → e'.blockAddr = a → t' = t)) ∧
      (∀ t e, sys.core.extra.lookup t = some e →
        (sys.core.entries.lookup e.blockAddr).isSome = true) ∧
      sys.core.entries.entries.length ≤ cfg.mshrEntries ∧
      ∀ o, sys.Answers o → ∀ e, e.concern = some .table ∨ e.concern = some .fill →
        sys.perform cls o ≠ .error e := by
  have htracked := Tracked.of_run h
  refine ⟨fun a l hl => ⟨?_, htracked.merge_le a l hl, ?_⟩, fun t e he => ?_,
    htracked.entries_le, fun o ho e he herr => ?_⟩
  · rintro rfl
    exact htracked.nonempty a hl
  · by_cases hans : a ∈ sys.core.answered
    · refine Or.inl ⟨List.count_eq_one_of_mem htracked.nodup hans, ?_⟩
      rintro t e he rfl
      exact (htracked.entry t e he).2 hans
    · have hmem : a ∈ sys.core.entries := AList.lookup_isSome.1 (by rw [hl]; rfl)
      obtain ⟨t, e, he, hea⟩ := htracked.fetched a hmem hans
      refine Or.inr ⟨hans, t, e, he, hea, (htracked.fetching t e he).2, fun t' e' he' hea' => ?_⟩
      exact htracked.unique t' e' t e he' he (hea'.trans hea.symm)
  · exact AList.lookup_isSome.2 (htracked.entry t e he).1
  · have hbenign := htracked.perform_only hcfg.checked hmerge ho cls e herr
    exact he.elim hbenign.1 hbenign.2

/-- One fetch is under way and another has been answered. -/
theorem outstanding_fetches_match_two_entries :
    ∃ trace sys, System.Run (.dataCache .l1) System.Promise
      (System.init (CacheConfig.small 'S' 'B' 'm' 'L' 2 true) fun _ => MemFetch.load 0) trace sys ∧
      sys.core.entries.keys = [128, 0] ∧ sys.core.answered = [0] ∧
      sys.core.entries.entries.length ≤ (CacheConfig.small 'S' 'B' 'm' 'L' 2 true).mshrEntries := by
  obtain ⟨trace, sys, hrun, hentries, hanswered⟩ :
      ∃ trace sys, System.Run (.dataCache .l1) System.Promise
        (System.init (CacheConfig.small 'S' 'B' 'm' 'L' 2 true) fun _ => MemFetch.load 0)
          trace sys ∧
        sys.core.entries.keys = [128, 0] ∧ sys.core.answered = [0] :=
    Runs.exists_run_of_exec [.access 0 (MemFetch.load 0) 0 [], .access 1 (MemFetch.load 128) 1 [],
      .cycle false, .fill (.caller 0) 2] (by decide)
  have hmatch := outstanding_fetches_match_entries (CacheConfig.small_accepted (by decide) true)
    (by decide) (hrun.mono fun _ _ h => h.answers)
  exact ⟨trace, sys, hrun, hentries, hanswered, hmatch.2.2.1⟩

end OpenCache
