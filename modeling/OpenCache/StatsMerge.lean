/-
Adding statistics: `operator+` and `operator+=` of `cache_stats`, and the summaries of
`get_sub_stats` and `get_sub_stats_pw` with their own `operator+`.

Both operators go over the three tables of the right operand.  A stream that the result does not
have yet is copied; the counters of one it has are added, as the accessor `operator()` of the right
operand reads them.  The accessor reads `m_stats` also while the window table is merged, and throws
if the stream has no counters there.  The sum of two window summaries leaves the hits out.

* `OpenCache.StatTable.merge` — one of the three loops of either operator;
* `OpenCache.StatTable.merge_isSome`, `OpenCache.StatTable.get_of_merge` — **what the loop does**;
* `OpenCache.StatTable.loop_add` — a summary of a sum is the sum of the summaries;
* `OpenCache.CacheStats.plus`, `OpenCache.CacheStats.addAssign` — the two operators;
* `OpenCache.CacheStats.addAssignSelf` — `a += a`, whose loops read the tables that they change;
* `OpenCache.merging_is_homomorphic_iff` — **when merging is a homomorphism**.
-/

import OpenCache.Stats
import Mathlib.Algebra.BigOperators.Group.Finset.Basic
import Mathlib.Algebra.BigOperators.Group.List.Basic
import Mathlib.Data.BitVec

set_option relaxedAutoImplicit false
set_option autoImplicit false

namespace OpenCache

namespace StatTable

variable {α : Type}

/-! ### The loops over streams -/

/-- Copy the counters of one stream. -/
def copyStream (t ret : StatTable α) (streamID : ℕ) : Option (StatTable α) :=
  (t.lookup streamID).map fun v => ret.insert streamID v

/-- The loop that copies a table. -/
def copy (t : StatTable α) : Option (StatTable α) := t.keys.foldlM t.copyStream ∅

/-- Merge one stream of `cs`, whose counters `read` returns when they have to be added. -/
def mergeStream (read : ℕ → Option (MemAccessType → α → ℕ)) (cs ret : StatTable α)
    (streamID : ℕ) : Option (StatTable α) :=
  match ret.lookup streamID with
  | none => (cs.lookup streamID).map fun v => ret.insert streamID v
  | some v => (read streamID).map fun w =>
      ret.insert streamID fun type status => v type status + w type status

/-- The loop that merges a table into another. -/
def merge (read : ℕ → Option (MemAccessType → α → ℕ)) (ret cs : StatTable α) :
    Option (StatTable α) :=
  cs.keys.foldlM (mergeStream read cs) ret

/-- The loop that merges a table into itself: the counters that are added are read from the table as
the loop has left it. -/
def mergeSelf (read : StatTable α → ℕ → Option (MemAccessType → α → ℕ)) (t : StatTable α) :
    Option (StatTable α) :=
  t.keys.foldlM (fun ret => mergeStream (read ret) ret ret) t

/-- The counters of a stream after the merge. -/
def merged (read : ℕ → Option (MemAccessType → α → ℕ)) (ret cs : StatTable α) (streamID : ℕ) :
    Option (MemAccessType → α → ℕ) :=
  match ret.lookup streamID with
  | none => cs.lookup streamID
  | some v => (read streamID).map fun w type status => v type status + w type status

theorem mergeStream_eq (read : ℕ → Option (MemAccessType → α → ℕ)) (cs ret : StatTable α)
    (streamID : ℕ) :
    mergeStream read cs ret streamID = (merged read ret cs streamID).map (ret.insert streamID) := by
  unfold mergeStream merged
  split
  · rfl
  · rw [Option.map_map]
    rfl

/-- A loop that gives every stream of a list new counters, once. -/
theorem foldlM_insert {f : StatTable α → ℕ → Option (StatTable α)}
    {g : StatTable α → ℕ → Option (MemAccessType → α → ℕ)}
    (hf : ∀ ret s, f ret s = (g ret s).map (ret.insert s))
    (hg : ∀ ret ret' : StatTable α, ∀ s, ret'.lookup s = ret.lookup s → g ret' s = g ret s)
    {streams : List ℕ} (hnodup : streams.Nodup) (ret : StatTable α) :
    ((streams.foldlM f ret).isSome = true ↔ ∀ s ∈ streams, (g ret s).isSome = true) ∧
      ∀ t, streams.foldlM f ret = some t →
        ∀ s, t.lookup s = if s ∈ streams then g ret s else ret.lookup s := by
  induction streams generalizing ret with
  | nil =>
      constructor
      · simp
      · rintro t ⟨⟩ s
        simp
  | cons a streams ih =>
      obtain ⟨hnot, hnodup⟩ := List.nodup_cons.1 hnodup
      rw [List.foldlM_cons, hf]
      cases hga : g ret a with
      | none => simp [hga]
      | some v =>
          -- the streams that follow are other streams
          have hothers : ∀ s ∈ streams, g (ret.insert a v) s = g ret s := fun s hs =>
            hg _ _ s (AList.lookup_insert_ne fun h => hnot (h ▸ hs))
          obtain ⟨hsome, hlookup⟩ := ih hnodup (ret.insert a v)
          constructor
          · rw [List.forall_mem_cons, hga]
            refine hsome.trans ⟨fun h => ⟨rfl, fun s hs => ?_⟩, fun h s hs => ?_⟩
            · rw [← hothers s hs]
              exact h s hs
            · rw [hothers s hs]
              exact h.2 s hs
          · intro t ht s
            rw [hlookup t ht s]
            by_cases hs : s ∈ streams
            · rw [if_pos hs, if_pos (List.mem_cons_of_mem _ hs), hothers s hs]
            · rw [if_neg hs]
              by_cases hsa : s = a
              · subst hsa
                rw [if_pos List.mem_cons_self, hga, AList.lookup_insert]
              · rw [if_neg (by simp [hsa, hs]), AList.lookup_insert_ne hsa]

/-- A copy is the table. -/
theorem copy_spec (t : StatTable α) : ∃ t', t.copy = some t' ∧ ∀ s, t'.lookup s = t.lookup s := by
  obtain ⟨hsome, hlookup⟩ := foldlM_insert (f := t.copyStream) (g := fun _ s => t.lookup s)
    (fun _ _ => rfl) (fun _ _ _ _ => rfl) t.nodupKeys ∅
  obtain ⟨t', ht'⟩ := Option.isSome_iff_exists.1 (hsome.2 fun s hs => AList.lookup_isSome.2 hs)
  refine ⟨t', ht', fun s => (hlookup t' ht' s).trans ?_⟩
  split
  · rfl
  · next hs => rw [AList.lookup_empty, AList.lookup_eq_none.2 hs]

section Merge

variable {read : ℕ → Option (MemAccessType → α → ℕ)} {ret cs t : StatTable α}

/-- **The loop succeeds** when the counters of every shared stream can be read. -/
theorem merge_isSome : (ret.merge read cs).isSome = true ↔
    ∀ s, s ∈ ret → s ∈ cs → (read s).isSome = true := by
  refine (foldlM_insert (mergeStream_eq read cs) (fun ret ret' s h => by simp [merged, h])
    cs.nodupKeys ret).1.trans ⟨fun h s hret hcs => ?_, fun h s hcs => ?_⟩
  · obtain ⟨v, hv⟩ := Option.isSome_iff_exists.1 (AList.lookup_isSome.2 hret)
    have hs := h s hcs
    rw [merged, hv] at hs
    simpa using hs
  · rw [merged]
    cases hv : ret.lookup s with
    | none => exact AList.lookup_isSome.2 hcs
    | some v =>
        have hs := h s (AList.lookup_isSome.1 (by rw [hv]; rfl)) hcs
        simpa using hs

theorem lookup_of_merge (h : ret.merge read cs = some t) (s : ℕ) :
    t.lookup s = if s ∈ cs then merged read ret cs s else ret.lookup s := by
  have hlookup := (foldlM_insert (mergeStream_eq read cs) (fun ret ret' s h => by simp [merged, h])
    cs.nodupKeys ret).2 t h s
  by_cases hs : s ∈ cs
  · rw [if_pos hs]
    exact hlookup.trans (if_pos (AList.mem_keys.1 hs))
  · rw [if_neg hs]
    exact hlookup.trans (if_neg (mt AList.mem_keys.2 hs))

/-- **What the loop adds**: the counters that are read for a stream that both tables have, and
otherwise those of the table that is merged. -/
theorem get_of_merge (h : ret.merge read cs = some t) (s : ℕ) (type : MemAccessType) (o : α) :
    t.get s type o = ret.get s type o +
      if s ∈ ret ∧ s ∈ cs then (read s).elim 0 fun w => w type o else cs.get s type o := by
  have hlookup := lookup_of_merge h s
  rw [get, hlookup, get, get]
  by_cases hcs : s ∈ cs
  · rw [if_pos hcs, merged]
    cases hv : ret.lookup s with
    | none =>
        have hret : s ∉ ret := AList.lookup_eq_none.1 hv
        simp [hret]
    | some v =>
        have hret : s ∈ ret := AList.lookup_isSome.1 (by rw [hv]; rfl)
        have hread : (read s).isSome = true := merge_isSome.1 (by rw [h]; rfl) s hret hcs
        obtain ⟨w, hw⟩ := Option.isSome_iff_exists.1 hread
        simp [hret, hcs, hw]
  · simp [hcs, AList.lookup_eq_none.2 hcs]

/-- A stream has counters after the merge when it had some on either side. -/
theorem mem_of_merge (h : ret.merge read cs = some t) (s : ℕ) : s ∈ t ↔ s ∈ ret ∨ s ∈ cs := by
  rw [← AList.lookup_isSome, lookup_of_merge h, ← AList.lookup_isSome (s := ret)]
  by_cases hcs : s ∈ cs
  · rw [if_pos hcs, merged]
    cases hv : ret.lookup s with
    | none => simpa [hcs] using AList.lookup_isSome.2 hcs
    | some v =>
        have hret : s ∈ ret := AList.lookup_isSome.1 (by rw [hv]; rfl)
        simpa [hcs] using merge_isSome.1 (by rw [h]; rfl) s hret hcs
  · simp [hcs]

end Merge

section MergeSelf

variable {read : StatTable α → ℕ → Option (MemAccessType → α → ℕ)} {t t' : StatTable α}
  (hread : ∀ ret ret' : StatTable α, ∀ s, ret'.lookup s = ret.lookup s → read ret' s = read ret s)

include hread

/-- The loop gives each stream its counters once, so it reads what the table held before it. -/
theorem mergeSelf_spec :
    ((t.mergeSelf read).isSome = true ↔ ∀ s ∈ t, (read t s).isSome = true) ∧
      ∀ t', t.mergeSelf read = some t' → ∀ s, t'.lookup s = merged (read t) t t s := by
  obtain ⟨hsome, hlookup⟩ := foldlM_insert (f := fun ret => mergeStream (read ret) ret ret)
    (g := fun ret => merged (read ret) ret ret) (fun ret s => mergeStream_eq _ _ _ s)
    (fun ret ret' s h => by simp only [merged, h, hread ret ret' s h]) t.nodupKeys t
  have hmerged : ∀ s ∈ t, (merged (read t) t t s).isSome = (read t s).isSome := by
    intro s hs
    obtain ⟨v, hv⟩ := Option.isSome_iff_exists.1 (AList.lookup_isSome.2 hs)
    rw [merged, hv, Option.isSome_map]
  refine ⟨hsome.trans (forall₂_congr fun s hs => ?_), fun t' ht s => ?_⟩
  · rw [hmerged s (AList.mem_keys.2 hs)]
  · rw [hlookup t' ht s]
    split
    · rfl
    · next hs =>
        have hnone : t.lookup s = none := AList.lookup_eq_none.2 fun h => hs (AList.mem_keys.1 h)
        rw [merged, hnone]

/-- **What the loop adds to a table**: the counters that are read for each of its streams. -/
theorem get_of_mergeSelf (h : t.mergeSelf read = some t') (s : ℕ) (type : MemAccessType) (o : α) :
    t'.get s type o = t.get s type o + if s ∈ t then (read t s).elim 0 fun w =>
    w type o else 0 := by
  have hlookup := (mergeSelf_spec hread).2 t' h s
  by_cases hs : s ∈ t
  · obtain ⟨v, hv⟩ := Option.isSome_iff_exists.1 (AList.lookup_isSome.2 hs)
    obtain ⟨w, hw⟩ := Option.isSome_iff_exists.1
      ((mergeSelf_spec hread).1.1 (by rw [h]; rfl) s hs)
    rw [get, hlookup, merged, get, hv, if_pos hs, hw]
    rfl
  · have hnone := AList.lookup_eq_none.2 hs
    rw [get, hlookup, merged, get, hnone, if_neg hs]
    rfl

theorem mem_of_mergeSelf (h : t.mergeSelf read = some t') (s : ℕ) : s ∈ t' ↔ s ∈ t := by
  rw [← AList.lookup_isSome, (mergeSelf_spec hread).2 t' h s, merged]
  by_cases hs : s ∈ t
  · obtain ⟨v, hv⟩ := Option.isSome_iff_exists.1 (AList.lookup_isSome.2 hs)
    rw [hv, Option.isSome_map]
    exact iff_of_true ((mergeSelf_spec hread).1.1 (by rw [h]; rfl) s hs) hs
  · rw [AList.lookup_eq_none.2 hs]
    exact iff_of_false (by simp) hs

end MergeSelf

/-- Two tables with the same streams and counters are the same map. -/
theorem lookup_eq_of_get {t t' : StatTable α} (hmem : ∀ s, s ∈ t' ↔ s ∈ t)
    (hget : ∀ s type o, t'.get s type o = t.get s type o) (s : ℕ) : t'.lookup s = t.lookup s := by
  by_cases hs : s ∈ t
  · obtain ⟨v, hv⟩ := Option.isSome_iff_exists.1 (AList.lookup_isSome.2 hs)
    obtain ⟨v', hv'⟩ := Option.isSome_iff_exists.1 (AList.lookup_isSome.2 ((hmem s).2 hs))
    rw [hv, hv', Option.some_inj]
    funext type o
    simpa [get, hv, hv'] using hget s type o
  · rw [AList.lookup_eq_none.2 hs, AList.lookup_eq_none.2 fun h => hs ((hmem s).1 h)]

/-! ### The loops over counters -/

/-- All request types, in the order of their numbers. -/
def types : List MemAccessType :=
  [.globalAccR, .localAccR, .constAccR, .textureAccR, .globalAccW, .localAccW, .l1WrbkAcc,
    .l2WrbkAcc, .instAccR, .l1WrAllocR, .l2WrAllocR]

/-- All outcomes, in the order of their numbers. -/
def statuses : List CacheRequestStatus :=
  [.hit, .hitReserved, .miss, .reservationFail, .sectorMiss, .mshrHit]

/-- The loops of a summary over the streams, the types and the outcomes. -/
def loop {β : Type} (body : β → MemAccessType → CacheRequestStatus → ℕ → β)
    (t : StatTable CacheRequestStatus) (css : β) : β :=
  t.entries.foldl (fun css e => types.foldl (fun css type => statuses.foldl (fun css status =>
    body css type status (e.2 type status)) css) css) css

section Sums

variable {β : Type} [AddCommMonoid β]

/-- A loop that adds something in every round. -/
theorem foldl_of_add {γ : Type} {f : β → γ → β} {g : γ → β} (hf : ∀ s x, f s x = s + g x)
    (l : List γ) (s : β) : l.foldl f s = s + (l.map g).sum := by
  induction l generalizing s with
  | nil => simp
  | cons x l ih => rw [List.foldl_cons, ih, hf, List.map_cons, List.sum_cons, add_assoc]

/-- What one stream contributes to a summary. -/
def contribution (one : MemAccessType → CacheRequestStatus → ℕ →+ β)
    (v : MemAccessType → CacheRequestStatus → ℕ) : β :=
  (types.map fun type => (statuses.map fun status => one type status (v type status)).sum).sum

theorem contribution_zero (one : MemAccessType → CacheRequestStatus → ℕ →+ β) :
    contribution one (fun _ _ => 0) = 0 := by
  simp [contribution]

theorem contribution_add (one : MemAccessType → CacheRequestStatus → ℕ →+ β)
    (v w : MemAccessType → CacheRequestStatus → ℕ) :
    contribution one (fun type status => v type status + w type status) =
      contribution one v + contribution one w := by
  simp only [contribution, map_add, List.sum_map_add]

theorem loop_eq {body : β → MemAccessType → CacheRequestStatus → ℕ → β}
    {one : MemAccessType → CacheRequestStatus → ℕ →+ β}
    (hbody : ∀ css type status n, body css type status n = css + one type status n)
    (t : StatTable CacheRequestStatus) (css : β) :
    t.loop body css = css + (t.entries.map fun e => contribution one e.2).sum := by
  refine foldl_of_add (fun css e => ?_) _ _
  refine foldl_of_add (fun css type => ?_) _ _
  exact foldl_of_add (fun css status => hbody css type status (e.2 type status)) _ _

/-- A sum over the streams of a table may go over more streams than it has. -/
theorem sum_entries {t : StatTable CacheRequestStatus} {streams : Finset ℕ}
    (h : ∀ s ∈ t, s ∈ streams) (one : MemAccessType → CacheRequestStatus → ℕ →+ β) :
    (t.entries.map fun e => contribution one e.2).sum =
      ∑ s ∈ streams, contribution one (t.get s) := by
  have hkeys : (t.entries.map fun e => contribution one e.2).sum =
      (t.keys.map fun s => contribution one (t.get s)).sum := by
    rw [AList.keys, List.keys, List.map_map]
    congr 1
    refine List.map_congr_left fun e he => ?_
    have hlookup : t.lookup e.1 = some e.2 := AList.mem_lookup_iff.2 he
    refine congrArg (contribution one) ?_
    funext type status
    rw [get, hlookup]
    rfl
  have hnodup : t.keys.Nodup := t.nodupKeys
  rw [hkeys, ← List.sum_toFinset _ hnodup]
  refine Finset.sum_subset (fun s hs => h s (AList.mem_keys.2 (List.mem_toFinset.1 hs))) ?_
  intro s _ hs
  have hnot : t.lookup s = none :=
    AList.lookup_eq_none.2 fun hmem => hs (List.mem_toFinset.2 (AList.mem_keys.1 hmem))
  have hzero : t.get s = fun _ _ => 0 := by
    funext type status
    rw [get, hnot]
    rfl
  rw [hzero, contribution_zero]

/-- **A summary of a sum is the sum of the summaries.** -/
theorem loop_add {body : β → MemAccessType → CacheRequestStatus → ℕ → β}
    {one : MemAccessType → CacheRequestStatus → ℕ →+ β}
    (hbody : ∀ css type status n, body css type status n = css + one type status n)
    {t a b : StatTable CacheRequestStatus}
    (h : ∀ s type status, t.get s type status = a.get s type status + b.get s type status) :
    t.loop body 0 = a.loop body 0 + b.loop body 0 := by
  have hmem : ∀ {u : StatTable CacheRequestStatus}, u = t ∨ u = a ∨ u = b →
      ∀ s ∈ u, s ∈ t.keys.toFinset ∪ (a.keys.toFinset ∪ b.keys.toFinset) := by
    intro u hu s hs
    have hkey : s ∈ u.keys.toFinset := List.mem_toFinset.2 (AList.mem_keys.1 hs)
    rcases hu with rfl | rfl | rfl <;> simp [hkey, Finset.mem_union]
  simp only [loop_eq hbody, zero_add, sum_entries (hmem (.inl rfl)),
    sum_entries (hmem (.inr (.inl rfl))), sum_entries (hmem (.inr (.inr rfl)))]
  rw [← Finset.sum_add_distrib]
  refine Finset.sum_congr rfl fun s _ => ?_
  rw [← contribution_add]
  refine congrArg (contribution one) ?_
  funext type status
  exact h s type status

end Sums

end StatTable

/-! ### The summaries -/

/-- `struct cache_sub_stats`. -/
@[ext] structure CacheSubStats where
  accesses : ℕ
  misses : ℕ
  pendingHits : ℕ
  resFails : ℕ
  portAvailableCycles : ℕ
  dataPortBusyCycles : ℕ
  fillPortBusyCycles : ℕ

namespace CacheSubStats

/-- `clear`. -/
def clear : CacheSubStats := ⟨0, 0, 0, 0, 0, 0, 0⟩

/-- `operator+`, which adds every field. -/
def plus (css cs : CacheSubStats) : CacheSubStats where
  accesses := css.accesses + cs.accesses
  misses := css.misses + cs.misses
  pendingHits := css.pendingHits + cs.pendingHits
  resFails := css.resFails + cs.resFails
  portAvailableCycles := css.portAvailableCycles + cs.portAvailableCycles
  dataPortBusyCycles := css.dataPortBusyCycles + cs.dataPortBusyCycles
  fillPortBusyCycles := css.fillPortBusyCycles + cs.fillPortBusyCycles

instance : Add CacheSubStats := ⟨plus⟩

instance : Zero CacheSubStats := ⟨clear⟩

instance : AddCommMonoid CacheSubStats where
  add_assoc a b c := by ext <;> exact Nat.add_assoc _ _ _
  zero_add a := by ext <;> exact Nat.zero_add _
  add_zero a := rfl
  add_comm a b := by ext <;> exact Nat.add_comm _ _
  nsmul := nsmulRec

/-- The body of the loops of `get_sub_stats`. -/
def count (css : CacheSubStats) (_ : MemAccessType) (status : CacheRequestStatus) (n : ℕ) :
    CacheSubStats :=
  { css with
    accesses := css.accesses +
      if status = .hit ∨ status = .miss ∨ status = .sectorMiss ∨ status = .hitReserved then n else 0
    misses := css.misses + if status = .miss ∨ status = .sectorMiss then n else 0
    pendingHits := css.pendingHits + if status = .hitReserved then n else 0
    resFails := css.resFails + if status = .reservationFail then n else 0 }

end CacheSubStats

/-- `struct cache_sub_stats_pw`, with its fields of type `unsigned`. -/
@[ext] structure CacheSubStatsPw where
  accesses : BitVec 32
  writeMisses : BitVec 32
  writeHits : BitVec 32
  writePendingHits : BitVec 32
  writeResFails : BitVec 32
  readMisses : BitVec 32
  readHits : BitVec 32
  readPendingHits : BitVec 32
  readResFails : BitVec 32

namespace CacheSubStatsPw

/-- `clear`. -/
def clear : CacheSubStatsPw := ⟨0, 0, 0, 0, 0, 0, 0, 0, 0⟩

/-- `operator+`.  The hits keep what the constructor has given them. -/
def plus (css cs : CacheSubStatsPw) : CacheSubStatsPw :=
  { clear with
    accesses := css.accesses + cs.accesses
    writeMisses := css.writeMisses + cs.writeMisses
    readMisses := css.readMisses + cs.readMisses
    writePendingHits := css.writePendingHits + cs.writePendingHits
    readPendingHits := css.readPendingHits + cs.readPendingHits
    writeResFails := css.writeResFails + cs.writeResFails
    readResFails := css.readResFails + cs.readResFails }

/-- The sum in every field, in which the loops of `get_sub_stats_pw` accumulate. -/
instance : Add CacheSubStatsPw where
  add css cs := ⟨css.accesses + cs.accesses, css.writeMisses + cs.writeMisses,
    css.writeHits + cs.writeHits, css.writePendingHits + cs.writePendingHits,
    css.writeResFails + cs.writeResFails, css.readMisses + cs.readMisses,
    css.readHits + cs.readHits, css.readPendingHits + cs.readPendingHits,
    css.readResFails + cs.readResFails⟩

instance : Zero CacheSubStatsPw := ⟨clear⟩

instance : AddCommMonoid CacheSubStatsPw where
  add_assoc a b c := CacheSubStatsPw.ext (add_assoc _ _ _) (add_assoc _ _ _) (add_assoc _ _ _)
    (add_assoc _ _ _) (add_assoc _ _ _) (add_assoc _ _ _) (add_assoc _ _ _) (add_assoc _ _ _)
    (add_assoc _ _ _)
  zero_add a := CacheSubStatsPw.ext (zero_add _) (zero_add _) (zero_add _) (zero_add _) (zero_add _)
    (zero_add _) (zero_add _) (zero_add _) (zero_add _)
  add_zero a := CacheSubStatsPw.ext (add_zero _) (add_zero _) (add_zero _) (add_zero _) (add_zero _)
    (add_zero _) (add_zero _) (add_zero _) (add_zero _)
  add_comm a b := CacheSubStatsPw.ext (add_comm _ _) (add_comm _ _) (add_comm _ _) (add_comm _ _)
    (add_comm _ _) (add_comm _ _) (add_comm _ _) (add_comm _ _) (add_comm _ _)
  nsmul := nsmulRec

/-- `type == GLOBAL_ACC_R || type == CONST_ACC_R || type == INST_ACC_R`. -/
def isRead (type : MemAccessType) : Bool :=
  type = .globalAccR ∨ type = .constAccR ∨ type = .instAccR

/-- `type == GLOBAL_ACC_W`. -/
def isWrite (type : MemAccessType) : Bool := type = .globalAccW

/-- The body of the loops of `get_sub_stats_pw`. -/
def count (css : CacheSubStatsPw) (type : MemAccessType) (status : CacheRequestStatus) (n : ℕ) :
    CacheSubStatsPw :=
  -- `unsigned += unsigned long long`, if the branch is taken
  let add (field : BitVec 32) (b : Bool) : BitVec 32 := field + if b then BitVec.ofNat 32 n else 0
  { accesses := add css.accesses
      (status = .hit ∨ status = .miss ∨ status = .sectorMiss ∨ status = .hitReserved)
    readHits := add css.readHits (status = .hit ∧ isRead type)
    writeHits := add css.writeHits (status = .hit ∧ isWrite type)
    readMisses := add css.readMisses ((status = .miss ∨ status = .sectorMiss) ∧ isRead type)
    writeMisses := add css.writeMisses ((status = .miss ∨ status = .sectorMiss) ∧ isWrite type)
    readPendingHits := add css.readPendingHits (status = .hitReserved ∧ isRead type)
    writePendingHits := add css.writePendingHits (status = .hitReserved ∧ isWrite type)
    readResFails := add css.readResFails (status = .reservationFail ∧ isRead type)
    writeResFails := add css.writeResFails (status = .reservationFail ∧ isWrite type) }

/-- A counter of 32 bits is additive in what is counted. -/
private theorem taken_add (b : Bool) (n m : ℕ) :
    (0 : BitVec 32) + (if b then BitVec.ofNat 32 (n + m) else 0) =
      (0 + if b then BitVec.ofNat 32 n else 0) + (0 + if b then BitVec.ofNat 32 m else 0) := by
  cases b with
  | false => simp
  | true => simp [BitVec.ofNat_add]

private theorem taken_zero (b : Bool) :
    (0 : BitVec 32) + (if b then BitVec.ofNat 32 0 else 0) = 0 := by
  cases b <;> rfl

/-- What one counter contributes to a summary. -/
def one (type : MemAccessType) (status : CacheRequestStatus) : ℕ →+ CacheSubStatsPw where
  toFun n := clear.count type status n
  map_zero' := CacheSubStatsPw.ext (taken_zero _) (taken_zero _) (taken_zero _) (taken_zero _)
    (taken_zero _) (taken_zero _) (taken_zero _) (taken_zero _) (taken_zero _)
  map_add' n m := CacheSubStatsPw.ext (taken_add _ n m) (taken_add _ n m) (taken_add _ n m)
    (taken_add _ n m) (taken_add _ n m) (taken_add _ n m) (taken_add _ n m) (taken_add _ n m)
    (taken_add _ n m)

theorem count_eq (css : CacheSubStatsPw) (type : MemAccessType) (status : CacheRequestStatus)
    (n : ℕ) : css.count type status n = css + one type status n := by
  have htaken : ∀ (field : BitVec 32) (b : Bool), field + (if b then BitVec.ofNat 32 n else 0) =
      field + (0 + if b then BitVec.ofNat 32 n else 0) := by
    intro field b
    rw [zero_add]
  exact CacheSubStatsPw.ext (htaken _ _) (htaken _ _) (htaken _ _) (htaken _ _) (htaken _ _)
    (htaken _ _) (htaken _ _) (htaken _ _) (htaken _ _)

end CacheSubStatsPw

namespace CacheSubStats

/-- What one counter contributes to a summary. -/
def one (type : MemAccessType) (status : CacheRequestStatus) : ℕ →+ CacheSubStats where
  toFun n := clear.count type status n
  map_zero' := by
    have htaken : ∀ p : Prop, [Decidable p] → 0 + (if p then 0 else 0) = 0 := by
      intro p _
      rw [ite_self]
    exact CacheSubStats.ext (htaken _) (htaken _) (htaken _) (htaken _) rfl rfl rfl
  map_add' n m := by
    have htaken : ∀ p : Prop, [Decidable p] → 0 + (if p then n + m else 0) =
        (0 + if p then n else 0) + (0 + if p then m else 0) := by
      intro p _
      split <;> omega
    exact CacheSubStats.ext (htaken _) (htaken _) (htaken _) (htaken _) rfl rfl rfl

theorem count_eq (css : CacheSubStats) (type : MemAccessType)
    (status : CacheRequestStatus) (n : ℕ) :
    css.count type status n = css + one type status n := by
  have htaken : ∀ k j : ℕ, k + j = k + (0 + j) := by
    intro k j
    rw [Nat.zero_add]
  exact CacheSubStats.ext (htaken _ _) (htaken _ _) (htaken _ _) (htaken _ _) rfl rfl rfl

end CacheSubStats

/-! ### The hits of a window -/

namespace StatTable

/-- The hits that `get_sub_stats_pw` counts as hits of reads. -/
def readHits (t : StatTable CacheRequestStatus) : ℕ :=
  (t.entries.map fun e => e.2 .globalAccR .hit + e.2 .constAccR .hit + e.2 .instAccR .hit).sum

/-- The hits that `get_sub_stats_pw` counts as hits of writes. -/
def writeHits (t : StatTable CacheRequestStatus) : ℕ :=
  (t.entries.map fun e => e.2 .globalAccW .hit).sum

/-- A field of a summary is the number of what it counts, in 32 bits. -/
theorem field_of_loop (field : CacheSubStatsPw →+ BitVec 32)
    {g : (MemAccessType → CacheRequestStatus → ℕ) → ℕ}
    (h : ∀ v, field (contribution CacheSubStatsPw.one v) = BitVec.ofNat 32 (g v))
    (t : StatTable CacheRequestStatus) :
    field (t.loop CacheSubStatsPw.count 0) =
      BitVec.ofNat 32 ((t.entries.map fun e => g e.2).sum) := by
  have hsum : ∀ l : List (Sigma fun _ : ℕ => MemAccessType → CacheRequestStatus → ℕ),
      field ((l.map fun e => contribution CacheSubStatsPw.one e.2).sum) =
        BitVec.ofNat 32 ((l.map fun e => g e.2).sum) := by
    intro l
    induction l with
    | nil => exact map_zero field
    | cons e l ih =>
        rw [List.map_cons, List.sum_cons, map_add, h, ih, List.map_cons, List.sum_cons,
          BitVec.ofNat_add]
  rw [loop_eq CacheSubStatsPw.count_eq, zero_add]
  exact hsum t.entries

theorem field_of_contribution (field : CacheSubStatsPw →+ BitVec 32)
    {taken : MemAccessType → CacheRequestStatus → Bool}
    (h : ∀ type status n, field (CacheSubStatsPw.one type status n) =
      if taken type status then BitVec.ofNat 32 n else 0)
    (v : MemAccessType → CacheRequestStatus → ℕ) :
    field (contribution CacheSubStatsPw.one v) = (types.map fun type => (statuses.map fun status =>
      if taken type status then BitVec.ofNat 32 (v type status) else 0).sum).sum := by
  simp only [contribution, map_list_sum, List.map_map, Function.comp_def, h]

theorem readHits_of_loop (t : StatTable CacheRequestStatus) :
    (t.loop CacheSubStatsPw.count 0).readHits = BitVec.ofNat 32 t.readHits := by
  refine field_of_loop (g := fun v => v .globalAccR .hit + v .constAccR .hit + v .instAccR .hit)
    ⟨⟨CacheSubStatsPw.readHits, rfl⟩, fun _ _ => rfl⟩ (fun v => ?_) t
  rw [field_of_contribution _ fun type status n => zero_add _]
  simp [types, statuses, CacheSubStatsPw.isRead, BitVec.ofNat_add, add_assoc]

theorem writeHits_of_loop (t : StatTable CacheRequestStatus) :
    (t.loop CacheSubStatsPw.count 0).writeHits = BitVec.ofNat 32 t.writeHits := by
  refine field_of_loop (g := fun v => v .globalAccW .hit)
    ⟨⟨CacheSubStatsPw.writeHits, rfl⟩, fun _ _ => rfl⟩ (fun v => ?_) t
  rw [field_of_contribution _ fun type status n => zero_add _]
  simp [types, statuses, CacheSubStatsPw.isWrite]

end StatTable

/-! ### The operators -/

namespace CacheStats

/-- `get_sub_stats`. -/
def getSubStats (s : CacheStats) : CacheSubStats :=
  { s.stats.loop CacheSubStats.count CacheSubStats.clear with
    portAvailableCycles := s.cachePortAvailableCycles
    dataPortBusyCycles := s.cacheDataPortBusyCycles
    fillPortBusyCycles := s.cacheFillPortBusyCycles }

/-- `get_sub_stats_pw`. -/
def getSubStatsPw (s : CacheStats) : CacheSubStatsPw :=
  s.statsPw.loop CacheSubStatsPw.count CacheSubStatsPw.clear

/-- `operator()` for the outcomes of a stream, which throws if it has none. -/
def outcomesAt (s : CacheStats) (streamID : ℕ) : Option (MemAccessType → CacheRequestStatus → ℕ) :=
  s.stats.lookup streamID

/-- `operator()` for the reasons of a stream. -/
def failsAt (s : CacheStats) (streamID : ℕ) :
    Option (MemAccessType → CacheReservationFailReason → ℕ) :=
  s.failStats.lookup streamID

/-- `operator+=`, for a right operand that is another object. -/
def addAssign (s cs : CacheStats) : Option CacheStats := do
  let stats ← s.stats.merge cs.outcomesAt cs.stats
  let statsPw ← s.statsPw.merge cs.outcomesAt cs.statsPw
  let failStats ← s.failStats.merge cs.failsAt cs.failStats
  return {
    stats, statsPw, failStats
    cachePortAvailableCycles := s.cachePortAvailableCycles + cs.cachePortAvailableCycles
    cacheDataPortBusyCycles := s.cacheDataPortBusyCycles + cs.cacheDataPortBusyCycles
    cacheFillPortBusyCycles := s.cacheFillPortBusyCycles + cs.cacheFillPortBusyCycles }

/-- `operator+=`, for the object itself as right operand: the outcomes that are added to the window
are those that the first loop has left. -/
def addAssignSelf (s : CacheStats) : Option CacheStats := do
  let stats ← s.stats.mergeSelf fun ret => ret.lookup
  let statsPw ← s.statsPw.mergeSelf fun _ => stats.lookup
  let failStats ← s.failStats.mergeSelf fun ret => ret.lookup
  return {
    stats, statsPw, failStats
    cachePortAvailableCycles := s.cachePortAvailableCycles + s.cachePortAvailableCycles
    cacheDataPortBusyCycles := s.cacheDataPortBusyCycles + s.cacheDataPortBusyCycles
    cacheFillPortBusyCycles := s.cacheFillPortBusyCycles + s.cacheFillPortBusyCycles }

/-- `operator+`. -/
def plus (s cs : CacheStats) : Option CacheStats := do
  let stats ← s.stats.copy
  let statsPw ← s.statsPw.copy
  let failStats ← s.failStats.copy
  let stats ← stats.merge cs.outcomesAt cs.stats
  let statsPw ← statsPw.merge cs.outcomesAt cs.statsPw
  let failStats ← failStats.merge cs.failsAt cs.failStats
  return {
    stats, statsPw, failStats
    cachePortAvailableCycles := s.cachePortAvailableCycles + cs.cachePortAvailableCycles
    cacheDataPortBusyCycles := s.cacheDataPortBusyCycles + cs.cacheDataPortBusyCycles
    cacheFillPortBusyCycles := s.cacheFillPortBusyCycles + cs.cacheFillPortBusyCycles }

/-- The same statistics: the tables are equal as maps. -/
structure Same (s s' : CacheStats) : Prop where
  stats : ∀ streamID, s'.stats.lookup streamID = s.stats.lookup streamID
  statsPw : ∀ streamID, s'.statsPw.lookup streamID = s.statsPw.lookup streamID
  failStats : ∀ streamID, s'.failStats.lookup streamID = s.failStats.lookup streamID
  cachePortAvailableCycles : s'.cachePortAvailableCycles = s.cachePortAvailableCycles
  cacheDataPortBusyCycles : s'.cacheDataPortBusyCycles = s.cacheDataPortBusyCycles
  cacheFillPortBusyCycles : s'.cacheFillPortBusyCycles = s.cacheFillPortBusyCycles

/-- What either operator returns: the window counters that are added for a shared stream are those
of `m_stats`. -/
structure Added (a b t : CacheStats) : Prop where
  stats : ∀ streamID type status, t.stats.get streamID type status =
    a.stats.get streamID type status + b.stats.get streamID type status
  statsPw : ∀ streamID type status, t.statsPw.get streamID type status =
    a.statsPw.get streamID type status +
      if streamID ∈ a.statsPw ∧ streamID ∈ b.statsPw then b.stats.get streamID type status
      else b.statsPw.get streamID type status
  failStats : ∀ streamID type reason, t.failStats.get streamID type reason =
    a.failStats.get streamID type reason + b.failStats.get streamID type reason
  mem_stats : ∀ streamID, streamID ∈ t.stats ↔ streamID ∈ a.stats ∨ streamID ∈ b.stats
  mem_statsPw : ∀ streamID, streamID ∈ t.statsPw ↔ streamID ∈ a.statsPw ∨ streamID ∈ b.statsPw
  mem_failStats : ∀ streamID,
    streamID ∈ t.failStats ↔ streamID ∈ a.failStats ∨ streamID ∈ b.failStats
  cachePortAvailableCycles :
    t.cachePortAvailableCycles = a.cachePortAvailableCycles + b.cachePortAvailableCycles
  cacheDataPortBusyCycles :
    t.cacheDataPortBusyCycles = a.cacheDataPortBusyCycles + b.cacheDataPortBusyCycles
  cacheFillPortBusyCycles :
    t.cacheFillPortBusyCycles = a.cacheFillPortBusyCycles + b.cacheFillPortBusyCycles

/-- A merge that reads the counters of the table itself adds them. -/
private theorem get_of_merge_self {α : Type} {ret cs t : StatTable α}
    (h : ret.merge cs.lookup cs = some t) (streamID : ℕ) (type : MemAccessType) (o : α) :
    t.get streamID type o = ret.get streamID type o + cs.get streamID type o := by
  rw [StatTable.get_of_merge h]
  split <;> rfl

/-- `operator+=` throws when a stream with windows on both sides has no outcomes to read. -/
theorem addAssign_isSome {a b : CacheStats} : (a.addAssign b).isSome = true ↔
    ∀ streamID, streamID ∈ a.statsPw → streamID ∈ b.statsPw → streamID ∈ b.stats := by
  have hself : ∀ {α : Type} (ret cs : StatTable α), (ret.merge cs.lookup cs).isSome = true :=
    fun ret cs => StatTable.merge_isSome.2 fun s _ hs => AList.lookup_isSome.2 hs
  obtain ⟨stats, hstats⟩ := Option.isSome_iff_exists.1 (hself a.stats b.stats)
  obtain ⟨failStats, hfail⟩ := Option.isSome_iff_exists.1 (hself a.failStats b.failStats)
  have hpw : (a.addAssign b).isSome = true ↔
      (a.statsPw.merge b.outcomesAt b.statsPw).isSome = true := by
    change (a.stats.merge b.outcomesAt b.stats = some stats) at hstats
    change (a.failStats.merge b.failsAt b.failStats = some failStats) at hfail
    rw [addAssign, hstats]
    cases a.statsPw.merge b.outcomesAt b.statsPw with
    | none => rfl
    | some statsPw =>
        rw [hfail]
        exact Iff.rfl
  rw [hpw, StatTable.merge_isSome]
  exact forall_congr' fun s => imp_congr_right fun _ => imp_congr_right fun _ => AList.lookup_isSome

/-- **What `operator+=` adds.** -/
theorem addAssign_added {a b t : CacheStats} (h : a.addAssign b = some t) : a.Added b t := by
  obtain ⟨stats, hstats, h⟩ := Option.bind_eq_some_iff.1 h
  obtain ⟨statsPw, hpw, h⟩ := Option.bind_eq_some_iff.1 h
  obtain ⟨failStats, hfail, h⟩ := Option.bind_eq_some_iff.1 h
  cases h
  exact ⟨get_of_merge_self hstats, StatTable.get_of_merge hpw, get_of_merge_self hfail,
    StatTable.mem_of_merge hstats, StatTable.mem_of_merge hpw, StatTable.mem_of_merge hfail, rfl,
    rfl, rfl⟩

/-- `operator+` is `operator+=` on a copy. -/
theorem plus_eq (a b : CacheStats) :
    ∃ a', a.plus b = a'.addAssign b ∧ a.Same a' := by
  obtain ⟨stats, hstats, hstats'⟩ := a.stats.copy_spec
  obtain ⟨statsPw, hpw, hpw'⟩ := a.statsPw.copy_spec
  obtain ⟨failStats, hfail, hfail'⟩ := a.failStats.copy_spec
  refine ⟨{ a with stats, statsPw, failStats }, ?_, hstats', hpw', hfail', rfl, rfl, rfl⟩
  rw [plus, hstats, hpw, hfail]
  rfl

/-- Equal lookups are equal counters. -/
private theorem get_of_lookup {α : Type} {t t' : StatTable α}
    (h : ∀ streamID, t'.lookup streamID = t.lookup streamID) (streamID : ℕ) (type : MemAccessType)
    (o : α) : t'.get streamID type o = t.get streamID type o := by
  rw [StatTable.get, h, StatTable.get]

private theorem mem_of_lookup {α : Type} {t t' : StatTable α}
    (h : ∀ streamID, t'.lookup streamID = t.lookup streamID) (streamID : ℕ) :
    streamID ∈ t' ↔ streamID ∈ t := by
  rw [← AList.lookup_isSome, h, AList.lookup_isSome]

/-- `operator+` throws when `operator+=` does. -/
theorem plus_isSome {a b : CacheStats} : (a.plus b).isSome = true ↔
    ∀ streamID, streamID ∈ a.statsPw → streamID ∈ b.statsPw → streamID ∈ b.stats := by
  obtain ⟨a', hplus, hsame⟩ := plus_eq a b
  rw [hplus, addAssign_isSome]
  simp only [mem_of_lookup hsame.statsPw]

/-- And it adds the same. -/
theorem plus_added {a b t : CacheStats} (h : a.plus b = some t) : a.Added b t := by
  obtain ⟨a', hplus, hsame⟩ := plus_eq a b
  rw [hplus] at h
  have hadded := addAssign_added h
  constructor
  · simp only [hadded.stats, get_of_lookup hsame.stats, implies_true]
  · simp only [hadded.statsPw, get_of_lookup hsame.statsPw, mem_of_lookup hsame.statsPw,
      implies_true]
  · simp only [hadded.failStats, get_of_lookup hsame.failStats, implies_true]
  · simp only [hadded.mem_stats, mem_of_lookup hsame.stats, implies_true]
  · simp only [hadded.mem_statsPw, mem_of_lookup hsame.statsPw, implies_true]
  · simp only [hadded.mem_failStats, mem_of_lookup hsame.failStats, implies_true]
  · rw [hadded.cachePortAvailableCycles, hsame.cachePortAvailableCycles]
  · rw [hadded.cacheDataPortBusyCycles, hsame.cacheDataPortBusyCycles]
  · rw [hadded.cacheFillPortBusyCycles, hsame.cacheFillPortBusyCycles]

/-- The result of either operator is determined by what it adds. -/
theorem Added.same {a b t t' : CacheStats} (h : a.Added b t) (h' : a.Added b t') : t.Same t' where
  stats := StatTable.lookup_eq_of_get (fun s => by rw [h'.mem_stats, h.mem_stats])
    fun s type o => by rw [h'.stats, h.stats]
  statsPw := StatTable.lookup_eq_of_get (fun s => by rw [h'.mem_statsPw, h.mem_statsPw])
    fun s type o => by rw [h'.statsPw, h.statsPw]
  failStats := StatTable.lookup_eq_of_get (fun s => by rw [h'.mem_failStats, h.mem_failStats])
    fun s type o => by rw [h'.failStats, h.failStats]
  cachePortAvailableCycles := by rw [h'.cachePortAvailableCycles, h.cachePortAvailableCycles]
  cacheDataPortBusyCycles := by rw [h'.cacheDataPortBusyCycles, h.cacheDataPortBusyCycles]
  cacheFillPortBusyCycles := by rw [h'.cacheFillPortBusyCycles, h.cacheFillPortBusyCycles]

/-- What `operator+=` returns for the object itself: the outcomes of each stream with a window are
added to the window twice. -/
structure Doubled (a t : CacheStats) : Prop where
  stats : ∀ streamID type status, t.stats.get streamID type status =
    a.stats.get streamID type status + a.stats.get streamID type status
  statsPw : ∀ streamID type status, t.statsPw.get streamID type status =
    a.statsPw.get streamID type status +
      if streamID ∈ a.statsPw then
        a.stats.get streamID type status + a.stats.get streamID type status
      else 0
  failStats : ∀ streamID type reason, t.failStats.get streamID type reason =
    a.failStats.get streamID type reason + a.failStats.get streamID type reason
  mem_stats : ∀ streamID, streamID ∈ t.stats ↔ streamID ∈ a.stats
  mem_statsPw : ∀ streamID, streamID ∈ t.statsPw ↔ streamID ∈ a.statsPw
  mem_failStats : ∀ streamID, streamID ∈ t.failStats ↔ streamID ∈ a.failStats
  cachePortAvailableCycles :
    t.cachePortAvailableCycles = a.cachePortAvailableCycles + a.cachePortAvailableCycles
  cacheDataPortBusyCycles :
    t.cacheDataPortBusyCycles = a.cacheDataPortBusyCycles + a.cacheDataPortBusyCycles
  cacheFillPortBusyCycles :
    t.cacheFillPortBusyCycles = a.cacheFillPortBusyCycles + a.cacheFillPortBusyCycles

/-- A table that is merged into itself has its counters doubled. -/
private theorem get_of_mergeSelf_lookup {α : Type} {t t' : StatTable α}
    (h : t.mergeSelf (fun ret => ret.lookup) = some t') (streamID : ℕ) (type : MemAccessType)
    (o : α) : t'.get streamID type o = t.get streamID type o + t.get streamID type o := by
  rw [StatTable.get_of_mergeSelf (fun _ _ _ hl => hl) h]
  split
  · rfl
  · next hs =>
      have hzero : t.get streamID type o = 0 := by
        rw [StatTable.get, AList.lookup_eq_none.2 hs]
        rfl
      rw [hzero]

/-- **What `operator+=` does with the object itself.** -/
theorem addAssignSelf_doubled {a t : CacheStats} (h : a.addAssignSelf = some t) : a.Doubled t := by
  obtain ⟨stats, hstats, h⟩ := Option.bind_eq_some_iff.1 h
  obtain ⟨statsPw, hpw, h⟩ := Option.bind_eq_some_iff.1 h
  obtain ⟨failStats, hfail, h⟩ := Option.bind_eq_some_iff.1 h
  cases h
  refine ⟨get_of_mergeSelf_lookup hstats, fun streamID type status => ?_,
    get_of_mergeSelf_lookup hfail, StatTable.mem_of_mergeSelf (fun _ _ _ hl => hl) hstats,
    StatTable.mem_of_mergeSelf (fun _ _ _ _ => rfl) hpw,
    StatTable.mem_of_mergeSelf (fun _ _ _ hl => hl) hfail, rfl, rfl, rfl⟩
  have hget := StatTable.get_of_mergeSelf (fun _ _ _ _ => rfl) hpw streamID type status
  rw [hget, ← get_of_mergeSelf_lookup hstats]
  rfl

/-- It throws when a stream with a window has no outcomes to read. -/
theorem addAssignSelf_isSome {a : CacheStats} : a.addAssignSelf.isSome = true ↔
    ∀ streamID ∈ a.statsPw, streamID ∈ a.stats := by
  have hself : ∀ {α : Type} (t : StatTable α),
      (t.mergeSelf fun ret => ret.lookup).isSome = true := fun t =>
    (StatTable.mergeSelf_spec fun _ _ _ hl => hl).1.2 fun s hs => AList.lookup_isSome.2 hs
  obtain ⟨stats, hstats⟩ := Option.isSome_iff_exists.1 (hself a.stats)
  obtain ⟨failStats, hfail⟩ := Option.isSome_iff_exists.1 (hself a.failStats)
  have hpw : a.addAssignSelf.isSome = true ↔
      (a.statsPw.mergeSelf fun _ => stats.lookup).isSome = true := by
    rw [addAssignSelf, hstats]
    dsimp only [Option.bind_eq_bind, Option.bind_some]
    cases a.statsPw.mergeSelf fun _ => stats.lookup with
    | none => rfl
    | some statsPw =>
        rw [hfail]
        exact Iff.rfl
  rw [hpw, (StatTable.mergeSelf_spec fun _ _ _ _ => rfl).1]
  refine forall₂_congr fun s _ => ?_
  rw [AList.lookup_isSome, StatTable.mem_of_mergeSelf (fun _ _ _ hl => hl) hstats]

/-! ### Homomorphism -/

/-- Pointwise addition of tables and counters, and of the two summaries. -/
structure SumOf (a b sum : CacheStats) : Prop where
  stats : ∀ streamID type status, sum.stats.get streamID type status =
    a.stats.get streamID type status + b.stats.get streamID type status
  statsPw : ∀ streamID type status, sum.statsPw.get streamID type status =
    a.statsPw.get streamID type status + b.statsPw.get streamID type status
  failStats : ∀ streamID type reason, sum.failStats.get streamID type reason =
    a.failStats.get streamID type reason + b.failStats.get streamID type reason
  cachePortAvailableCycles :
    sum.cachePortAvailableCycles = a.cachePortAvailableCycles + b.cachePortAvailableCycles
  cacheDataPortBusyCycles :
    sum.cacheDataPortBusyCycles = a.cacheDataPortBusyCycles + b.cacheDataPortBusyCycles
  cacheFillPortBusyCycles :
    sum.cacheFillPortBusyCycles = a.cacheFillPortBusyCycles + b.cacheFillPortBusyCycles
  subStats : sum.getSubStats = a.getSubStats.plus b.getSubStats
  subStatsPw : sum.getSubStatsPw = a.getSubStatsPw.plus b.getSubStatsPw

/-- Merging the statistics of two objects is a homomorphism: `a + b` is their sum, `a += b` agrees
with it, and both are commutative. -/
def MergesWith (a b : CacheStats) : Prop :=
  ∃ sum, a.plus b = some sum ∧ a.SumOf b sum ∧ (∃ s, a.addAssign b = some s ∧ sum.Same s) ∧
    (∃ s, b.plus a = some s ∧ sum.Same s) ∧ ∃ s, b.addAssign a = some s ∧ sum.Same s

/-- Merging the statistics of an object with themselves is a homomorphism: `a + a` is their sum, and
`a += a` agrees with it. -/
def MergesWithItself (a : CacheStats) : Prop :=
  ∃ sum, a.plus a = some sum ∧ a.SumOf a sum ∧ ∃ s, a.addAssignSelf = some s ∧ sum.Same s

/-- The window of every shared stream has seen all that was ever counted for the stream. -/
def FullWindows (a b : CacheStats) : Prop :=
  ∀ streamID, streamID ∈ a.statsPw → streamID ∈ b.statsPw →
    a.stats.lookup streamID = a.statsPw.lookup streamID ∧
      b.stats.lookup streamID = b.statsPw.lookup streamID

/-- The two windows have no hits, as far as 32 bits can tell. -/
def NoWindowHits (a b : CacheStats) : Prop :=
  2 ^ 32 ∣ a.statsPw.readHits + b.statsPw.readHits ∧
    2 ^ 32 ∣ a.statsPw.writeHits + b.statsPw.writeHits

/-- Nothing was ever counted for a stream that has a window. -/
def EmptyWindows (a : CacheStats) : Prop :=
  ∀ streamID ∈ a.statsPw, a.stats.lookup streamID = some (fun _ _ => 0) ∧
    a.statsPw.lookup streamID = some (fun _ _ => 0)

section Homomorphism

variable {a b t : CacheStats}

/-- A summary of pointwise sums is the sum in every field. -/
theorem getSubStats_of_added (h : a.Added b t) :
    t.getSubStats = a.getSubStats.plus b.getSubStats := by
  have hloop := StatTable.loop_add CacheSubStats.count_eq h.stats
  have hfield : ∀ f : CacheSubStats → ℕ, f (t.stats.loop CacheSubStats.count 0) =
      f (a.stats.loop CacheSubStats.count 0 + b.stats.loop CacheSubStats.count 0) := fun f =>
    congrArg f hloop
  exact CacheSubStats.ext (hfield CacheSubStats.accesses) (hfield CacheSubStats.misses)
    (hfield CacheSubStats.pendingHits) (hfield CacheSubStats.resFails) h.cachePortAvailableCycles
    h.cacheDataPortBusyCycles h.cacheFillPortBusyCycles

/-- The `operator+` of window summaries adds every field, but for the hits. -/
theorem plus_eq_add {x y : CacheSubStatsPw} :
    x + y = x.plus y ↔ x.readHits + y.readHits = 0 ∧ x.writeHits + y.writeHits = 0 := by
  constructor
  · intro h
    exact ⟨congrArg CacheSubStatsPw.readHits h, congrArg CacheSubStatsPw.writeHits h⟩
  · rintro ⟨hread, hwrite⟩
    exact CacheSubStatsPw.ext rfl rfl hwrite rfl rfl rfl hread rfl rfl

theorem noWindowHits_iff : NoWindowHits a b ↔
    a.getSubStatsPw + b.getSubStatsPw = a.getSubStatsPw.plus b.getSubStatsPw := by
  have hdvd : ∀ n : ℕ, 2 ^ 32 ∣ n ↔ BitVec.ofNat 32 n = 0 := by
    intro n
    rw [Nat.dvd_iff_mod_eq_zero, BitVec.toNat_eq, BitVec.toNat_ofNat]
    rfl
  have hread : ∀ s : CacheStats, s.getSubStatsPw.readHits = BitVec.ofNat 32 s.statsPw.readHits :=
    fun s => s.statsPw.readHits_of_loop
  have hwrite : ∀ s : CacheStats, s.getSubStatsPw.writeHits = BitVec.ofNat 32 s.statsPw.writeHits :=
    fun s => s.statsPw.writeHits_of_loop
  rw [plus_eq_add, hread, hread, hwrite, hwrite, ← BitVec.ofNat_add, ← BitVec.ofNat_add, ← hdvd,
    ← hdvd]
  rfl

/-- The shared streams of the right operand have full windows if the windows were added. -/
theorem lookup_eq_of_added (hsome : a.plus b = some t) (hadded : a.Added b t)
    (hpw : ∀ streamID type status, t.statsPw.get streamID type status =
      a.statsPw.get streamID type status + b.statsPw.get streamID type status)
    {streamID : ℕ} (ha : streamID ∈ a.statsPw) (hb : streamID ∈ b.statsPw) :
    b.stats.lookup streamID = b.statsPw.lookup streamID := by
  have hmem : streamID ∈ b.stats := plus_isSome.1 (by rw [hsome]; rfl) streamID ha hb
  obtain ⟨v, hv⟩ := Option.isSome_iff_exists.1 (AList.lookup_isSome.2 hmem)
  obtain ⟨w, hw⟩ := Option.isSome_iff_exists.1 (AList.lookup_isSome.2 hb)
  rw [hv, hw, Option.some_inj]
  funext type status
  have hget := hpw streamID type status
  rw [hadded.statsPw, if_pos ⟨ha, hb⟩, Nat.add_left_cancel_iff] at hget
  simpa [StatTable.get, hv, hw] using hget

/-- With full windows the operators add the windows. -/
theorem statsPw_of_added (hadded : a.Added b t) (hfull : a.FullWindows b) (streamID : ℕ)
    (type : MemAccessType) (status : CacheRequestStatus) : t.statsPw.get streamID type status =
      a.statsPw.get streamID type status + b.statsPw.get streamID type status := by
  rw [hadded.statsPw]
  split
  · next hshared =>
      have hget : b.stats.get streamID type status = b.statsPw.get streamID type status := by
        rw [StatTable.get, (hfull streamID hshared.1 hshared.2).2]
        rfl
      rw [hget]
  · rfl

theorem FullWindows.symm (h : a.FullWindows b) : b.FullWindows a :=
  fun streamID hb ha => (h streamID ha hb).symm

/-- With full windows neither operator throws. -/
theorem FullWindows.readable (h : a.FullWindows b) :
    ∀ streamID, streamID ∈ a.statsPw → streamID ∈ b.statsPw → streamID ∈ b.stats := by
  intro streamID ha hb
  rw [← AList.lookup_isSome, (h streamID ha hb).2, AList.lookup_isSome]
  exact hb

/-- With full windows the operators are commutative. -/
theorem Added.same_comm {t' : CacheStats} (h : a.Added b t) (h' : b.Added a t')
    (hfull : a.FullWindows b) : t.Same t' where
  stats := StatTable.lookup_eq_of_get (fun s => by rw [h'.mem_stats, h.mem_stats, or_comm])
    fun s type o => by rw [h'.stats, h.stats, Nat.add_comm]
  statsPw := StatTable.lookup_eq_of_get (fun s => by rw [h'.mem_statsPw, h.mem_statsPw, or_comm])
    fun s type o => by
      rw [statsPw_of_added h' hfull.symm, statsPw_of_added h hfull, Nat.add_comm]
  failStats := StatTable.lookup_eq_of_get
    (fun s => by rw [h'.mem_failStats, h.mem_failStats, or_comm])
    fun s type o => by rw [h'.failStats, h.failStats, Nat.add_comm]
  cachePortAvailableCycles := by
    rw [h'.cachePortAvailableCycles, h.cachePortAvailableCycles, Nat.add_comm]
  cacheDataPortBusyCycles := by
    rw [h'.cacheDataPortBusyCycles, h.cacheDataPortBusyCycles, Nat.add_comm]
  cacheFillPortBusyCycles := by
    rw [h'.cacheFillPortBusyCycles, h.cacheFillPortBusyCycles, Nat.add_comm]

/-- Two objects merge when no window of a shared stream was cleared after the stream had counted
something, and the two windows have no hits. -/
theorem mergesWith_iff : a.MergesWith b ↔ a.FullWindows b ∧ a.NoWindowHits b := by
  constructor
  · rintro ⟨sum, hplus, hsum, -, ⟨s, hswap, hsame⟩, -⟩
    have hadded := plus_added hplus
    constructor
    · intro streamID ha hb
      refine ⟨?_, lookup_eq_of_added hplus hadded hsum.statsPw ha hb⟩
      refine lookup_eq_of_added hswap (plus_added hswap) ?_ hb ha
      intro stream type status
      rw [StatTable.get, hsame.statsPw, Nat.add_comm]
      exact hsum.statsPw stream type status
    · rw [noWindowHits_iff, ← hsum.subStatsPw]
      exact (StatTable.loop_add CacheSubStatsPw.count_eq hsum.statsPw).symm
  · rintro ⟨hfull, hhits⟩
    obtain ⟨sum, hplus⟩ := Option.isSome_iff_exists.1 (plus_isSome.2 hfull.readable)
    obtain ⟨s₁, hassign⟩ := Option.isSome_iff_exists.1 (addAssign_isSome.2 hfull.readable)
    obtain ⟨s₂, hswap⟩ := Option.isSome_iff_exists.1 (plus_isSome.2 hfull.symm.readable)
    obtain ⟨s₃, hassign'⟩ := Option.isSome_iff_exists.1 (addAssign_isSome.2 hfull.symm.readable)
    have hadded := plus_added hplus
    have hpw := statsPw_of_added hadded hfull
    refine ⟨sum, hplus, ?_, ⟨s₁, hassign, hadded.same (addAssign_added hassign)⟩,
      ⟨s₂, hswap, hadded.same_comm (plus_added hswap) hfull⟩,
      ⟨s₃, hassign', hadded.same_comm (addAssign_added hassign') hfull⟩⟩
    refine ⟨hadded.stats, hpw, hadded.failStats, hadded.cachePortAvailableCycles,
      hadded.cacheDataPortBusyCycles, hadded.cacheFillPortBusyCycles,
      getSubStats_of_added hadded, ?_⟩
    rw [← noWindowHits_iff.1 hhits]
    exact StatTable.loop_add CacheSubStatsPw.count_eq hpw

/-- Windows in which nothing was counted have seen all there is. -/
theorem EmptyWindows.fullWindows (h : a.EmptyWindows) : a.FullWindows a := by
  intro streamID ha _
  obtain ⟨hstats, hpw⟩ := h streamID ha
  rw [hstats, hpw]
  exact ⟨rfl, rfl⟩

/-- And no hit is among what was counted there. -/
theorem EmptyWindows.noWindowHits (h : a.EmptyWindows) : a.NoWindowHits a := by
  have hentry : ∀ e ∈ a.statsPw.entries, e.2 = fun _ _ => 0 := by
    intro e he
    have hlookup : a.statsPw.lookup e.1 = some e.2 := AList.mem_lookup_iff.2 he
    have hzero := (h e.1 (AList.lookup_isSome.1 (by rw [hlookup]; rfl))).2
    exact Option.some_inj.1 (hlookup.symm.trans hzero)
  have hread : a.statsPw.readHits = 0 := List.sum_eq_zero fun n hn => by
    obtain ⟨e, he, rfl⟩ := List.mem_map.1 hn
    simp [hentry e he]
  have hwrite : a.statsPw.writeHits = 0 := List.sum_eq_zero fun n hn => by
    obtain ⟨e, he, rfl⟩ := List.mem_map.1 hn
    simp [hentry e he]
  rw [NoWindowHits, hread, hwrite]
  exact ⟨dvd_zero _, dvd_zero _⟩

/-- An object merges with itself when nothing was counted for the streams that have a window. -/
theorem mergesWithItself_iff : a.MergesWithItself ↔ a.EmptyWindows := by
  constructor
  · rintro ⟨sum, hplus, hsum, s, hassign, hsame⟩ streamID hmem
    have hlookup := lookup_eq_of_added hplus (plus_added hplus) hsum.statsPw hmem hmem
    obtain ⟨w, hw⟩ := Option.isSome_iff_exists.1 (AList.lookup_isSome.2 hmem)
    -- the window gets the doubled outcomes, where the sum has them once
    have hzero : w = fun _ _ => 0 := by
      funext type status
      have hget : a.statsPw.get streamID type status = w type status := by
        rw [StatTable.get, hw]
        rfl
      have hstats : a.stats.get streamID type status = w type status := by
        rw [StatTable.get, hlookup, hw]
        rfl
      have hdoubled := (addAssignSelf_doubled hassign).statsPw streamID type status
      rw [get_of_lookup hsame.statsPw, hsum.statsPw, if_pos hmem, hget, hstats] at hdoubled
      omega
    rw [hlookup, hw, hzero]
    exact ⟨rfl, rfl⟩
  · intro hempty
    have hmerges := mergesWith_iff.2 ⟨hempty.fullWindows, hempty.noWindowHits⟩
    obtain ⟨sum, hplus, hsum, -⟩ := hmerges
    obtain ⟨s, hassign⟩ := Option.isSome_iff_exists.1
      (addAssignSelf_isSome.2 fun streamID hs => hempty.fullWindows.readable streamID hs hs)
    have hadded := plus_added hplus
    have hdoubled := addAssignSelf_doubled hassign
    refine ⟨sum, hplus, hsum, s, hassign, ?_⟩
    constructor
    · refine StatTable.lookup_eq_of_get (fun stream => ?_) fun stream type status => ?_
      · rw [hdoubled.mem_stats, hadded.mem_stats, or_self]
      · rw [hdoubled.stats, hadded.stats]
    · refine StatTable.lookup_eq_of_get (fun stream => ?_) fun stream type status => ?_
      · rw [hdoubled.mem_statsPw, hadded.mem_statsPw, or_self]
      · rw [hdoubled.statsPw, hadded.statsPw]
        by_cases hmem : stream ∈ a.statsPw
        · have hzero : a.stats.get stream type status = 0 := by
            rw [StatTable.get, (hempty stream hmem).1]
            rfl
          rw [if_pos hmem, if_pos ⟨hmem, hmem⟩, hzero]
        · have hzero : a.statsPw.get stream type status = 0 := by
            rw [StatTable.get, AList.lookup_eq_none.2 hmem]
            rfl
          rw [if_neg hmem, if_neg fun h => hmem h.1, hzero]
    · refine StatTable.lookup_eq_of_get (fun stream => ?_) fun stream type status => ?_
      · rw [hdoubled.mem_failStats, hadded.mem_failStats, or_self]
      · rw [hdoubled.failStats, hadded.failStats]
    · rw [hdoubled.cachePortAvailableCycles, hadded.cachePortAvailableCycles]
    · rw [hdoubled.cacheDataPortBusyCycles, hadded.cacheDataPortBusyCycles]
    · rw [hdoubled.cacheFillPortBusyCycles, hadded.cacheFillPortBusyCycles]

end Homomorphism

end CacheStats

/-- **When merging is a homomorphism.**  For two objects it is one exactly when, for every stream
with a window on both sides, neither window was ever cleared after the stream had counted something,
and the two windows together have no hits of reads and none of writes.  For an object and itself it
is one exactly when nothing was ever counted for a stream with a window. -/
theorem merging_is_homomorphic_iff (a b : CacheStats) :
    (a.MergesWith b ↔ a.FullWindows b ∧ a.NoWindowHits b) ∧
      (a.MergesWithItself ↔ a.EmptyWindows) :=
  ⟨CacheStats.mergesWith_iff, CacheStats.mergesWithItself_iff⟩

/-- Count one outcome of a read, as `access` does. -/
def CacheStats.countRead (s : CacheStats) (status : CacheRequestStatus) : CacheStats :=
  (s.incStats .globalAccR status 0).incStatsPw .globalAccR status 0

/-- Merging adds the miss of a window that was cleared to the window; the summary of two windows
with one hit each has two hits, which the sum of the summaries has not; and merging one miss with
itself gives a window of three. -/
theorem merging_counts_cleared_misses :
    (¬(CacheStats.init.countRead .miss).MergesWith
      (((CacheStats.init.countRead .miss).clearPw).countRead .miss)) ∧
    (¬(CacheStats.init.countRead .hit).MergesWith (CacheStats.init.countRead .hit)) ∧
    ¬(CacheStats.init.countRead .miss).MergesWithItself := by
  refine ⟨?_, ?_, ?_⟩
  · rintro ⟨sum, hplus, hsum, -⟩
    have hwindow := (CacheStats.plus_added hplus).statsPw 0 .globalAccR .miss
    rw [hsum.statsPw 0 .globalAccR .miss] at hwindow
    revert hwindow
    decide
  · rintro ⟨sum, hplus, hsum, -⟩
    have hloop := StatTable.loop_add CacheSubStatsPw.count_eq hsum.statsPw
    obtain ⟨hread, -⟩ := CacheStats.noWindowHits_iff.2 (hloop.symm.trans hsum.subStatsPw)
    revert hread
    decide
  · rintro ⟨sum, -, hsum, s, hassign, hsame⟩
    have hwindow : s.statsPw.get 0 .globalAccR .miss = sum.statsPw.get 0 .globalAccR .miss := by
      rw [StatTable.get, hsame.statsPw]
      rfl
    rw [(CacheStats.addAssignSelf_doubled hassign).statsPw, hsum.statsPw] at hwindow
    revert hwindow
    decide

end OpenCache
