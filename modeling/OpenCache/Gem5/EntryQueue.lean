/-
**The queue of the miss registers and of the write buffer** (`queue.hh`).

`Queue<Entry>` has a storage of entries and three lists of pointers into it: the allocated entries,
the ones among them that were not sent yet, in the order in which they become ready, and the free
entries.  Both the queue of miss registers and the write buffer are such queues.  Pointers are
indices here; an assertion that fails, a panic, or an iterator that points nowhere is `none`.

Main definitions:

* `OpenCache.EntryQueue` — the queue, `OpenCache.QueueItem` — what it asks of its entries;
* `OpenCache.EntryQueue.findMatch`, `OpenCache.EntryQueue.findPending`,
  `OpenCache.EntryQueue.getNext` — the searches;
* `OpenCache.EntryQueue.Consistent` — the lists are a partition of the storage, and the
  counters count;
* `OpenCache.EntryQueue.Sorted`, `OpenCache.EntryQueue.Fifo` — the order of the entries
  that were not sent.

Main results:

* `OpenCache.EntryQueue.delay_eq` — **a delay does not move an entry** in the ready list;
* `OpenCache.EntryQueue.addToReadyList_spec` — the ready list takes every entry: there is no panic;
* `OpenCache.EntryQueue.Consistent.allocate`, `OpenCache.EntryQueue.Consistent.deallocate`,
  `OpenCache.EntryQueue.Consistent.send`, `OpenCache.EntryQueue.Consistent.pend` — each operation
  finds what it asks for and keeps the partition;
* `OpenCache.EntryQueue.Sorted.add`, `OpenCache.EntryQueue.Fifo.add` — an entry that is added
  keeps the order;
* `OpenCache.EntryQueue.Consistent.findMatch_spec`,
  `OpenCache.EntryQueue.Consistent.findPending_eq` — what the searches find.
-/

import OpenCache.Gem5.MshrTargets
import Mathlib.Data.List.TakeWhile
import Mathlib.Logic.Function.Basic

set_option relaxedAutoImplicit false
set_option autoImplicit false

namespace OpenCache

/-- What a queue asks of its entries. -/
class QueueItem (ε : Type*) where
  entry : ε → QueueEntry
  hasTargets : ε → Bool
  numTargets : ε → ℕ

instance : QueueItem MSHR := ⟨MSHR.toQueueEntry, MSHR.hasTargets, MSHR.getNumTargets⟩

structure EntryQueue (ε : Type*) where
  numEntries : ℕ
  numReserve : ℕ
  entries : ℕ → ε
  allocatedList : List ℕ
  readyList : List ℕ
  freeList : List ℕ
  numInService : ℤ
  allocated : ℤ

namespace EntryQueue

open QueueItem

variable {ε : Type*}

/-- The queue that the constructor makes. -/
def init (numEntries reserve : ℕ) (e : ε) : EntryQueue ε where
  numEntries := numEntries + reserve
  numReserve := reserve
  entries _ := e
  allocatedList := []
  readyList := []
  freeList := List.range (numEntries + reserve)
  numInService := 0
  allocated := 0

def isFull (q : EntryQueue ε) : Bool := q.allocated ≥ (q.numEntries : ℤ) - q.numReserve

/-- An entry is replaced. -/
def update (i : ℕ) (e : ε) (q : EntryQueue ε) : EntryQueue ε :=
  { q with entries := Function.update q.entries i e }

variable [QueueItem ε]

/-- The fields of an entry. -/
def item (q : EntryQueue ε) (i : ℕ) : QueueEntry := entry (q.entries i)

/-- `matchBlockAddr` of an entry, after its assertion. -/
def matches' (e : QueueEntry) (blkAddr : BitVec 64) (isSecure : Bool) : Bool :=
  e.blkAddr == blkAddr && e.isSecure == isSecure

def addToReadyList (i : ℕ) (q : EntryQueue ε) : Option (EntryQueue ε) :=
  let time (j : ℕ) := (q.item j).readyTime
  if q.readyList.getLast?.all fun j => time j ≤ time i then
    some { q with readyList := q.readyList ++ [i] }
  else
    match q.readyList.dropWhile fun j => time j ≤ time i with
    | [] => none
    | j :: rest =>
        some { q with readyList := (q.readyList.takeWhile fun j => time j ≤ time i) ++
          i :: j :: rest }

/-- The loop of `findMatch`. -/
def searchMatch (blkAddr : BitVec 64) (isSecure ignoreUncacheable : Bool) (q : EntryQueue ε) :
    List ℕ → Option (Option ℕ)
  | [] => some none
  | i :: is =>
      if ignoreUncacheable && (q.item i).isUncacheable then
        searchMatch blkAddr isSecure ignoreUncacheable q is
      else if !hasTargets (q.entries i) then none
      else if matches' (q.item i) blkAddr isSecure then some (some i)
      else searchMatch blkAddr isSecure ignoreUncacheable q is

def findMatch (blkAddr : BitVec 64) (isSecure ignoreUncacheable : Bool) (q : EntryQueue ε) :
    Option (Option ℕ) :=
  q.searchMatch blkAddr isSecure ignoreUncacheable q.allocatedList

/-- The loop of `findPending`, with the assertions of `conflictAddr` and `matchBlockAddr`. -/
def searchPending {ε' : Type*} [QueueItem ε'] (e : ε') (q : EntryQueue ε) : List ℕ →
    Option (Option ℕ)
  | [] => some none
  | i :: is =>
      if !hasTargets (q.entries i) || !hasTargets e then none
      else if matches' (entry e) (q.item i).blkAddr (q.item i).isSecure then some (some i)
      else searchPending e q is

def findPending {ε' : Type*} [QueueItem ε'] (e : ε') (q : EntryQueue ε) : Option (Option ℕ) :=
  q.searchPending e q.readyList

def getNext (now : ℕ) (q : EntryQueue ε) : Option ℕ :=
  q.readyList.head?.filter fun i => (q.item i).readyTime ≤ now

/-- The front of the free list is filled (`MSHRQueue::allocate`, `WriteQueue::allocate`). -/
def allocate (fill : ε → Option ε) (q : EntryQueue ε) : Option (ℕ × EntryQueue ε) :=
  match q.freeList with
  | [] => none
  | i :: rest =>
      if numTargets (q.entries i) ≠ 0 then none
      else (fill (q.entries i)).bind fun e =>
        (addToReadyList i { q.update i e with
            freeList := rest
            allocatedList := q.allocatedList ++ [i] }).map fun q =>
          (i, { q with allocated := q.allocated + 1 })

/-- An entry becomes free; `release` is its own `deallocate`. -/
def deallocate (release : ε → Option ε) (i : ℕ) (q : EntryQueue ε) : Option (EntryQueue ε) :=
  if i ∉ q.allocatedList ∨ ((q.item i).inService = false ∧ i ∉ q.readyList) then none
  else (release (q.entries i)).map fun e =>
    { q.update i e with
      allocatedList := q.allocatedList.erase i
      freeList := i :: q.freeList
      allocated := q.allocated - 1
      numInService := if (q.item i).inService then q.numInService - 1 else q.numInService
      readyList := if (q.item i).inService then q.readyList else q.readyList.erase i }

/-- An entry was sent (`MSHRQueue::markInService`); `mark` is its own `markInService`. -/
def markInService (mark : ε → Option ε) (i : ℕ) (q : EntryQueue ε) : Option (EntryQueue ε) :=
  if i ∉ q.readyList then none
  else (mark (q.entries i)).map fun e =>
    { q.update i e with
      readyList := q.readyList.erase i
      numInService := q.numInService + 1 }

/-- The front of the free list is filled, which reads and changes something beside the queue. -/
def allocateWith {σ : Type*} (fill : ε → Option (ε × σ)) (q : EntryQueue ε) :
    Option (ℕ × EntryQueue ε × σ) :=
  q.freeList.head?.bind fun i => (fill (q.entries i)).bind fun r =>
    (q.allocate fun _ => some r.1).map fun a => (a.1, a.2, r.2)

/-- An entry was sent, which changes something beside the queue. -/
def markInServiceWith {σ : Type*} (mark : ε → Option (ε × σ)) (i : ℕ) (q : EntryQueue ε) :
    Option (EntryQueue ε × σ) :=
  (mark (q.entries i)).bind fun r =>
    (q.markInService (fun _ => some r.1) i).map fun q => (q, r.2)

/-- An entry has to be sent again (`MSHRQueue::markPending`); `clear` resets `inService`. -/
def markPending (clear : ε → ε) (i : ℕ) (q : EntryQueue ε) : Option (EntryQueue ε) :=
  if (q.item i).inService then
    addToReadyList i { q.update i (clear (q.entries i)) with numInService := q.numInService - 1 }
  else none

/-- A pointer is moved in front of another one, or to the end (`std::list::splice`). -/
def splice (i : ℕ) (l : List ℕ) : Option ℕ → List ℕ
  | none => l.erase i ++ [i]
  | some j => if j = i then l else (l.erase i).takeWhile (· ≠ j) ++ i ::
      (l.erase i).dropWhile (· ≠ j)

/-- An entry is delayed (`MSHRQueue::delay`): the search for its new place starts at the
entry itself. -/
def delay (postpone : ε → Option ε) (i : ℕ) (q : EntryQueue ε) : Option (EntryQueue ε) :=
  if i ∉ q.readyList then none
  else (postpone (q.entries i)).map fun e =>
    let q := q.update i e
    let place := (q.readyList.dropWhile (· ≠ i)).find? fun j =>
      (q.item j).readyTime ≤ (q.item i).readyTime
    { q with readyList := splice i q.readyList place }

/-! ### The lists -/

variable {q q' : EntryQueue ε} {i j : ℕ} {e : ε}

@[simp] theorem item_update_same : (q.update i e).item i = entry e := by simp [item, update]

@[simp] theorem item_update_ne (h : j ≠ i) : (q.update i e).item j = q.item j := by
  simp [item, update, h]

theorem head?_dropWhile_ne {l : List ℕ} (h : i ∈ l) : (l.dropWhile (· ≠ i)).head? = some i := by
  induction l with
  | nil => cases h
  | cons j l ih =>
      by_cases hj : j = i
      · subst hj
        simp
      · rw [List.dropWhile_cons_of_pos (by simpa using hj)]
        exact ih ((List.mem_cons.1 h).resolve_left (Ne.symm hj))

/-- An entry that is delayed stays where it is: the search for its new place starts, and ends, at
the entry itself. -/
theorem delay_eq (postpone : ε → Option ε) (h : i ∈ q.readyList) :
    q.delay postpone i = (postpone (q.entries i)).map fun e => q.update i e := by
  unfold delay
  rw [if_neg (not_not.2 h)]
  cases postpone (q.entries i) with
  | none => rfl
  | some e =>
      obtain ⟨rest, hrest⟩ := List.head?_eq_some_iff.1 (head?_dropWhile_ne h)
      have hlist : (q.update i e).readyList = q.readyList := rfl
      simp only [Option.map_some, hlist, hrest, List.find?_cons, le_refl, decide_true,
        splice, if_true]
      rfl

/-- An entry that is replaced before it is freed. -/
theorem deallocate_update {release : ε → Option ε}
    (hservice : (entry e).inService = (q.item i).inService) :
    (q.update i e).deallocate release i = q.deallocate (fun _ => release e) i := by
  unfold deallocate
  rw [show (q.update i e).entries i = e from Function.update_self _ _ _, item_update_same, hservice]
  simp [update, Function.update_idem]

/-- The ready list takes an entry after a part of the list, and in front of an entry that
is ready later. -/
theorem addToReadyList_spec (i : ℕ) (q : EntryQueue ε) : ∃ front back,
    q.addToReadyList i = some { q with readyList := front ++ i :: back } ∧
    q.readyList = front ++ back ∧
      (∀ j ∈ front.getLast?, (q.item j).readyTime ≤ (q.item i).readyTime) ∧
      ∀ j ∈ back.head?, (q.item i).readyTime < (q.item j).readyTime := by
  unfold addToReadyList
  simp only
  split
  · next hlast =>
      refine ⟨q.readyList, [], rfl, (List.append_nil _).symm, ?_, by simp⟩
      intro j hj
      rw [hj] at hlast
      simpa using hlast
  · next hlast =>
      let p : ℕ → Bool := fun j => (q.item j).readyTime ≤ (q.item i).readyTime
      have hsplit : q.readyList.takeWhile p ++ q.readyList.dropWhile p = q.readyList :=
        List.takeWhile_append_dropWhile
      have hfront : ∀ j ∈ (q.readyList.takeWhile p).getLast?,
          (q.item j).readyTime ≤ (q.item i).readyTime := by
        intro j hj
        simpa [p] using List.mem_takeWhile_imp (List.mem_of_getLast? hj)
      split
      · -- the last entry is ready later: the loop finds a place
        next hnil =>
          exfalso
          apply hlast
          have hall : q.readyList.takeWhile p = q.readyList := by
            rw [show q.readyList.dropWhile p = [] from hnil, List.append_nil] at hsplit
            exact hsplit
          rw [hall] at hfront
          rw [Option.all_eq_true]
          intro j hj
          simpa using hfront j hj
      · next j rest hrest =>
          have hdrop : q.readyList.dropWhile p = j :: rest := hrest
          refine ⟨_, j :: rest, rfl, ?_, hfront, ?_⟩
          · rw [← hdrop]
            exact hsplit.symm
          · intro k hk
            rw [List.head?_cons, Option.mem_some_iff] at hk
            subst hk
            have hnot := List.head?_dropWhile_not p q.readyList
            rw [hdrop] at hnot
            simpa [p] using hnot

/-- The lists are a partition of the storage, the ready list has the allocated entries that were not
sent, the counters count, and the entries that are not allocated are empty. -/
structure Consistent (q : EntryQueue ε) : Prop where
  slots : (q.freeList ++ q.allocatedList).Perm (List.range q.numEntries)
  nodup : q.readyList.Nodup
  mem_ready : ∀ i, i ∈ q.readyList ↔ i ∈ q.allocatedList ∧ (q.item i).inService = false
  allocated : q.allocated = q.allocatedList.length
  inService : q.numInService = (q.allocatedList.countP fun i => (q.item i).inService : ℕ)
  targets : ∀ i ∈ q.allocatedList, hasTargets (q.entries i) = true
  free : ∀ i, i ∉ q.allocatedList → numTargets (q.entries i) = 0

namespace Consistent

theorem nodup_slots (h : q.Consistent) : (q.freeList ++ q.allocatedList).Nodup :=
  h.slots.nodup_iff.2 List.nodup_range

theorem nodup_allocated (h : q.Consistent) : q.allocatedList.Nodup := h.nodup_slots.of_append_right

theorem not_mem_free (h : q.Consistent) (hi : i ∈ q.allocatedList) : i ∉ q.freeList := fun hfree =>
  (List.disjoint_of_nodup_append h.nodup_slots) hfree hi

theorem lt (h : q.Consistent) (hi : i ∈ q.allocatedList) : i < q.numEntries :=
  List.mem_range.1 (h.slots.mem_iff.1 (List.mem_append_right _ hi))

theorem lengths (h : q.Consistent) : q.freeList.length + q.allocatedList.length = q.numEntries := by
  have hlength := h.slots.length_eq
  rwa [List.length_append, List.length_range] at hlength

theorem of_ready (h : q.Consistent) (hi : i ∈ q.readyList) :
    i ∈ q.allocatedList ∧ (q.item i).inService = false := (h.mem_ready i).1 hi

/-- A queue that is not full has a free entry. -/
theorem exists_free (h : q.Consistent) (hfull : q.isFull = false) :
    ∃ i rest, q.freeList = i :: rest := by
  refine List.exists_cons_of_ne_nil fun hnil => ?_
  have hlengths := h.lengths
  rw [hnil, List.length_nil] at hlengths
  have hcount := h.allocated
  simp only [isFull, ge_iff_le, decide_eq_false_iff_not, not_le] at hfull
  omega

/-- Counting the entries in service after one entry was replaced. -/
theorem countP_update (l : List ℕ) (hnodup : l.Nodup) (hi : i ∈ l) :
    (l.countP fun j => ((q.update i e).item j).inService) + (q.item i).inService.toNat =
      (l.countP fun j => (q.item j).inService) + (entry e).inService.toNat := by
  induction l with
  | nil => cases hi
  | cons j l ih =>
      obtain ⟨hj, hl⟩ := List.nodup_cons.1 hnodup
      have hrest : ∀ {k}, k ≠ i → ((q.update i e).item k).inService = (q.item k).inService :=
        fun hk => congrArg QueueEntry.inService (item_update_ne hk)
      rw [List.countP_cons, List.countP_cons]
      by_cases hji : j = i
      · subst hji
        have hsame : (l.countP fun k => ((q.update j e).item k).inService) =
            l.countP fun k => (q.item k).inService := by
          refine List.countP_congr fun k hk => ?_
          rw [hrest fun h => hj (h ▸ hk)]
        rw [hsame, item_update_same]
        cases (entry e).inService <;> cases (q.item j).inService <;> simp
      · rw [hrest hji]
        have := ih hl ((List.mem_cons.1 hi).resolve_left (Ne.symm hji))
        omega

/-- What the other entries are after one was replaced. -/
theorem item_ne (hentries : q'.entries = Function.update q.entries i e) (h : j ≠ i) :
    q'.item j = q.item j := by
  simp [item, hentries, h]

theorem item_same (hentries : q'.entries = Function.update q.entries i e) :
    q'.item i = entry e := by
  simp [item, hentries]

theorem targets_update (h : q.Consistent) (hentries : q'.entries = Function.update q.entries i e)
    (htargets : hasTargets e = true) : ∀ j ∈ q.allocatedList, hasTargets (q'.entries j) = true := by
  intro j hj
  by_cases hji : j = i
  · subst hji
    simpa [hentries] using htargets
  · simpa [hentries, hji] using h.targets j hj

theorem free_update (h : q.Consistent) (hi : i ∈ q.allocatedList)
    (hentries : q'.entries = Function.update q.entries i e) :
    ∀ j, j ∉ q.allocatedList → numTargets (q'.entries j) = 0 := by
  intro j hj
  have hji : j ≠ i := fun heq => hj (heq ▸ hi)
  simpa [hentries, hji] using h.free j hj

/-- An entry changes, and nothing that the lists depend on. -/
theorem update (h : q.Consistent) (hi : i ∈ q.allocatedList)
    (hservice : (entry e).inService = (q.item i).inService) (htargets : hasTargets e = true) :
    (q.update i e).Consistent := by
  have hsame : ∀ j, ((q.update i e).item j).inService = (q.item j).inService := by
    intro j
    by_cases hj : j = i
    · subst hj
      rw [item_update_same, hservice]
    · rw [item_update_ne hj]
  refine ⟨h.slots, h.nodup, fun j => ?_, h.allocated, ?_, h.targets_update rfl htargets,
    h.free_update hi rfl⟩
  · rw [hsame j]
    exact h.mem_ready j
  · have hcount := h.inService
    have heq : (q.allocatedList.countP fun j => ((q.update i e).item j).inService) =
        q.allocatedList.countP fun j => (q.item j).inService :=
      List.countP_congr fun j _ => by rw [hsame j]
    change q.numInService = _
    rw [hcount]
    exact congrArg Nat.cast heq.symm

/-- The front of the free list is filled. -/
theorem allocate (h : q.Consistent) {rest : List ℕ} (hfree : q.freeList = i :: rest)
    {fill : ε → Option ε}
    (hfill : fill (q.entries i) = some e) (hservice : (entry e).inService = false)
    (htargets : hasTargets e = true) : ∃ front back,
      q.allocate fill = some (i, { q.update i e with
        freeList := rest
        allocatedList := q.allocatedList ++ [i]
        readyList := front ++ i :: back
        allocated := q.allocated + 1 }) ∧ q.readyList = front ++ back ∧
      (∀ j ∈ front.getLast?, (q.item j).readyTime ≤ (entry e).readyTime) ∧
      (∀ j ∈ back.head?, (entry e).readyTime < (q.item j).readyTime) ∧
      ({ q.update i e with
        freeList := rest
        allocatedList := q.allocatedList ++ [i]
        readyList := front ++ i :: back
        allocated := q.allocated + 1 } : EntryQueue ε).Consistent := by
  have hmem : i ∈ q.freeList := hfree ▸ List.mem_cons_self
  have hnot : i ∉ q.allocatedList := fun hi => h.not_mem_free hi hmem
  have hready : i ∉ q.readyList := fun hi => hnot (h.of_ready hi).1
  let q₁ : EntryQueue ε := { q.update i e with
    freeList := rest
    allocatedList := q.allocatedList ++ [i] }
  obtain ⟨front, back, hadd, hlist, hfront, hback⟩ := q₁.addToReadyList_spec i
  have hlist : q.readyList = front ++ back := hlist
  have hne : ∀ {j}, j ∈ q.readyList → q₁.item j = q.item j := fun hj =>
    item_update_ne fun heq => hready (heq ▸ hj)
  have hsame : q₁.item i = entry e := item_update_same
  refine ⟨front, back, ?_, hlist, ?_, ?_, ?_⟩
  · unfold EntryQueue.allocate
    rw [hfree]
    simp only
    rw [if_neg (not_not.2 (h.free i hnot)), hfill, Option.bind_some, hadd]
    rfl
  · intro j hj
    have hin : j ∈ q.readyList := by
      rw [hlist]
      exact List.mem_append_left _ (List.mem_of_getLast? hj)
    have hj' := hfront j hj
    rwa [hne hin, hsame] at hj'
  · intro j hj
    have hin : j ∈ q.readyList := by
      rw [hlist]
      exact List.mem_append_right _ (List.mem_of_mem_head? hj)
    have hj' := hback j hj
    rwa [hsame, hne hin] at hj'
  · have hperm : (front ++ i :: back).Perm (i :: q.readyList) := hlist ▸ List.perm_middle
    have hslots := h.slots
    rw [hfree] at hslots
    refine ⟨?_, ?_, ?_, ?_, ?_, ?_, ?_⟩
    · refine List.Perm.trans ?_ hslots
      rw [← List.append_assoc]
      exact (List.perm_append_singleton _ _).trans (List.Perm.refl _)
    · exact hperm.nodup_iff.2 (List.nodup_cons.2 ⟨hready, h.nodup⟩)
    · intro j
      rw [hperm.mem_iff, List.mem_cons, List.mem_append, List.mem_singleton]
      by_cases hji : j = i
      · subst hji
        have hitem : (q₁.item j).inService = false := by rw [hsame, hservice]
        exact ⟨fun _ => ⟨Or.inr rfl, hitem⟩, fun _ => Or.inl rfl⟩
      · have hitem : q₁.item j = q.item j := item_update_ne hji
        have hiff := h.mem_ready j
        constructor
        · rintro (heq | hj)
          · exact absurd heq hji
          · exact ⟨Or.inl (hiff.1 hj).1, (congrArg QueueEntry.inService hitem).trans (hiff.1 hj).2⟩
        · rintro ⟨hj | heq, hs⟩
          · exact Or.inr (hiff.2 ⟨hj, (congrArg QueueEntry.inService hitem).symm.trans hs⟩)
          · exact absurd heq hji
    · have hcount := h.allocated
      simp only [List.length_append, List.length_singleton]
      omega
    · have hold : (q.allocatedList.countP fun j => (q₁.item j).inService) =
          q.allocatedList.countP fun j => (q.item j).inService :=
        List.countP_congr fun j hj => by
          rw [show q₁.item j = q.item j from item_update_ne fun heq => hnot (heq ▸ hj)]
      have hnew : (q₁.item i).inService = false := by rw [hsame, hservice]
      change q.numInService = ((q.allocatedList ++ [i]).countP fun j => (q₁.item j).inService : ℕ)
      rw [List.countP_append, hold, List.countP_singleton, hnew]
      exact h.inService
    · intro j hj
      by_cases hji : j = i
      · subst hji
        simpa [EntryQueue.update] using htargets
      · rw [List.mem_append, List.mem_singleton] at hj
        simpa [EntryQueue.update, hji] using h.targets j (hj.resolve_right hji)
    · intro j hj
      simp only [List.mem_append, List.mem_singleton, not_or] at hj
      simpa [EntryQueue.update, hj.2] using h.free j hj.1

/-- An entry becomes free. -/
theorem deallocate (h : q.Consistent) (hi : i ∈ q.allocatedList) {release : ε → Option ε}
    (hrelease : release (q.entries i) = some e) (hnone : numTargets e = 0) :
    ∃ q', q.deallocate release i = some q' ∧ q'.entries = Function.update q.entries i e ∧
      q'.allocatedList = q.allocatedList.erase i ∧ q'.freeList = i :: q.freeList ∧
      q'.readyList = q.readyList.erase i ∧ q'.numEntries = q.numEntries ∧
      q'.numReserve = q.numReserve ∧ q'.allocated = q.allocated - 1 ∧ q'.Consistent := by
  have hready : (q.item i).inService = false → i ∈ q.readyList :=
    fun hs => (h.mem_ready i).2 ⟨hi, hs⟩
  have hnot : (q.item i).inService = true → i ∉ q.readyList := by
    intro hs hmem
    rw [(h.of_ready hmem).2] at hs
    cases hs
  have hreadyList : (if (q.item i).inService then q.readyList else q.readyList.erase i) =
      q.readyList.erase i := by
    split
    · next hs => exact (List.erase_of_not_mem (hnot hs)).symm
    · rfl
  have hcond : ¬(i ∉ q.allocatedList ∨ ((q.item i).inService = false ∧ i ∉ q.readyList)) := by
    rintro (h' | ⟨hs, hmem⟩)
    · exact h' hi
    · exact hmem (hready hs)
  let q' : EntryQueue ε := { q.update i e with
    allocatedList := q.allocatedList.erase i
    freeList := i :: q.freeList
    allocated := q.allocated - 1
    numInService := if (q.item i).inService then q.numInService - 1 else q.numInService
    readyList := q.readyList.erase i }
  have hne : ∀ {j}, j ≠ i → q'.item j = q.item j := fun hj => item_ne (q := q) rfl hj
  refine ⟨q', ?_, rfl, rfl, rfl, rfl, rfl, rfl, rfl, ?_, h.nodup.erase i, ?_, ?_, ?_, ?_, ?_⟩
  · unfold EntryQueue.deallocate
    rw [if_neg hcond, hrelease, hreadyList]
    rfl
  · refine List.Perm.trans ?_ h.slots
    have hperm : (i :: q.allocatedList.erase i).Perm q.allocatedList :=
      (List.perm_cons_erase hi).symm
    change (i :: (q.freeList ++ q.allocatedList.erase i)).Perm _
    exact List.perm_middle.symm.trans (hperm.append_left _)
  · intro j
    change j ∈ q.readyList.erase i ↔ j ∈ q.allocatedList.erase i ∧ (q'.item j).inService = false
    rw [h.nodup.mem_erase_iff, h.nodup_allocated.mem_erase_iff, h.mem_ready j]
    by_cases hji : j = i
    · simp [hji]
    · rw [hne hji]
      simp [hji]
  · have hcount := h.allocated
    have hlength := List.length_erase_of_mem hi
    have hpos := List.length_pos_of_mem hi
    change q.allocated - 1 = ((q.allocatedList.erase i).length : ℕ)
    omega
  · have hcount := h.inService
    have hold : ((q.allocatedList.erase i).countP fun j => (q'.item j).inService) =
        (q.allocatedList.erase i).countP fun j => (q.item j).inService :=
      List.countP_congr fun j hj => by
        rw [hne (h.nodup_allocated.mem_erase_iff.1 hj).1]
    have herase : (q.allocatedList.countP fun j => (q.item j).inService) =
        ((q.allocatedList.erase i).countP fun j => (q.item j).inService) +
          (q.item i).inService.toNat := by
      rw [(List.perm_cons_erase hi).countP_eq, List.countP_cons]
      cases (q.item i).inService <;> rfl
    change (if (q.item i).inService then q.numInService - 1 else q.numInService) =
      (((q.allocatedList.erase i).countP fun j => (q'.item j).inService : ℕ) : ℤ)
    rw [hold, hcount, herase]
    cases (q.item i).inService
    · simp
    · simp
  · intro j hj
    obtain ⟨hji, hj⟩ := h.nodup_allocated.mem_erase_iff.1 hj
    have heq : q'.entries j = q.entries j := Function.update_of_ne hji _ _
    rw [heq]
    exact h.targets j hj
  · intro j hj
    by_cases hji : j = i
    · subst hji
      have heq : q'.entries j = e := Function.update_self _ _ _
      rw [heq, hnone]
    · have heq : q'.entries j = q.entries j := Function.update_of_ne hji _ _
      rw [heq]
      exact h.free j fun hmem => hj (h.nodup_allocated.mem_erase_iff.2 ⟨hji, hmem⟩)

/-- An entry that waits is sent. -/
theorem send (h : q.Consistent) (hi : i ∈ q.readyList) {mark : ε → Option ε}
    (hmark : mark (q.entries i) = some e) (hservice : (entry e).inService = true)
    (htargets : hasTargets e = true) :
    ∃ q', q.markInService mark i = some q' ∧ q'.entries = Function.update q.entries i e ∧
      q'.allocatedList = q.allocatedList ∧ q'.freeList = q.freeList ∧
      q'.readyList = q.readyList.erase i ∧ q'.numEntries = q.numEntries ∧
      q'.numReserve = q.numReserve ∧ q'.allocated = q.allocated ∧ q'.Consistent := by
  obtain ⟨hallocated, hidle⟩ := h.of_ready hi
  let q' : EntryQueue ε := { q.update i e with
    readyList := q.readyList.erase i
    numInService := q.numInService + 1 }
  have hne : ∀ {j}, j ≠ i → q'.item j = q.item j := fun hj => item_ne (q := q) rfl hj
  have hsame : q'.item i = entry e := item_same (q := q) rfl
  refine ⟨q', ?_, rfl, rfl, rfl, rfl, rfl, rfl, rfl, h.slots, h.nodup.erase i, ?_, h.allocated, ?_,
    h.targets_update rfl htargets, h.free_update hallocated rfl⟩
  · unfold EntryQueue.markInService
    rw [if_neg (not_not.2 hi), hmark]
    rfl
  · intro j
    change j ∈ q.readyList.erase i ↔ j ∈ q.allocatedList ∧ (q'.item j).inService = false
    rw [h.nodup.mem_erase_iff, h.mem_ready j]
    by_cases hji : j = i
    · subst hji
      rw [hsame, hservice]
      simp
    · rw [hne hji]
      simp [hji]
  · have hcount := h.inService
    have hupdate := countP_update (q := q) (e := e) q.allocatedList h.nodup_allocated hallocated
    rw [hidle, hservice, Bool.toNat_false, Bool.toNat_true] at hupdate
    change q.numInService + 1 =
      ((q.allocatedList.countP fun j => ((q.update i e).item j).inService : ℕ) : ℤ)
    omega

/-- An entry in service has to be sent again. -/
theorem pend (h : q.Consistent) (hi : i ∈ q.allocatedList) (hsent : (q.item i).inService = true)
    {clear : ε → ε} (hservice : (entry (clear (q.entries i))).inService = false)
    (htargets : hasTargets (clear (q.entries i)) = true) :
    ∃ q', q.markPending clear i = some q' ∧
      q'.entries = Function.update q.entries i (clear (q.entries i)) ∧
      q'.allocatedList = q.allocatedList ∧ q'.freeList = q.freeList ∧
      q'.readyList.Perm (i :: q.readyList) ∧ q'.numEntries = q.numEntries ∧
      q'.numReserve = q.numReserve ∧ q'.allocated = q.allocated ∧ q'.Consistent := by
  have hnot : i ∉ q.readyList := by
    intro hmem
    rw [(h.of_ready hmem).2] at hsent
    cases hsent
  let e := clear (q.entries i)
  let q₁ : EntryQueue ε := { q.update i e with numInService := q.numInService - 1 }
  obtain ⟨front, back, hadd, hlist, -, -⟩ := q₁.addToReadyList_spec i
  have hlist : q.readyList = front ++ back := hlist
  let q' : EntryQueue ε := { q₁ with readyList := front ++ i :: back }
  have hperm : q'.readyList.Perm (i :: q.readyList) := hlist ▸ List.perm_middle
  have hne : ∀ {j}, j ≠ i → q'.item j = q.item j := fun hj => item_ne (q := q) rfl hj
  have hsame : q'.item i = entry e := item_same (q := q) rfl
  refine ⟨q', ?_, rfl, rfl, rfl, hperm, rfl, rfl, rfl, h.slots,
    hperm.nodup_iff.2 (List.nodup_cons.2 ⟨hnot, h.nodup⟩), ?_, h.allocated, ?_,
    h.targets_update rfl htargets, h.free_update hi rfl⟩
  · unfold EntryQueue.markPending
    rw [if_pos hsent]
    exact hadd
  · intro j
    rw [hperm.mem_iff, List.mem_cons, h.mem_ready j]
    change _ ↔ j ∈ q.allocatedList ∧ (q'.item j).inService = false
    by_cases hji : j = i
    · subst hji
      have hidle : (entry e).inService = false := hservice
      rw [hsame, hidle]
      simp [hi]
    · rw [hne hji]
      simp [hji]
  · have hcount := h.inService
    have hupdate := countP_update (q := q) (e := e) q.allocatedList h.nodup_allocated hi
    have hidle : (entry e).inService = false := hservice
    rw [hidle, hsent, Bool.toNat_false, Bool.toNat_true] at hupdate
    change q.numInService - 1 =
      ((q.allocatedList.countP fun j => ((q.update i e).item j).inService : ℕ) : ℤ)
    omega

theorem init (numEntries reserve : ℕ) (hnone : numTargets e = 0) :
    (EntryQueue.init numEntries reserve e).Consistent := by
  refine ⟨?_, List.nodup_nil, ?_, rfl, rfl, ?_, fun _ _ => hnone⟩
  · exact (List.append_nil _).symm ▸ List.Perm.refl _
  · intro i
    simp [EntryQueue.init]
  · intro i hi
    cases hi

end Consistent

/-! ### The order of the entries that were not sent -/

/-- The entries are in the order in which they become ready. -/
def Sorted (q : EntryQueue ε) : Prop :=
  q.readyList.Pairwise fun i j => (q.item i).readyTime ≤ (q.item j).readyTime

/-- The entries for one block are in the order in which they came. -/
def Fifo (q : EntryQueue ε) : Prop :=
  q.readyList.Pairwise fun i j => matches' (q.item i)
    (q.item j).blkAddr (q.item j).isSecure = true →
    (q.item i).order < (q.item j).order

theorem pairwise_insert {R : ℕ → ℕ → Prop} {front back : List ℕ} (h : (front ++ back).Pairwise R)
    (hfront : ∀ j ∈ front, R j i) (hback : ∀ j ∈ back, R i j) :
    (front ++ i :: back).Pairwise R := by
  rw [List.pairwise_append] at h ⊢
  obtain ⟨hf, hb, hcross⟩ := h
  refine ⟨hf, List.pairwise_cons.2 ⟨hback, hb⟩, fun j hj k hk => ?_⟩
  rcases List.mem_cons.1 hk with rfl | hk
  · exact hfront j hj
  · exact hcross j hj k hk

/-- In a sorted list an entry is put after those that are ready not later and before those that
are ready later. -/
theorem Sorted.around (h : q.Sorted) {front back : List ℕ} {time : ℕ}
    (hlist : q.readyList = front ++ back)
    (hfront : ∀ j ∈ front.getLast?, (q.item j).readyTime ≤ time)
    (hback : ∀ j ∈ back.head?, time < (q.item j).readyTime) :
    (∀ j ∈ front, (q.item j).readyTime ≤ time) ∧ ∀ j ∈ back, time < (q.item j).readyTime := by
  unfold Sorted at h
  rw [hlist, List.pairwise_append] at h
  obtain ⟨hf, hb, -⟩ := h
  constructor
  · intro j hj
    obtain ⟨pre, last, rfl⟩ := List.eq_nil_or_concat' front |>.resolve_left (List.ne_nil_of_mem hj)
    have hlast := hfront last (by simp)
    rcases List.mem_append.1 hj with hj | hj
    · exact le_trans ((List.pairwise_append.1 hf).2.2 j hj last (by simp)) hlast
    · rwa [List.mem_singleton.1 hj]
  · intro j hj
    cases back with
    | nil => cases hj
    | cons first rest =>
        have hfirst := hback first rfl
        rcases List.mem_cons.1 hj with rfl | hj
        · exact hfirst
        · exact lt_of_lt_of_le hfirst ((List.pairwise_cons.1 hb).1 j hj)

/-- A relation on the entries of a list, after an entry that is not in it was replaced. -/
theorem pairwise_entries {R : QueueEntry → QueueEntry → Prop} {l : List ℕ}
    (hentries : q'.entries = Function.update q.entries i e) (hi : i ∉ l)
    (h : l.Pairwise fun j k => R (q.item j) (q.item k)) :
    l.Pairwise fun j k => R (q'.item j) (q'.item k) := by
  refine h.imp_of_mem fun {j k} hj hk hr => ?_
  rwa [Consistent.item_ne hentries fun heq => hi (heq ▸ hj),
    Consistent.item_ne hentries fun heq => hi (heq ▸ hk)]

/-- An entry is added to the ready list. -/
theorem Sorted.add (h : q.Sorted) {front back : List ℕ} (hi : i ∉ q.readyList)
    (hlist : q.readyList = front ++ back) (hready : q'.readyList = front ++ i :: back)
    (hentries : q'.entries = Function.update q.entries i e)
    (hfront : ∀ j ∈ front.getLast?, (q.item j).readyTime ≤ (entry e).readyTime)
    (hback : ∀ j ∈ back.head?, (entry e).readyTime < (q.item j).readyTime) : q'.Sorted := by
  obtain ⟨hbefore, hafter⟩ := h.around hlist hfront hback
  have hne : ∀ j ∈ q.readyList, q'.item j = q.item j := fun j hj =>
    Consistent.item_ne hentries fun heq => hi (heq ▸ hj)
  unfold Sorted at h ⊢
  rw [hready]
  refine pairwise_insert ?_ ?_ ?_
  · rw [← hlist]
    exact pairwise_entries (R := fun a b => a.readyTime ≤ b.readyTime) hentries hi h
  · intro j hj
    rw [hne j (hlist ▸ List.mem_append_left _ hj), Consistent.item_same hentries]
    exact hbefore j hj
  · intro j hj
    rw [hne j (hlist ▸ List.mem_append_right _ hj), Consistent.item_same hentries]
    exact le_of_lt (hafter j hj)

theorem Fifo.add (h : q.Fifo) (hsorted : q.Sorted) {front back : List ℕ} (hi : i ∉ q.readyList)
    (hlist : q.readyList = front ++ back) (hready : q'.readyList = front ++ i :: back)
    (hentries : q'.entries = Function.update q.entries i e)
    (hfront : ∀ j ∈ front.getLast?, (q.item j).readyTime ≤ (entry e).readyTime)
    (hback : ∀ j ∈ back.head?, (entry e).readyTime < (q.item j).readyTime)
    (horder : ∀ j ∈ q.readyList, (q.item j).order < (entry e).order)
    (htime : ∀ j ∈ q.readyList, matches' (entry e) (q.item j).blkAddr (q.item j).isSecure = true →
      (q.item j).readyTime ≤ (entry e).readyTime) : q'.Fifo := by
  obtain ⟨-, hafter⟩ := hsorted.around hlist hfront hback
  have hne : ∀ j ∈ q.readyList, q'.item j = q.item j := fun j hj =>
    Consistent.item_ne hentries fun heq => hi (heq ▸ hj)
  unfold Fifo at h ⊢
  rw [hready]
  refine pairwise_insert ?_ ?_ ?_
  · rw [← hlist]
    exact pairwise_entries (R := fun a b => matches' a b.blkAddr b.isSecure = true →
      a.order < b.order)
      hentries hi h
  · intro j hj _
    have hin : j ∈ q.readyList := hlist ▸ List.mem_append_left _ hj
    rw [hne j hin, Consistent.item_same hentries]
    exact horder j hin
  · intro j hj hmatch
    have hin : j ∈ q.readyList := hlist ▸ List.mem_append_right _ hj
    rw [hne j hin, Consistent.item_same hentries] at hmatch
    exact absurd (htime j hin hmatch) (Nat.not_le.2 (hafter j hj))

/-! ### The searches -/

theorem matches_iff {a : QueueEntry} {blkAddr : BitVec 64} {isSecure : Bool} :
    matches' a blkAddr isSecure = true ↔ a.blkAddr = blkAddr ∧ a.isSecure = isSecure := by
  simp [matches']

/-- What a search of the allocated entries finds. -/
theorem searchMatch_spec (blkAddr : BitVec 64) (isSecure ignoreUncacheable : Bool) {l : List ℕ}
    (h : ∀ i ∈ l, hasTargets (q.entries i) = true) : ∃ found,
      q.searchMatch blkAddr isSecure ignoreUncacheable l = some found ∧
      (∀ i ∈ found, i ∈ l ∧ matches' (q.item i) blkAddr isSecure = true ∧
        (ignoreUncacheable = true → (q.item i).isUncacheable = false)) ∧
      (found = none → ∀ i ∈ l, matches' (q.item i) blkAddr isSecure = true →
        ignoreUncacheable = true ∧ (q.item i).isUncacheable = true) := by
  induction l with
  | nil => exact ⟨none, rfl, by simp, by simp⟩
  | cons i l ih =>
      obtain ⟨found, hfound, hsome, hnone⟩ := ih fun j hj => h j (List.mem_cons_of_mem _ hj)
      unfold searchMatch
      split
      · next hskip =>
          rw [Bool.and_eq_true] at hskip
          refine ⟨found, hfound, fun j hj => ?_, fun hn j hj hmatch => ?_⟩
          · obtain ⟨hin, hrest⟩ := hsome j hj
            exact ⟨List.mem_cons_of_mem _ hin, hrest⟩
          · rcases List.mem_cons.1 hj with rfl | hj
            · exact hskip
            · exact hnone hn j hj hmatch
      · next hkeep =>
          rw [if_neg (by simp [h i List.mem_cons_self])]
          split
          · next hmatch =>
              refine ⟨some i, rfl, fun j hj => ?_, fun hn => by cases hn⟩
              rw [Option.mem_some_iff] at hj
              subst hj
              refine ⟨List.mem_cons_self, hmatch, fun hignore => ?_⟩
              simpa [hignore] using hkeep
          · next hmatch =>
              refine ⟨found, hfound, fun j hj => ?_, fun hn j hj hmatch' => ?_⟩
              · obtain ⟨hin, hrest⟩ := hsome j hj
                exact ⟨List.mem_cons_of_mem _ hin, hrest⟩
              · rcases List.mem_cons.1 hj with rfl | hj
                · exact absurd hmatch' hmatch
                · exact hnone hn j hj hmatch'

/-- A search of the entries that were not sent finds the first one for its block. -/
theorem searchPending_eq {ε' : Type*} [QueueItem ε'] {e' : ε'} (htargets : hasTargets e' = true)
    {l : List ℕ} (h : ∀ i ∈ l, hasTargets (q.entries i) = true) : q.searchPending e' l =
      some (l.find? fun i => matches' (entry e') (q.item i).blkAddr (q.item i).isSecure) := by
  induction l with
  | nil => rfl
  | cons i l ih =>
      have hrest := ih fun j hj => h j (List.mem_cons_of_mem _ hj)
      unfold searchPending
      rw [if_neg (by simp [h i List.mem_cons_self, htargets])]
      split
      · next hmatch => simp only [List.find?_cons, hmatch]
      · next hmatch => simp only [List.find?_cons, Bool.eq_false_of_not_eq_true hmatch, hrest]

namespace Consistent

/-- What is found for a block: no entry of a consistent queue is without targets. -/
theorem findMatch_spec (h : q.Consistent) (blkAddr : BitVec 64)
    (isSecure ignoreUncacheable : Bool) : ∃ found,
      q.findMatch blkAddr isSecure ignoreUncacheable = some found ∧
      (∀ i ∈ found, i ∈ q.allocatedList ∧ matches' (q.item i) blkAddr isSecure = true ∧
        (ignoreUncacheable = true → (q.item i).isUncacheable = false)) ∧
      (found = none → ∀ i ∈ q.allocatedList, matches' (q.item i) blkAddr isSecure = true →
        ignoreUncacheable = true ∧ (q.item i).isUncacheable = true) :=
  searchMatch_spec blkAddr isSecure ignoreUncacheable h.targets

variable {ε' : Type*} [QueueItem ε'] {e' : ε'}

/-- The first entry that was not sent for the block of an entry of another queue. -/
theorem findPending_eq (h : q.Consistent) (htargets : hasTargets e' = true) :
    q.findPending e' = some (q.readyList.find? fun i =>
      matches' (entry e') (q.item i).blkAddr (q.item i).isSecure) :=
  searchPending_eq htargets fun i hi => h.targets i (h.of_ready hi).1

theorem findPending_spec (h : q.Consistent) (htargets : hasTargets e' = true) : ∃ found,
    q.findPending e' = some found ∧ ∀ i ∈ found, i ∈ q.readyList ∧
      matches' (entry e') (q.item i).blkAddr (q.item i).isSecure = true := by
  refine ⟨_, h.findPending_eq htargets, fun i hi => ⟨List.mem_of_find?_eq_some hi, ?_⟩⟩
  have hfound := List.find?_some (Option.mem_def.1 hi)
  exact hfound

end Consistent

theorem getNext_eq_some {now : ℕ} (h : q.getNext now = some i) :
    (∃ rest, q.readyList = i :: rest) ∧ (q.item i).readyTime ≤ now := by
  unfold getNext at h
  rw [Option.filter_eq_some_iff] at h
  exact ⟨List.head?_eq_some_iff.1 h.1, by simpa using h.2⟩

end EntryQueue

end OpenCache
