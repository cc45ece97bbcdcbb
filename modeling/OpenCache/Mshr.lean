/-
`class mshr_table`: the table of outstanding misses, with the requests merged into each of them.

An entry is created by the first miss on an address and merged into by later ones, also after its
fill has arrived; `mark_ready` queues the address of the entry in `m_current_response`, and
`next_access` then returns the requests of the entry one by one and drops the entry with its last
request.  `mshr_entry::m_has_atomic` is never set, since no request is atomic, and is left out.

* `OpenCache.MshrTable.add`, `OpenCache.MshrTable.markReady`, `OpenCache.MshrTable.nextAccess` — the
  three transitions, with the assertions they make;
* `OpenCache.MshrTable.add_eq_ok`, `markReady_eq_ok`, `nextAccess_eq_ok` — what they do to the
  table.
-/

import OpenCache.Types
import OpenCache.AssocMap

set_option relaxedAutoImplicit false
set_option autoImplicit false

namespace OpenCache

/-- `m_data`: the merged requests of each entry. -/
abbrev MshrData := AList fun _ : NewAddrType => List Token

/-- The members of an `mshr_table` built with the given limits. -/
structure MshrTable (numEntries maxMerged : ℕ) where
  data : MshrData
  currentResponse : List NewAddrType
  maxEntriesSeen : ℕ
  maxMergedSeen : ℕ
  maxReadySeen : ℕ

namespace MshrTable

variable {numEntries maxMerged : ℕ}

/-- The constructor. -/
def init (numEntries maxMerged : ℕ) : MshrTable numEntries maxMerged := ⟨∅, [], 0, 0, 0⟩

/-- `probe`. -/
def probe (t : MshrTable numEntries maxMerged) (blockAddr : NewAddrType) : Bool :=
  (t.data.lookup blockAddr).isSome

/-- `full`. -/
def full (t : MshrTable numEntries maxMerged) (blockAddr : NewAddrType) : Bool :=
  match t.data.lookup blockAddr with
  | some list => maxMerged ≤ list.length
  | none => numEntries ≤ t.data.entries.length

/-- `access_ready`. -/
def accessReady (t : MshrTable numEntries maxMerged) : Bool := !t.currentResponse.isEmpty

/-- `empty`. -/
def empty (t : MshrTable numEntries maxMerged) : Bool :=
  t.data.entries.isEmpty && t.currentResponse.isEmpty

/-- `add`. -/
def add (t : MshrTable numEntries maxMerged) (blockAddr : NewAddrType) (mf : Token) :
    Step (MshrTable numEntries maxMerged) := do
  let list := (t.data.lookup blockAddr).getD [] ++ [mf]
  let data := t.data.insert blockAddr list
  assertThat (data.entries.length ≤ numEntries) .mshrAddEntries
  assertThat (list.length ≤ maxMerged) .mshrAddMerged
  return { t with
    data
    maxMergedSeen := max t.maxMergedSeen list.length
    maxEntriesSeen := max t.maxEntriesSeen data.entries.length }

/-- `is_read_after_write_pending`: a read after a write in the list of an entry.  The caller has
seen the entry, so `operator[]` does not create one. -/
def isReadAfterWritePending (t : MshrTable numEntries maxMerged) (isWrite : Token → Bool)
    (blockAddr : NewAddrType) : Bool :=
  (((t.data.lookup blockAddr).getD []).dropWhile fun mf => !isWrite mf).any fun mf => !isWrite mf

/-- `mark_ready`. -/
def markReady (t : MshrTable numEntries maxMerged) (blockAddr : NewAddrType) :
    Step (MshrTable numEntries maxMerged) := do
  assertThat ((t.data.lookup blockAddr).isSome = true) .markReadyNoEntry
  let currentResponse := t.currentResponse ++ [blockAddr]
  assertThat (currentResponse.length ≤ t.data.entries.length) .markReadySize
  return { t with currentResponse }

/-- `next_access`. -/
def nextAccess (t : MshrTable numEntries maxMerged) :
    Step (MshrTable numEntries maxMerged × Token) :=
  match t.currentResponse with
  | [] => .error .mshrNextAccessNotReady
  | blockAddr :: others =>
      match (t.data.lookup blockAddr).getD [] with
      | [] => .error .nextAccessEmptyList
      | result :: rest =>
          if rest.isEmpty then
            -- release entry
            .ok ({ t with data := t.data.erase blockAddr, currentResponse := others }, result)
          else .ok ({ t with data := t.data.insert blockAddr rest }, result)

/-! ### What the transitions do -/

theorem add_eq_ok {t t' : MshrTable numEntries maxMerged} {blockAddr : NewAddrType} {mf : Token}
    (h : t.add blockAddr mf = .ok t') :
    t'.data = t.data.insert blockAddr ((t.data.lookup blockAddr).getD [] ++ [mf]) ∧
      t'.currentResponse = t.currentResponse ∧
        ((t.data.lookup blockAddr).getD []).length < maxMerged := by
  obtain ⟨_, -, h⟩ := bind_eq_ok.1 h
  obtain ⟨_, hm, h⟩ := bind_eq_ok.1 h
  cases h
  have hle := assertThat_eq_ok.1 hm
  rw [List.length_append] at hle
  exact ⟨rfl, rfl, hle⟩

theorem markReady_eq_ok {t t' : MshrTable numEntries maxMerged} {blockAddr : NewAddrType}
    (h : t.markReady blockAddr = .ok t') :
    (t.data.lookup blockAddr).isSome = true ∧ t'.data = t.data ∧
      t'.currentResponse = t.currentResponse ++ [blockAddr] := by
  obtain ⟨_, hsome, h⟩ := bind_eq_ok.1 h
  obtain ⟨_, -, h⟩ := bind_eq_ok.1 h
  cases h
  exact ⟨assertThat_eq_ok.1 hsome, rfl, rfl⟩

/-- The table after the first request of the first ready entry has been returned. -/
theorem nextAccess_eq_ok {t t' : MshrTable numEntries maxMerged} {mf : Token}
    (h : t.nextAccess = .ok (t', mf)) :
    ∃ blockAddr others rest, t.currentResponse = blockAddr :: others ∧
      t.data.lookup blockAddr = some (mf :: rest) ∧
      (rest = [] ∧ t'.data = t.data.erase blockAddr ∧ t'.currentResponse = others ∨
        rest ≠ [] ∧ t'.data = t.data.insert blockAddr rest ∧
          t'.currentResponse = t.currentResponse) := by
  unfold nextAccess at h
  split at h
  · cases h
  · next blockAddr others hcur =>
      split at h
      · cases h
      · next result rest hlist =>
          have hlookup : t.data.lookup blockAddr = some (result :: rest) := by
            cases hl : t.data.lookup blockAddr with
            | none => simp [hl] at hlist
            | some l =>
                rw [hl] at hlist
                exact congrArg some hlist
          split at h
          · next hrest =>
              cases h
              exact ⟨blockAddr, others, rest, hcur, hlookup,
                Or.inl ⟨List.isEmpty_iff.1 hrest, rfl, rfl⟩⟩
          · next hrest =>
              cases h
              refine ⟨blockAddr, others, rest, hcur, hlookup, Or.inr ⟨?_, rfl, rfl⟩⟩
              rintro rfl
              exact hrest rfl

end MshrTable

end OpenCache
