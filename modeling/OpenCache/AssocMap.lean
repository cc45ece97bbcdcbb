/-
Facts about association lists, Mathlib's `AList`, that are used to account for what a map holds.

A map is compared with what it was before an insertion or an erasure through its list of entries,
up to reordering: this is the form in which counts and sums over a map are computed.

* `AList.entries_perm_of_lookup` — a map is the entry at a key and the map without that key;
* `AList.countP_insert`, `AList.countP_erase` — counting the entries with a property;
* `AList.values`, `AList.values_insert_append`, `AList.values_of_lookup` — the elements of the
  lists held by a map of lists.
-/

import Mathlib.Data.List.AList

set_option relaxedAutoImplicit false
set_option autoImplicit false

namespace AList

variable {α : Type*} [DecidableEq α]

section General

variable {β : α → Type*}

/-- A map is the entry at one of its keys and the map without that key. -/
theorem entries_perm_of_lookup {s : AList β} {a : α} {b : β a} (h : s.lookup a = some b) :
    s.entries.Perm (⟨a, b⟩ :: (s.erase a).entries) := by
  have hmem : a ∈ s.entries.keys := mem_keys.1 (lookup_isSome.1 (by simp [h]))
  obtain ⟨b', l₁, l₂, hnot, hl, herase⟩ := List.exists_of_kerase hmem
  have hb : b' = b := by
    have hb' : s.lookup a = some b' := List.mem_dlookup s.nodupKeys (by rw [hl]; simp)
    rw [h] at hb'
    exact (Option.some_inj.1 hb').symm
  subst hb
  change s.entries.Perm (⟨a, b'⟩ :: List.kerase a s.entries)
  rw [herase, hl]
  exact List.perm_middle

theorem length_erase_of_lookup {s : AList β} {a : α} {b : β a} (h : s.lookup a = some b) :
    s.entries.length = (s.erase a).entries.length + 1 :=
  (entries_perm_of_lookup h).length_eq

/-- Counting the entries of a map after an insertion. -/
theorem countP_insert (p : Sigma β → Bool) (s : AList β) (a : α) (b : β a) :
    (s.insert a b).entries.countP p =
      (s.erase a).entries.countP p + if p ⟨a, b⟩ then 1 else 0 := by
  rw [entries_insert, List.countP_cons]
  rfl

/-- Counting the entries of a map after an erasure. -/
theorem countP_of_lookup (p : Sigma β → Bool) {s : AList β} {a : α} {b : β a}
    (h : s.lookup a = some b) :
    s.entries.countP p = (s.erase a).entries.countP p + if p ⟨a, b⟩ then 1 else 0 := by
  rw [(entries_perm_of_lookup h).countP_eq, List.countP_cons]

/-- A map that has all the entries of another counts at least as many. -/
theorem countP_le_of_lookup (p : Sigma β → Bool) {s s' : AList β}
    (h : ∀ a b, s.lookup a = some b → s'.lookup a = some b) :
    s.entries.countP p ≤ s'.entries.countP p := by
  have hsub : s.entries ⊆ s'.entries := by
    rintro ⟨a, b⟩ he
    exact mem_lookup_iff.1 (h a b (mem_lookup_iff.2 he))
  have hnodup : s.entries.Nodup := s.nodupKeys.nodup
  exact (List.subperm_of_subset hnodup hsub).countP_le p

theorem erase_of_notMem {s : AList β} {a : α} (h : a ∉ s) : s.erase a = s :=
  AList.ext (List.kerase_of_notMem_keys h)

/-- An insertion is forgotten by an erasure at the same key. -/
theorem erase_insert (s : AList β) (a : α) (b : β a) : (s.insert a b).erase a = s.erase a :=
  AList.ext (List.kerase_cons_eq rfl)

end General

section Values

variable {β : Type*}

/-- The elements of the lists held by a map of lists. -/
def values (s : AList fun _ : α => List β) : List β := s.entries.flatMap fun e => e.2

theorem mem_values {s : AList fun _ : α => List β} {x : β} :
    x ∈ s.values ↔ ∃ a l, s.lookup a = some l ∧ x ∈ l := by
  rw [values, List.mem_flatMap]
  constructor
  · rintro ⟨⟨a, l⟩, he, hx⟩
    exact ⟨a, l, List.mem_dlookup_iff s.nodupKeys |>.2 he, hx⟩
  · rintro ⟨a, l, hl, hx⟩
    exact ⟨⟨a, l⟩, List.mem_dlookup_iff s.nodupKeys |>.1 hl, hx⟩

theorem values_insert (s : AList fun _ : α => List β) (a : α) (l : List β) :
    (s.insert a l).values = l ++ (s.erase a).values := by
  rw [values, entries_insert, List.flatMap_cons]
  rfl

/-- The elements held by a map are those at one of its keys and the others. -/
theorem values_of_lookup {s : AList fun _ : α => List β} {a : α} {l : List β}
    (h : s.lookup a = some l) : s.values.Perm (l ++ (s.erase a).values) := by
  have hperm := (entries_perm_of_lookup h).flatMap_right fun e => e.2
  rwa [List.flatMap_cons] at hperm

/-- Appending to the list at a key, which may be missing, adds one element. -/
theorem values_insert_append (s : AList fun _ : α => List β) (a : α) (x : β) :
    (s.insert a ((s.lookup a).getD [] ++ [x])).values.Perm (x :: s.values) := by
  rw [values_insert]
  cases hl : s.lookup a with
  | none =>
      rw [erase_of_notMem (lookup_eq_none.1 hl)]
      exact List.Perm.refl _
  | some l =>
      have hperm : (l ++ [x] ++ (s.erase a).values).Perm (x :: (l ++ (s.erase a).values)) := by
        rw [List.append_assoc]
        exact List.perm_middle
      exact hperm.trans ((values_of_lookup hl).symm.cons x)

/-- In a map that holds every element once, an element is in the list of one key. -/
theorem eq_of_mem_of_nodup {s : AList fun _ : α => List β} (hnodup : s.values.Nodup) {a a' : α}
    {l l' : List β} (hl : s.lookup a = some l) (hl' : s.lookup a' = some l') {x : β} (hx : x ∈ l)
    (hx' : x ∈ l') : a = a' := by
  by_contra hne
  have hrest : x ∈ (s.erase a).values :=
    mem_values.2 ⟨a', l', (lookup_erase_ne (Ne.symm hne)).trans hl', hx'⟩
  exact (List.nodup_append.1 ((values_of_lookup hl).nodup_iff.1 hnodup)).2.2 x hx x hrest rfl

end Values

end AList
