/-
**Bounded ring buffers.**

A ring buffer keeps its entries in an array of fixed size, between the slot of the oldest entry and
the slot that the next entry goes to; both move up by one and wrap around.  The structure carries
the facts that make the buffer a queue, so its entries form a list: a push appends to the list, a
pop takes the first entry, and a change of an occupied slot changes one entry.

* `RingBuffer` — a ring buffer with its invariant;
* `RingBuffer.toList` — its entries, oldest first;
* `RingBuffer.oldest`, `RingBuffer.first?` — the entry that a pop takes;
* `RingBuffer.toList_push`, `RingBuffer.toList_pop`, `RingBuffer.toList_modify` — **the
  operations on the list**;
* `RingBuffer.slot_injective` — occupied slots are different.
-/

import Mathlib.Data.List.Basic
import Mathlib.Data.List.FinRange
import Mathlib.Data.Nat.ModEq
import Mathlib.Logic.Function.Basic

set_option relaxedAutoImplicit false
set_option autoImplicit false

/-- A ring buffer of a given size.  A slot is `none` until it is written; a pop leaves the entry in
its slot. -/
structure RingBuffer (α : Type*) (size : ℕ) where
  data : ℕ → Option α
  /-- The slot of the next entry. -/
  head : ℕ
  /-- The slot of the oldest entry. -/
  tail : ℕ
  /-- The number of entries. -/
  num : ℕ
  /-- The greatest number of entries so far. -/
  maxNum : ℕ
  num_le : num ≤ size
  num_le_maxNum : num ≤ maxNum
  tail_lt : 0 < size → tail < size
  head_eq : head = (tail + num) % size
  filled : ∀ k < num, (data ((tail + k) % size)).isSome = true

namespace RingBuffer

variable {α : Type*} {size : ℕ}

/-- The empty buffer. -/
def empty (α : Type*) (size : ℕ) : RingBuffer α size where
  data := fun _ => none
  head := 0
  tail := 0
  num := 0
  maxNum := 0
  num_le := Nat.zero_le size
  num_le_maxNum := le_rfl
  tail_lt := id
  head_eq := (Nat.zero_mod size).symm
  filled := fun _ hk => absurd hk (Nat.not_lt_zero _)

/-- `full`. -/
def full (r : RingBuffer α size) : Bool := r.num = size

/-- `empty`. -/
def isEmpty (r : RingBuffer α size) : Bool := r.num = 0

/-- The slot of the entry at a position, counted from the oldest. -/
def slot (r : RingBuffer α size) (k : ℕ) : ℕ := (r.tail + k) % size

/-- The entries, oldest first. -/
def toList (r : RingBuffer α size) : List α :=
  (List.finRange r.num).map fun k : Fin r.num => (r.data (r.slot k)).get (r.filled k k.isLt)

variable (r : RingBuffer α size)

@[simp] theorem length_toList : r.toList.length = r.num := by
  simp [toList]

theorem toList_length_le : r.toList.length ≤ size := by
  rw [length_toList]
  exact r.num_le

theorem toList_eq_nil : r.toList = [] ↔ r.num = 0 := by
  rw [← List.length_eq_zero_iff, length_toList]

/-- An entry is in its slot. -/
theorem data_slot {k : ℕ} (hk : k < r.num) :
    r.data (r.slot k) = r.toList[k]? := by
  have hlength : k < r.toList.length := by rwa [length_toList]
  rw [List.getElem?_eq_getElem hlength]
  simp [toList]

theorem slot_lt (h : 0 < size) (k : ℕ) : r.slot k < size := Nat.mod_lt _ h

theorem slot_zero (h : 0 < size) : r.slot 0 = r.tail := Nat.mod_eq_of_lt (r.tail_lt h)

/-- Occupied slots are different. -/
theorem slot_injective {j k : ℕ} (hj : j < size) (hk : k < size) (h : r.slot j = r.slot k) :
    j = k := by
  have hmod : (r.tail + j) % size = (r.tail + k) % size := h
  have hjk : Nat.ModEq size j k := Nat.ModEq.add_left_cancel' r.tail hmod
  exact Nat.ModEq.eq_of_lt_of_lt hjk hj hk

/-! ### Push -/

/-- `push`: the buffer with one more entry. -/
def push (r : RingBuffer α size) (e : α) (h : r.num < size) : RingBuffer α size where
  data := Function.update r.data r.head (some e)
  head := (r.head + 1) % size
  tail := r.tail
  num := r.num + 1
  maxNum := max r.maxNum (r.num + 1)
  num_le := h
  num_le_maxNum := le_max_right _ _
  tail_lt := r.tail_lt
  head_eq := by
    rw [r.head_eq, Nat.mod_add_mod, Nat.add_assoc]
  filled := by
    intro k hk
    rcases Nat.lt_succ_iff_lt_or_eq.1 hk with hlt | rfl
    · have hne : (r.tail + k) % size ≠ r.head := by
        rw [r.head_eq]
        intro heq
        exact Nat.ne_of_lt hlt (r.slot_injective (hlt.trans h) h heq)
      rw [Function.update_of_ne hne]
      exact r.filled k hlt
    · rw [← r.head_eq, Function.update_self]
      rfl

/-- The slot that a push returns is that of the new entry. -/
theorem head_eq_slot : r.head = r.slot r.num := r.head_eq

@[simp] theorem slot_push (e : α) (h : r.num < size) (k : ℕ) : (r.push e h).slot k = r.slot k := rfl

/-- The entries as far as a position. -/
theorem toList_getElem? (k : ℕ) : r.toList[k]? = if k < r.num then r.data (r.slot k) else none := by
  split
  · next hk => rw [r.data_slot hk]
  · next hk => exact List.getElem?_eq_none (by rw [length_toList]; omega)

theorem toList_push (e : α) (h : r.num < size) : (r.push e h).toList = r.toList ++ [e] := by
  refine List.ext_getElem? fun k => ?_
  rw [toList_getElem?, slot_push]
  rcases Nat.lt_trichotomy k r.num with hk | rfl | hk
  · have hne : r.slot k ≠ r.head := by
      rw [head_eq_slot]
      exact fun heq => Nat.ne_of_lt hk (r.slot_injective (hk.trans h) h heq)
    rw [if_pos (show k < (r.push e h).num from Nat.lt_succ_of_lt hk),
      List.getElem?_append_left (by rw [length_toList]; exact hk), toList_getElem?, if_pos hk]
    exact Function.update_of_ne hne _ _
  · rw [if_pos (show r.num < (r.push e h).num from Nat.lt_succ_self _), ← head_eq_slot,
      List.getElem?_append_right (by rw [length_toList]), length_toList, Nat.sub_self]
    exact Function.update_self _ _ _
  · rw [if_neg (show ¬k < (r.push e h).num from Nat.not_lt.2 hk), List.getElem?_eq_none]
    rw [List.length_append, length_toList, List.length_singleton]
    exact hk

/-! ### Pop -/

/-- `pop`: the buffer without its oldest entry. -/
def pop (r : RingBuffer α size) (h : 0 < r.num) : RingBuffer α size where
  data := r.data
  head := r.head
  tail := (r.tail + 1) % size
  num := r.num - 1
  maxNum := r.maxNum
  num_le := (Nat.sub_le _ _).trans r.num_le
  num_le_maxNum := (Nat.sub_le _ _).trans r.num_le_maxNum
  tail_lt := Nat.mod_lt _
  head_eq := by
    rw [r.head_eq, Nat.mod_add_mod]
    congr 1
    omega
  filled := by
    intro k hk
    have hnext := r.filled (k + 1) (by omega)
    rw [Nat.mod_add_mod, Nat.add_assoc, Nat.add_comm 1 k]
    exact hnext

/-- The entry at a position moves up by one. -/
theorem slot_pop (h : 0 < r.num) (k : ℕ) : (r.pop h).slot k = r.slot (k + 1) := by
  change ((r.tail + 1) % size + k) % size = (r.tail + (k + 1)) % size
  rw [Nat.mod_add_mod, Nat.add_assoc, Nat.add_comm 1 k]

/-- `m_data[m_tail]` is the oldest entry. -/
theorem data_tail (h : 0 < r.num) : r.data r.tail = r.toList[0]? := by
  rw [toList_getElem?, if_pos h]
  have hsize : 0 < size := h.trans_le r.num_le
  rw [slot, Nat.add_zero, Nat.mod_eq_of_lt (r.tail_lt hsize)]

theorem isSome_data_tail (h : 0 < r.num) : (r.data r.tail).isSome = true := by
  rw [data_tail r h, List.getElem?_eq_getElem (by rw [length_toList]; exact h)]
  rfl

/-- The entry that `pop` returns. -/
def oldest (r : RingBuffer α size) (h : 0 < r.num) : α :=
  (r.data r.tail).get (r.isSome_data_tail h)

/-- The oldest entry, if there is one. -/
def first? (r : RingBuffer α size) : Option α := if 0 < r.num then r.data r.tail else none

theorem first?_eq_head? : r.first? = r.toList.head? := by
  rw [List.head?_eq_getElem?, first?]
  split
  · next h => exact r.data_tail h
  · next h =>
      rw [toList_getElem?, if_neg h]

/-- **A pop takes the first entry.** -/
theorem toList_pop (h : 0 < r.num) : r.toList = r.oldest h :: (r.pop h).toList := by
  have htail : (r.pop h).toList = r.toList.tail := by
    refine List.ext_getElem? fun k => ?_
    rw [List.getElem?_tail, toList_getElem?, toList_getElem?, slot_pop]
    have hiff : k < (r.pop h).num ↔ k + 1 < r.num := by
      change k < r.num - 1 ↔ _
      omega
    simp only [hiff]
    rfl
  have hhead : r.toList.head? = some (r.oldest h) := by
    rw [← first?_eq_head?, first?, if_pos h, oldest, Option.some_get]
  rw [htail, List.cons_head?_tail hhead]

/-! ### Changing an entry -/

/-- A change of an entry through the reference that `peek(index)` returns. -/
def modify (r : RingBuffer α size) (index : ℕ) (f : α → α) : RingBuffer α size where
  data := Function.update r.data index ((r.data index).map f)
  head := r.head
  tail := r.tail
  num := r.num
  maxNum := r.maxNum
  num_le := r.num_le
  num_le_maxNum := r.num_le_maxNum
  tail_lt := r.tail_lt
  head_eq := r.head_eq
  filled := by
    intro k hk
    by_cases hindex : (r.tail + k) % size = index
    · rw [hindex, Function.update_self, Option.isSome_map, ← hindex]
      exact r.filled k hk
    · rw [Function.update_of_ne hindex]
      exact r.filled k hk

@[simp] theorem slot_modify (index : ℕ) (f : α → α) (k : ℕ) :
    (r.modify index f).slot k = r.slot k := rfl

/-- A change of an occupied slot changes the entry in it. -/
theorem toList_modify {j : ℕ} (hj : j < r.num) (f : α → α) :
    (r.modify (r.slot j) f).toList = r.toList.modify j f := by
  refine List.ext_getElem? fun k => ?_
  rw [toList_getElem?, slot_modify, List.getElem?_modify, toList_getElem?]
  by_cases hk : k < r.num
  · rw [if_pos (show k < (r.modify (r.slot j) f).num from hk), if_pos hk]
    by_cases hjk : j = k
    · subst hjk
      simp only [if_true]
      exact Function.update_self _ _ _
    · have hne : r.slot k ≠ r.slot j := by
        have hle := r.num_le
        exact fun heq => hjk (r.slot_injective (by omega) (by omega) heq).symm
      simp only [if_neg hjk, Option.map_eq_map, Option.map_id']
      exact Function.update_of_ne hne _ _
  · rw [if_neg (show ¬k < (r.modify (r.slot j) f).num from hk), if_neg hk]
    simp

end RingBuffer
