/-
Doubly linked lists in place.

Every element has a pointer to the one before it and a pointer to the one after it, and the list has
a pointer to its first and to its last element.  An element is moved to either end by redirecting
the pointers of its neighbours, with a case of its own for an element that is the other end.

* `Links`, `Links.toHead`, `Links.toTail` — the pointers, and the moves;
* `Links.Orders` — the pointers hold the elements in an order;
* `Links.Orders.toHead`, `Links.Orders.toTail` — **a move dereferences no null pointer, and moves
  the element in the order**;
* `Links.Orders.prev_eq`, `Links.Orders.next_eq` — the pointers of an element, by its place.
-/

import Mathlib.Data.List.Basic
import Mathlib.Data.List.Nodup
import Mathlib.Logic.Function.Basic

set_option relaxedAutoImplicit false
set_option autoImplicit false

/-- The pointers of a doubly linked list that is not empty. -/
structure Links (ι : Type*) where
  head : ι
  tail : ι
  prev : ι → Option ι
  next : ι → Option ι

namespace Links

variable {ι : Type*}

/-- The pointers of consecutive elements, between what is before them and what is after them. -/
def Chain (prev next : ι → Option ι) : Option ι → List ι → Option ι → Prop
  | _, [], _ => True
  | p, x :: l, q => prev x = p ∧ next x = l.head?.or q ∧ Chain prev next (some x) l q

variable {prev next : ι → Option ι} {p q : Option ι} {x b : ι} {l l' : List ι}

theorem chain_append :
    Chain prev next p (l ++ l') q ↔
      Chain prev next p l (l'.head?.or q) ∧ Chain prev next (l.getLast?.or p) l' q := by
  induction l generalizing p with
  | nil => simp [Chain]
  | cons x l ih =>
      have hlast : (x :: l).getLast?.or p = l.getLast?.or (some x) := by
        rw [List.getLast?_cons]
        cases l.getLast? <;> rfl
      rw [List.cons_append, Chain, Chain, ih, hlast, List.head?_append, Option.or_assoc]
      simp only [and_assoc]

theorem Chain.congr {prev' next' : ι → Option ι} (h : Chain prev next p l q)
    (hprev : ∀ x ∈ l, prev' x = prev x) (hnext : ∀ x ∈ l, next' x = next x) :
    Chain prev' next' p l q := by
  induction l generalizing p with
  | nil => trivial
  | cons x l ih =>
      obtain ⟨hp, hn, h⟩ := h
      refine ⟨(hprev x List.mem_cons_self).trans hp, (hnext x List.mem_cons_self).trans hn, ?_⟩
      exact ih h (fun y hy => hprev y (List.mem_cons_of_mem _ hy))
        fun y hy => hnext y (List.mem_cons_of_mem _ hy)

/-- Pointers that lead to the neighbours by their places. -/
theorem Chain.of_getElem
    (hprev : ∀ i (hi : i < l.length), prev l[i] = if i = 0 then p else l[i - 1]?)
    (hnext : ∀ i (hi : i < l.length), next l[i] = l[i + 1]?.or q) : Chain prev next p l q := by
  induction l generalizing p with
  | nil => trivial
  | cons x l ih =>
      refine ⟨hprev 0 (Nat.succ_pos _), ?_, ih (fun i hi => ?_) fun i hi => ?_⟩
      · rw [List.head?_eq_getElem?]
        exact hnext 0 (Nat.succ_pos _)
      · refine (hprev (i + 1) (Nat.succ_lt_succ hi)).trans ?_
        rw [if_neg (Nat.succ_ne_zero i), Nat.add_sub_cancel]
        cases i with
        | zero => rfl
        | succ i => rfl
      · exact hnext (i + 1) (Nat.succ_lt_succ hi)

variable [DecidableEq ι]

/-- To redirect the first element's pointer back. -/
theorem Chain.update_prev (h : Chain prev next p (x :: l) q) (hx : x ∉ l) (p' : Option ι) :
    Chain (Function.update prev x p') next p' (x :: l) q := by
  obtain ⟨-, hn, h⟩ := h
  refine ⟨Function.update_self _ _ _, hn, h.congr (fun y hy => ?_) fun y _ => rfl⟩
  exact Function.update_of_ne (ne_of_mem_of_not_mem hy hx) _ _

/-- To redirect the last element's pointer on. -/
theorem Chain.update_next (h : Chain prev next p (l ++ [x]) q) (hx : x ∉ l) (q' : Option ι) :
    Chain prev (Function.update next x q') p (l ++ [x]) q' := by
  rw [chain_append] at h ⊢
  obtain ⟨h, hp, -, -⟩ := h
  refine ⟨h.congr (fun y _ => rfl) fun y hy => ?_, hp, Function.update_self _ _ _, trivial⟩
  exact Function.update_of_ne (ne_of_mem_of_not_mem hy hx) _ _

/-- The pointers hold the elements in this order. -/
structure Orders (k : Links ι) (l : List ι) : Prop where
  nodup : l.Nodup
  head : l.head? = some k.head
  tail : l.getLast? = some k.tail
  chain : Chain k.prev k.next none l none

/-- Move an element that is not the first to the front. -/
def toHead (b : ι) (k : Links ι) : Option (Links ι) := do
  let k ←
    if b = k.tail then
      if (k.next b).isNone then do
        let p ← k.prev b
        some { k with tail := p, next := Function.update k.next p none }
      else none
    else do
      let p ← k.prev b
      let n ← k.next b
      some { k with
        next := Function.update k.next p (some n), prev := Function.update k.prev n (some p) }
  some { k with
    next := Function.update k.next b (some k.head)
    prev := Function.update (Function.update k.prev b none) k.head (some b)
    head := b }

/-- Move an element that is not the last to the back. -/
def toTail (b : ι) (k : Links ι) : Option (Links ι) := do
  let k ←
    if b = k.head then
      if (k.prev b).isNone then do
        let n ← k.next b
        some { k with head := n, prev := Function.update k.prev n none }
      else none
    else do
      let p ← k.prev b
      let n ← k.next b
      some { k with
        next := Function.update k.next p (some n), prev := Function.update k.prev n (some p) }
  some { k with
    prev := Function.update k.prev b (some k.tail)
    next := Function.update (Function.update k.next b none) k.tail (some b)
    tail := b }

/-! ### The pointers of an element -/

omit [DecidableEq ι] in
theorem chain_middle {pre post : List ι} (h : Chain prev next none (pre ++ b :: post) none) :
    prev b = pre.getLast? ∧ next b = post.head? := by
  obtain ⟨-, hp, hn, -⟩ := chain_append.1 h
  exact ⟨hp.trans (Option.or_none), hn.trans (Option.or_none)⟩

omit [DecidableEq ι] in
theorem Orders.prev_eq {k : Links ι} (h : k.Orders l) {i : ℕ} (hi : i < l.length) :
    k.prev l[i] = if i = 0 then none else l[i - 1]? := by
  have hsplit : l = l.take i ++ l[i] :: l.drop (i + 1) := by simp
  have hmiddle := (chain_middle (hsplit ▸ h.chain)).1
  rw [hmiddle, List.getLast?_take]
  split
  · rfl
  · have hlt : i - 1 < l.length := by omega
    rw [List.getElem?_eq_getElem hlt]
    rfl

omit [DecidableEq ι] in
theorem Orders.next_eq {k : Links ι} (h : k.Orders l) {i : ℕ} (hi : i < l.length) :
    k.next l[i] = l[i + 1]? := by
  have hsplit : l = l.take i ++ l[i] :: l.drop (i + 1) := by simp
  have hmiddle := (chain_middle (hsplit ▸ h.chain)).2
  rw [hmiddle, List.head?_drop]

/-! ### The moves -/

/-- An element in the middle, or at one end, is bypassed by the pointers of its neighbours. -/
theorem chain_unlink {pre post : List ι} (h : Chain prev next none (pre ++ b :: post) none)
    (hnodup : (pre ++ b :: post).Nodup) :
    Chain (post.head?.elim prev fun n => Function.update prev n pre.getLast?)
      (pre.getLast?.elim next fun p => Function.update next p post.head?)
      none (pre ++ post) none := by
  obtain ⟨hpre, -, -, hpost⟩ := chain_append.1 h
  obtain ⟨hnodup₁, hnodup₂, hdisjoint⟩ := List.nodup_append'.1 hnodup
  rw [chain_append]
  constructor
  · -- the elements before it: only the last of them is redirected
    rw [Option.or_none]
    have hprev : ∀ x ∈ pre,
        (post.head?.elim prev fun n => Function.update prev n pre.getLast?) x = prev x := by
      intro x hx
      cases post with
      | nil => rfl
      | cons n post =>
          refine Function.update_of_ne (fun heq => ?_) _ _
          exact hdisjoint hx (List.mem_cons_of_mem _ (heq ▸ List.mem_cons_self))
    rcases List.eq_nil_or_concat' pre with rfl | ⟨pre, x, rfl⟩
    · trivial
    · have hx : x ∉ pre := fun hx =>
        (List.nodup_append'.1 hnodup₁).2.2 hx (List.mem_singleton_self x)
      refine Chain.congr (hpre.update_next hx post.head?) hprev fun y _ => ?_
      rw [List.getLast?_concat]
      rfl
  · -- the elements after it: only the first of them is redirected
    rw [Option.or_none]
    have hnext : ∀ x ∈ post,
        (pre.getLast?.elim next fun p => Function.update next p post.head?) x = next x := by
      intro x hx
      cases hlast : pre.getLast? with
      | none => rfl
      | some p =>
          refine Function.update_of_ne (fun heq => ?_) _ _
          exact hdisjoint (List.mem_of_getLast? hlast) (List.mem_cons_of_mem _ (heq ▸ hx))
    cases post with
    | nil => trivial
    | cons n post =>
        have hn : n ∉ post := (List.nodup_cons.1 (List.nodup_cons.1 hnodup₂).2).1
        exact Chain.congr (hpost.update_prev hn pre.getLast?) (fun y _ => rfl) hnext

theorem chain_push_front (h : Chain prev next none l none) (hnodup : l.Nodup) (hb : b ∉ l) {y : ι}
    (hy : l.head? = some y) :
    Chain (Function.update (Function.update prev b none) y (some b))
      (Function.update next b (some y)) none (b :: l) none := by
  obtain ⟨l, rfl⟩ : ∃ l', l = y :: l' := by
    cases l with
    | nil => cases hy
    | cons x l => exact ⟨l, by cases hy; rfl⟩
  have hby : b ≠ y := fun heq => hb (heq ▸ List.mem_cons_self)
  refine ⟨?_, Function.update_self _ _ _, ?_⟩
  · rw [Function.update_of_ne hby, Function.update_self]
  · refine Chain.update_prev (Chain.congr h ?_ ?_) (List.nodup_cons.1 hnodup).1 _
    · exact fun x hx => Function.update_of_ne (ne_of_mem_of_not_mem hx hb) _ _
    · exact fun x hx => Function.update_of_ne (ne_of_mem_of_not_mem hx hb) _ _

theorem chain_push_back (h : Chain prev next none l none) (hnodup : l.Nodup) (hb : b ∉ l) {y : ι}
    (hy : l.getLast? = some y) :
    Chain (Function.update prev b (some y))
      (Function.update (Function.update next b none) y (some b)) none (l ++ [b]) none := by
  obtain ⟨l, rfl⟩ : ∃ l', l = l' ++ [y] := by
    rcases List.eq_nil_or_concat' l with rfl | ⟨l, x, rfl⟩
    · cases hy
    · rw [List.getLast?_concat] at hy
      exact ⟨l, by cases hy; rfl⟩
  have hby : b ≠ y := by
    rintro rfl
    exact hb (List.mem_append_right _ (List.mem_singleton_self b))
  have hyl : y ∉ l := fun hmem => (List.nodup_append'.1 hnodup).2.2 hmem (List.mem_singleton_self y)
  rw [chain_append]
  refine ⟨?_, ?_, ?_, trivial⟩
  · refine Chain.update_next (Chain.congr h ?_ ?_) hyl _
    · exact fun x hx => Function.update_of_ne (ne_of_mem_of_not_mem hx hb) _ _
    · exact fun x hx => Function.update_of_ne (ne_of_mem_of_not_mem hx hb) _ _
  · rw [List.getLast?_concat, Function.update_self]
    rfl
  · rw [Function.update_of_ne hby, Function.update_self]
    rfl

/-- An element of an order, with what is before and what is after it. -/
theorem Orders.split {k : Links ι} (h : k.Orders l) (hb : b ∈ l) :
    ∃ pre post, l = pre ++ b :: post ∧ l.erase b = pre ++ post ∧ b ∉ pre ∧ b ∉ post := by
  obtain ⟨pre, post, rfl⟩ := List.append_of_mem hb
  obtain ⟨-, hnodup, hdisjoint⟩ := List.nodup_append'.1 h.nodup
  have hpre : b ∉ pre := fun hmem => hdisjoint hmem List.mem_cons_self
  refine ⟨pre, post, rfl, ?_, hpre, (List.nodup_cons.1 hnodup).1⟩
  rw [List.erase_append_right _ hpre, List.erase_cons_head]

/-- **A move to the front.** -/
theorem Orders.toHead {k : Links ι} (h : k.Orders l) (hb : b ∈ l) (hne : b ≠ k.head) :
    ∃ k', k.toHead b = some k' ∧ k'.Orders (b :: l.erase b) := by
  obtain ⟨pre, post, rfl, herase, hbpre, hbpost⟩ := h.split hb
  obtain ⟨hprev, hnext⟩ := chain_middle h.chain
  have hunlink := chain_unlink h.chain h.nodup
  have hnodup : (pre ++ post).Nodup := herase ▸ h.nodup.erase b
  have hb' : b ∉ pre ++ post := fun hmem => (List.mem_append.1 hmem).elim hbpre hbpost
  obtain ⟨y, pre', rfl⟩ : ∃ y pre', pre = y :: pre' := by
    cases pre with
    | nil => exact absurd (Option.some.inj h.head) hne
    | cons y pre' => exact ⟨y, pre', rfl⟩
  have hy : k.head = y := (Option.some.inj h.head).symm
  obtain ⟨p, hp⟩ : ∃ p, (y :: pre').getLast? = some p := ⟨_, List.getLast?_cons⟩
  rw [herase]
  unfold Links.toHead
  cases post with
  | nil =>
      have htail : b = k.tail := by
        have := h.tail
        rw [List.getLast?_concat] at this
        exact Option.some.inj this
      rw [if_pos htail, hnext, hprev, hp]
      rw [hp] at hunlink
      refine ⟨_, rfl, List.nodup_cons.2 ⟨hb', hnodup⟩, rfl, ?_, ?_⟩
      · rw [List.append_nil, List.getLast?_cons, hp]
        rfl
      · rw [hy]
        exact chain_push_front hunlink hnodup hb' rfl
  | cons n post =>
      have htail : b ≠ k.tail := by
        rintro rfl
        have := h.tail
        rw [List.getLast?_append, List.getLast?_cons_cons] at this
        cases hlast : (n :: post).getLast? with
        | none => exact absurd (List.getLast?_eq_none_iff.1 hlast) (List.cons_ne_nil _ _)
        | some z =>
            rw [hlast] at this
            exact hbpost (Option.some.inj this ▸ List.mem_of_getLast? hlast)
      rw [if_neg htail, hnext, hprev, hp]
      rw [hp] at hunlink
      refine ⟨_, rfl, List.nodup_cons.2 ⟨hb', hnodup⟩, rfl, ?_, ?_⟩
      · have := h.tail
        rw [List.getLast?_append, List.getLast?_cons_cons] at this
        rw [List.getLast?_cons, List.getLast?_append, this]
        rfl
      · rw [hy]
        exact chain_push_front hunlink hnodup hb' rfl

/-- **A move to the back.** -/
theorem Orders.toTail {k : Links ι} (h : k.Orders l) (hb : b ∈ l) (hne : b ≠ k.tail) :
    ∃ k', k.toTail b = some k' ∧ k'.Orders (l.erase b ++ [b]) := by
  obtain ⟨pre, post, rfl, herase, hbpre, hbpost⟩ := h.split hb
  obtain ⟨hprev, hnext⟩ := chain_middle h.chain
  have hunlink := chain_unlink h.chain h.nodup
  have hnodup : (pre ++ post).Nodup := herase ▸ h.nodup.erase b
  have hb' : b ∉ pre ++ post := fun hmem => (List.mem_append.1 hmem).elim hbpre hbpost
  obtain ⟨n, post', rfl⟩ : ∃ n post', post = n :: post' := by
    cases post with
    | nil =>
        have := h.tail
        rw [List.getLast?_concat] at this
        exact absurd (Option.some.inj this) hne
    | cons n post' => exact ⟨n, post', rfl⟩
  have hlast : (pre ++ n :: post').getLast? = some k.tail := by
    have := h.tail
    rwa [List.getLast?_append, List.getLast?_cons_cons, ← List.getLast?_append] at this
  rw [herase]
  unfold Links.toTail
  cases pre with
  | nil =>
      have hhead : b = k.head := Option.some.inj h.head
      rw [if_pos hhead, hnext, hprev]
      refine ⟨_, rfl, ?_, ?_, List.getLast?_concat, ?_⟩
      · exact List.nodup_append'.2 ⟨hnodup, List.nodup_singleton b, fun x hx hxb =>
          hb' (List.mem_singleton.1 hxb ▸ hx)⟩
      · rfl
      · exact chain_push_back hunlink hnodup hb' hlast
  | cons y pre =>
      have hhead : b ≠ k.head := fun heq => hbpre (by
        rw [heq, ← Option.some.inj h.head]
        exact List.mem_cons_self)
      obtain ⟨p, hp⟩ : ∃ p, (y :: pre).getLast? = some p := ⟨_, List.getLast?_cons⟩
      rw [if_neg hhead, hnext, hprev, hp]
      rw [hp] at hunlink
      refine ⟨_, rfl, ?_, ?_, List.getLast?_concat, ?_⟩
      · exact List.nodup_append'.2 ⟨hnodup, List.nodup_singleton b, fun x hx hxb =>
          hb' (List.mem_singleton.1 hxb ▸ hx)⟩
      · exact h.head
      · exact chain_push_back hunlink hnodup hb' hlast

end Links
