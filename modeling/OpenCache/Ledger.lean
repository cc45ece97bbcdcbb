/-
Ledgers: what a server owes to its clients.

A server that accepts requests and answers each of them later owes the requests in between.  A
ledger lists what it owes, in the order in which it was accepted; a request may stand in a queue of
the server, and the requests of one queue are answered in that order.  A server is compared with its
ledger through the tokens it holds, up to their order, and through each of its queues.

* `Ledger.Item` — a request that is owed: its token, its queue, and what is owed;
* `Ledger.settle` — the request with a token has been answered;
* `Ledger.tokens_settle`, `Ledger.queueOf_settle` — what is owed after an answer;
* `Ledger.perm_cons_settle` — a ledger is a request that is owed and the others;
* `Ledger.exists_of_queueOf` — the first token of a queue belongs to its oldest request.
-/

import Mathlib.Data.List.Perm.Basic
import Mathlib.Data.List.Nodup

set_option relaxedAutoImplicit false
set_option autoImplicit false

namespace Ledger

variable {τ κ ν : Type*}

/-- A request that is owed. -/
structure Item (τ κ ν : Type*) where
  token : τ
  queue : Option κ
  value : ν

/-- The tokens that are owed. -/
def tokens (l : List (Item τ κ ν)) : List τ := l.map Item.token

@[simp] theorem tokens_append (l l' : List (Item τ κ ν)) :
    tokens (l ++ l') = tokens l ++ tokens l' := List.map_append

theorem mem_tokens {l : List (Item τ κ ν)} {t : τ} : t ∈ tokens l ↔ ∃ p ∈ l, p.token = t :=
  List.mem_map

section Settle

variable [DecidableEq τ]

/-- The request with a token has been answered. -/
def settle (l : List (Item τ κ ν)) (t : τ) : List (Item τ κ ν) := l.filter fun p => p.token ≠ t

theorem mem_settle {l : List (Item τ κ ν)} {t : τ} {p : Item τ κ ν} :
    p ∈ settle l t ↔ p ∈ l ∧ p.token ≠ t := by
  simp [settle]

theorem tokens_settle_eq (l : List (Item τ κ ν)) (t : τ) :
    tokens (settle l t) = (tokens l).filter (· ≠ t) := by
  rw [tokens, settle, tokens, List.filter_map]
  rfl

/-- What is owed after an answer: everything but the answered token. -/
theorem tokens_settle {l : List (Item τ κ ν)} {t : τ} {ts : List τ}
    (h : (tokens l).Perm (t :: ts)) (hnodup : (t :: ts).Nodup) :
    (tokens (settle l t)).Perm ts := by
  rw [tokens_settle_eq]
  refine (h.filter _).trans ?_
  have hts : ts.filter (· ≠ t) = ts := by
    refine List.filter_eq_self.2 fun x hx => ?_
    have hne : x ≠ t := by
      rintro rfl
      exact (List.nodup_cons.1 hnodup).1 hx
    simpa using hne
  rw [List.filter_cons_of_neg (by simp), hts]

/-- A request that is owed, and the others. -/
theorem perm_cons_settle {l : List (Item τ κ ν)} (hnodup : (tokens l).Nodup) {p : Item τ κ ν}
    (hp : p ∈ l) : l.Perm (p :: settle l p.token) := by
  induction l with
  | nil => cases hp
  | cons q l ih =>
      obtain ⟨hq, hl⟩ := List.nodup_cons.1 hnodup
      rcases List.mem_cons.1 hp with rfl | hp
      · have hrest : settle l p.token = l := by
          refine List.filter_eq_self.2 fun r hr => ?_
          have hne : r.token ≠ p.token := fun heq => hq (mem_tokens.2 ⟨r, hr, heq⟩)
          simpa using hne
        rw [settle, List.filter_cons_of_neg (by simp), ← settle, hrest]
      · have hne : q.token ≠ p.token := fun heq => hq (mem_tokens.2 ⟨p, hp, heq.symm⟩)
        rw [settle, List.filter_cons_of_pos (by simpa using hne), ← settle]
        exact ((ih hl hp).cons q).trans (List.Perm.swap _ _ _)

end Settle

section Queue

variable [DecidableEq κ]

/-- The tokens of a queue, in the order in which they were accepted. -/
def queueOf (l : List (Item τ κ ν)) (a : κ) : List τ := tokens (l.filter fun p => p.queue = some a)

theorem mem_queueOf {l : List (Item τ κ ν)} {p : Item τ κ ν} {a : κ} (hp : p ∈ l)
    (hq : p.queue = some a) : p.token ∈ queueOf l a :=
  mem_tokens.2 ⟨p, List.mem_filter.2 ⟨hp, by simpa using hq⟩, rfl⟩

theorem queueOf_append_of_eq {l : List (Item τ κ ν)} {p : Item τ κ ν} {a : κ}
    (h : p.queue = some a) : queueOf (l ++ [p]) a = queueOf l a ++ [p.token] := by
  simp [queueOf, h, tokens]

theorem queueOf_append_of_ne {l : List (Item τ κ ν)} {p : Item τ κ ν} {a : κ}
    (h : p.queue ≠ some a) : queueOf (l ++ [p]) a = queueOf l a := by
  simp [queueOf, h]

theorem queueOf_settle [DecidableEq τ] (l : List (Item τ κ ν)) (t : τ) (a : κ) :
    queueOf (settle l t) a = (queueOf l a).filter (· ≠ t) := by
  rw [queueOf, queueOf, ← tokens_settle_eq, settle, settle, List.filter_comm]

/-- The first token of a queue belongs to its oldest request. -/
theorem exists_of_queueOf {l : List (Item τ κ ν)} {a : κ} {t : τ} {rest : List τ}
    (h : queueOf l a = t :: rest) :
    ∃ p ∈ l, p.token = t ∧ p.queue = some a ∧
      (l.filter fun q => q.queue = some a).head? = some p := by
  rw [queueOf, tokens] at h
  obtain ⟨p, ps, hfilter, ht, -⟩ := List.map_eq_cons_iff.1 h
  have hp : p ∈ l.filter fun q => q.queue = some a := by rw [hfilter]; exact List.mem_cons_self
  rw [List.mem_filter, decide_eq_true_iff] at hp
  exact ⟨p, hp.1, ht, hp.2, by rw [hfilter]; rfl⟩

end Queue

end Ledger
