/-
**`sscanf`.**

Scanning a string against a format of characters, unsigned numbers and literal characters, as the C
library does it.  The conversions are assigned from left to right, and the first directive that does
not match ends the scan.  `%c` takes any character; `%u` skips white space and takes a number with
an optional sign.  A number that does not fit in an `unsigned` is what `strtoul` and the assignment
make of it on a machine with a `long` of 64 bits.

* `Scanf.directives` — the directives of a format;
* `Scanf.scan` — the values of the conversions that are assigned;
* `Scanf.scan_kinds` — the values have the kinds of the conversions;
* `Scanf.Numeral` — a number written in decimal digits that fits in an `unsigned`;
* `Scanf.scan_numeral` — **a numeral is scanned as its value**, whatever follows it.
-/

import Mathlib.Algebra.Group.Nat.Defs
import Mathlib.Data.List.Basic
import Mathlib.Data.List.TakeWhile

set_option relaxedAutoImplicit false
set_option autoImplicit false

namespace Scanf

/-! ### Formats and values -/

/-- A directive of a format without white space. -/
inductive Directive
  | char
  | unsigned
  | lit (c : Char)
  deriving DecidableEq, Repr

/-- The directives of a format. -/
def directives : List Char → List Directive
  | [] => []
  | '%' :: 'c' :: format => .char :: directives format
  | '%' :: 'u' :: format => .unsigned :: directives format
  | c :: format => .lit c :: directives format

/-- The value of a conversion. -/
inductive Value
  | char (c : Char)
  | num (n : ℕ)
  deriving DecidableEq, Repr

/-- The character of a `%c`. -/
def Value.char? : Value → Option Char
  | .char c => some c
  | .num _ => none

/-- The number of a `%u`. -/
def Value.num? : Value → Option ℕ
  | .char _ => none
  | .num n => some n

/-! ### Unsigned numbers -/

/-- `isspace`. -/
def isSpace (c : Char) : Bool :=
  c == ' ' || c == '\t' || c == '\n' || c == '\x0b' || c == '\x0c' || c == '\r'

/-- An optional sign. -/
def scanSign : List Char → Bool × List Char
  | '-' :: s => (true, s)
  | '+' :: s => (false, s)
  | s => (false, s)

/-- The number that decimal digits stand for. -/
def digitsValue (digits : List Char) : ℕ :=
  digits.foldl (fun n c => 10 * n + (c.toNat - '0'.toNat)) 0

/-- The result of `strtoul`, assigned to an `unsigned`. -/
def toUnsigned (negative : Bool) (n : ℕ) : ℕ :=
  (if 2 ^ 64 ≤ n then 2 ^ 64 - 1 else if negative then 2 ^ 64 - n else n) % 2 ^ 32

/-- `%u`: the number at the front of a string, and what follows it. -/
def scanUnsigned (s : List Char) : Option (ℕ × List Char) :=
  let r := scanSign (s.dropWhile isSpace)
  let digits := r.2.takeWhile Char.isDigit
  if digits = [] then none
  else some (toUnsigned r.1 (digitsValue digits), r.2.dropWhile Char.isDigit)

/-! ### The scan -/

/-- `sscanf`: the values of the conversions that are assigned. -/
def scan : List Directive → List Char → List Value
  | [], _ => []
  | _ :: _, [] => []
  | .lit c :: ds, x :: s => if x = c then scan ds s else []
  | .char :: ds, x :: s => .char x :: scan ds s
  | .unsigned :: ds, x :: s =>
      match scanUnsigned (x :: s) with
      | none => []
      | some (n, rest) => .num n :: scan ds rest

section Scan

variable {ds : List Directive} {s rest : List Char} {c x : Char}

@[simp] theorem scan_nil (ds : List Directive) : scan ds [] = [] := by
  cases ds <;> rfl

@[simp] theorem scan_lit_self : scan (.lit c :: ds) (c :: s) = scan ds s := if_pos rfl

theorem scan_lit_of_ne (h : x ≠ c) : scan (.lit c :: ds) (x :: s) = [] := if_neg h

@[simp] theorem scan_char : scan (.char :: ds) (x :: s) = .char x :: scan ds s := rfl

theorem scan_unsigned {n : ℕ} (h : scanUnsigned s = some (n, rest)) :
    scan (.unsigned :: ds) s = .num n :: scan ds rest := by
  cases s with
  | nil => cases h
  | cons x s => rw [scan, h]

/-- The conversions of a format. -/
def conversions (ds : List Directive) : List Directive :=
  ds.filter fun d => d = .char ∨ d = .unsigned

/-- The conversion that a value comes from. -/
def Value.kind : Value → Directive
  | .char _ => .char
  | .num _ => .unsigned

/-- **The values have the kinds of the conversions**, as far as the scan goes. -/
theorem scan_kinds (ds : List Directive) (s : List Char) :
    (scan ds s).map Value.kind <+: conversions ds := by
  induction ds generalizing s with
  | nil => exact List.nil_prefix
  | cons d ds ih =>
      cases s with
      | nil =>
          rw [scan_nil]
          exact List.nil_prefix
      | cons x s =>
          cases d with
          | lit c =>
              have hskip : conversions (.lit c :: ds) = conversions ds := by simp [conversions]
              rw [hskip, scan]
              split
              · exact ih s
              · exact List.nil_prefix
          | char =>
              have htake : conversions (.char :: ds) = .char :: conversions ds := by
                simp [conversions]
              rw [htake, scan_char, List.map_cons]
              exact List.cons_prefix_cons.2 ⟨rfl, ih s⟩
          | unsigned =>
              have htake : conversions (.unsigned :: ds) = .unsigned :: conversions ds := by
                simp [conversions]
              rw [htake, scan]
              split
              · exact List.nil_prefix
              · exact List.cons_prefix_cons.2 ⟨rfl, ih _⟩

end Scan

/-! ### Numerals -/

/-- The character of a digit. -/
def digitChar (d : Fin 10) : Char := Nat.digitChar d

theorem isDigit_digitChar (d : Fin 10) : (digitChar d).isDigit = true := by
  revert d
  decide

theorem digitChar_ne_sign (d : Fin 10) :
    digitChar d ≠ '-' ∧ digitChar d ≠ '+' ∧ isSpace (digitChar d) = false := by
  revert d
  decide

/-- A number in decimal digits, with leading zeros or without, that fits in an `unsigned`. -/
structure Numeral where
  digits : List (Fin 10)
  nonempty : digits ≠ []
  fits : digitsValue (digits.map digitChar) < 2 ^ 32

namespace Numeral

/-- The digits of a numeral. -/
def chars (n : Numeral) : List Char := n.digits.map digitChar

/-- The number that a numeral stands for. -/
def value (n : Numeral) : ℕ := digitsValue n.chars

theorem value_lt (n : Numeral) : n.value < 2 ^ 32 := n.fits

/-- A numeral is scanned as its value, up to the first character that is no digit. -/
theorem scanUnsigned_chars (n : Numeral) {rest : List Char}
    (hrest : ∀ c ∈ rest.head?, c.isDigit = false) :
    scanUnsigned (n.chars ++ rest) = some (n.value, rest) := by
  obtain ⟨d, ds, hds⟩ := List.exists_cons_of_ne_nil n.nonempty
  have hchars : n.chars = digitChar d :: ds.map digitChar := by
    rw [chars, hds, List.map_cons]
  obtain ⟨hminus, hplus, hspace⟩ := digitChar_ne_sign d
  have hfront : scanSign ((n.chars ++ rest).dropWhile isSpace) = (false, n.chars ++ rest) := by
    rw [hchars, List.cons_append, List.dropWhile_cons_of_neg (by simp [hspace])]
    unfold scanSign
    split
    · next h => exact absurd (List.cons.inj h).1 hminus
    · next h => exact absurd (List.cons.inj h).1 hplus
    · rfl
  have hdigits : ∀ c ∈ n.chars, c.isDigit = true := by
    intro c hc
    obtain ⟨d, -, rfl⟩ := List.mem_map.1 hc
    exact isDigit_digitChar d
  have hstop : rest.takeWhile Char.isDigit = [] ∧ rest.dropWhile Char.isDigit = rest := by
    cases rest with
    | nil => exact ⟨rfl, rfl⟩
    | cons c rest =>
        have hc : c.isDigit = false := hrest c rfl
        simp [hc]
  have htake : (n.chars ++ rest).takeWhile Char.isDigit = n.chars := by
    rw [List.takeWhile_append_of_pos hdigits, hstop.1, List.append_nil]
  have hdrop : (n.chars ++ rest).dropWhile Char.isDigit = rest := by
    rw [List.dropWhile_append_of_pos hdigits, hstop.2]
  have hne : n.chars ≠ [] := by
    rw [hchars]
    exact List.cons_ne_nil _ _
  have hsmall : n.value < 2 ^ 32 := n.value_lt
  have hvalue : toUnsigned false n.value = n.value := by
    unfold toUnsigned
    rw [if_neg (by omega), if_neg Bool.false_ne_true]
    exact Nat.mod_eq_of_lt hsmall
  unfold scanUnsigned
  dsimp only
  rw [hfront]
  dsimp only
  rw [htake, hdrop, if_neg hne]
  exact congrArg (fun m => some (m, rest)) hvalue

end Numeral

/-- **A numeral is scanned as its value**, whatever follows it. -/
theorem scan_numeral {ds : List Directive} (n : Numeral) {rest : List Char}
    (hrest : ∀ c ∈ rest.head?, c.isDigit = false) :
    scan (.unsigned :: ds) (n.chars ++ rest) = .num n.value :: scan ds rest :=
  scan_unsigned (n.scanUnsigned_chars hrest)

end Scanf
