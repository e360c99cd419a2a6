import Intake.Text.Digits

/-!
# JSON numbers

A JSON number is kept as it is written, digit for digit: no binary rounding,
no limit on its length or on its exponent. Only the exponent has a normal
form, `e` and an explicit sign, so `1E5` and `1e5` are both the number
`1e+5`, while `1.0` and `1` stay two numbers.

`Numeral.ofChars?` reads the grammar of a JSON number and `Numeral.chars`
writes it.
-/

namespace Intake

/-- The digits before the point: no leading zero unless there is one digit. -/
def wholeOK (cs : List Char) : Bool :=
  digitsOK cs && (cs.length == 1 || cs.head? != some '0')

/-- A number as JSON writes it: sign, digits before and after the point (none
after it when there is no point), and the sign and the digits of an exponent. -/
structure Numeral where
  negative : Bool
  whole : List Char
  fraction : List Char
  exponent : Option (Bool × List Char)
  whole_ok : wholeOK whole = true
  fraction_ok : fraction.all Char.isDigit = true
  exponent_ok : exponent.all (fun e => digitsOK e.2) = true
  deriving DecidableEq, Repr

namespace Numeral

/-! ## Reading -/

/-- The digits after a point, and the text that follows them; a point must
bring at least one digit. -/
def takeFraction? : List Char → Option (List Char × List Char)
  | '.' :: rest =>
    if digitsOK (rest.takeWhile Char.isDigit) then
      some (rest.takeWhile Char.isDigit, rest.dropWhile Char.isDigit)
    else none
  | rest => some ([], rest)

/-- The sign and the digits of an exponent that takes up all the text. -/
def exponent? : List Char → Option (Option (Bool × List Char))
  | [] => some none
  | c :: rest =>
    if (c == 'e' || c == 'E') && digitsOK (takeSign rest).2 then some (some (takeSign rest))
    else none

/-- Reads a JSON number that takes up all the text. -/
def ofChars? (cs : List Char) : Option Numeral := do
  let negative := cs.head? == some '-'
  let rest := if negative then cs.tail else cs
  let whole := rest.takeWhile Char.isDigit
  let (fraction, rest) ← takeFraction? (rest.dropWhile Char.isDigit)
  let exponent ← exponent? rest
  if h : wholeOK whole = true ∧ fraction.all Char.isDigit = true
      ∧ exponent.all (fun e => digitsOK e.2) = true then
    some ⟨negative, whole, fraction, exponent, h.1, h.2.1, h.2.2⟩
  else none

def ofText? (text : String) : Option Numeral := ofChars? text.toList

/-! ## Writing -/

def exponentChars : Option (Bool × List Char) → List Char
  | none => []
  | some (negative, digits) => 'e' :: (if negative then '-' else '+') :: digits

def chars (n : Numeral) : List Char :=
  (if n.negative then ['-'] else []) ++ n.whole
    ++ (if n.fraction.isEmpty then [] else '.' :: n.fraction) ++ exponentChars n.exponent

def text (n : Numeral) : String := String.ofList n.chars

/-! ## Integers as numbers -/

theorem wholeOK_digitsOf (n : Nat) : wholeOK (digitsOf n) = true := by
  simp only [wholeOK, digitsOK_digitsOf, Bool.true_and, Bool.or_eq_true, beq_iff_eq, bne_iff_ne]
  rcases Nat.eq_zero_or_pos n with rfl | hn
  · exact Or.inl rfl
  · exact Or.inr (head?_digitsOf_ne_zero hn)

/-- An integer in plain digits, after a minus if it is negative. -/
def ofInt (i : Int) : Numeral :=
  ⟨decide (i < 0), digitsOf i.natAbs, [], none, wholeOK_digitsOf _, rfl, rfl⟩

/-! ## Classification -/

/-- Written with neither a point nor an exponent. -/
def isIntegral (n : Numeral) : Bool := n.fraction.isEmpty && n.exponent.isNone

/-- The value of a number written with digits alone: no sign, no point and no
exponent. -/
def natural? (n : Numeral) : Option Nat :=
  if !n.negative && n.isIntegral then some (digitsValue n.whole) else none

end Numeral

end Intake
