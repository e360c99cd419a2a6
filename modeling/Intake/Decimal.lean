import Intake.Json.Numeral

/-!
# Exact decimals

A decimal is an integer and a scale, `int * 10 ^ (-scale)`, with no limit on
the digits of the integer and a 64-bit scale. Two decimals may have one value
(`1.0` is 10 with scale 1, `1` is 1 with scale 0); a decimal keeps the scale
that its text had.

Three things are done with one: it is read from text (`ofText?`), written
(`text`) and cut down to an integer (`truncate?`).
-/

namespace Intake

/-- The number `int * 10 ^ (-scale)`. -/
structure Decimal where
  int : Int
  scale : Int
  deriving DecidableEq, Repr

namespace Decimal

/-! ## Reading

An exponent follows the first `e` or `E`. The text before it may hold a point;
the point is dropped, what is left must be a sign and digits, and every
character that stood after the point adds one to the scale. -/

/-- Scales that fit into 64 bits with a sign. -/
def scaleOK (s : Int) : Bool := decide (-0x8000000000000000 ≤ s ∧ s < 0x8000000000000000)

/-- Neither `e` nor `E`. -/
def notExponentMark (c : Char) : Bool := c != 'e' && c != 'E'

/-- The exponent that a text brings, zero if it has no mark for one. -/
def exponent? : List Char → Option Int
  | [] => some 0
  | _ :: rest => integer? rest

/-- The text before the first point, and the text after it. -/
def splitPoint (cs : List Char) : List Char × List Char :=
  (cs.takeWhile (· != '.'), (cs.dropWhile (· != '.')).drop 1)

/-- Reads a decimal that takes up all the text. -/
def ofChars? (cs : List Char) : Option Decimal := do
  let exponent ← exponent? (cs.dropWhile notExponentMark)
  let (whole, fraction) := splitPoint (cs.takeWhile notExponentMark)
  let int ← integer? (whole ++ fraction)
  let scale := (fraction.length : Int) - exponent
  if scaleOK scale then some ⟨int, scale⟩ else none

def ofText? (text : String) : Option Decimal := ofChars? text.toList

/-! ## Writing

A decimal is written positionally, with all digits of its integer, while that
takes at most five zeros after the point before the first digit and at most
fifteen zeros after the last digit. Otherwise a very small one is written with
one digit before the point and a negative exponent, and a very large one as
its integer and a positive exponent. -/

/-- Zeros that may be written between the point and the first digit. -/
def maxLeadingZeros : Int := 5

/-- Zeros that may be written after the last digit. -/
def maxTrailingZeros : Int := 15

/-- One digit, the others after a point, and an exponent. -/
def scientific (digits : List Char) (exponent : Int) : List Char :=
  digits.take 1 ++ (if digits.length ≤ 1 then [] else '.' :: digits.drop 1)
    ++ 'E' :: integerChars exponent

/-- The digits with a point before the last `places` of them, after leading
zeros as far as the point needs them. -/
def positional (digits : List Char) (places : Nat) : List Char :=
  let filled := List.replicate (places + 1 - digits.length) '0' ++ digits
  filled.take (filled.length - places) ++ '.' :: filled.drop (filled.length - places)

def magnitudeChars (d : Decimal) : List Char :=
  let digits := digitsOf d.int.natAbs
  if d.scale - digits.length > maxLeadingZeros then
    scientific digits (digits.length - 1 - d.scale)
  else if -d.scale > maxTrailingZeros then
    digits ++ 'e' :: '+' :: integerChars (-d.scale)
  else if d.scale ≤ 0 then digits ++ List.replicate (-d.scale).toNat '0'
  else positional digits d.scale.toNat

/-- The decimal as text; zero is `0` whatever its scale. -/
def chars (d : Decimal) : List Char :=
  if d.int = 0 then ['0']
  else if d.int < 0 then '-' :: d.magnitudeChars
  else d.magnitudeChars

def text (d : Decimal) : String := String.ofList d.chars

/-! ## Truncation

Whether a decimal is cut down is decided by the number of its digits before the
point, so no power of ten is computed for one that is refused. That number is
kept in 64 bits with a sign, like the scale. -/

/-- The most digits before the point that are carried out. -/
def maxIntegerDigits : Int := 1024

def digits (d : Decimal) : Nat := (digitsOf d.int.natAbs).length

/-- The digits of `int` less the scale, which are the digits before the point.
The difference wraps where it does not fit into 64 bits; none if the digits of
`int` do not fit to begin with. -/
def wholeDigits? (d : Decimal) : Option Int :=
  if d.digits < 0x8000000000000000 then
    some (((d.digits : Int) - d.scale).bmod 0x10000000000000000)
  else none

/-- The integer that is left without the fraction, toward zero; none if its
digits would be too many. -/
def truncate? (d : Decimal) : Option Int := do
  let n ← d.wholeDigits?
  if n > maxIntegerDigits then none
  else if n ≤ 0 then some 0
  else if 0 ≤ d.scale then some (d.int.tdiv (powerOfTen d.scale.toNat))
  else some (d.int * powerOfTen (-d.scale).toNat)

end Decimal

/-! ## Decimals and JSON numbers -/

namespace Numeral

/-- The decimal that the number's text writes; none if its scale does not fit. -/
def decimal? (n : Numeral) : Option Decimal := Decimal.ofChars? n.chars

/-- The integer part of the number, if it can be carried out. -/
def integer? (n : Numeral) : Option Int := n.decimal?.bind Decimal.truncate?

/-- A number with the text of a decimal where JSON allows that text, and with
the decimal's own text where it does not. -/
def ofDecimalText? (text : String) (d : Decimal) : Option Numeral :=
  (ofText? text).or (ofText? d.text)

end Numeral

end Intake
