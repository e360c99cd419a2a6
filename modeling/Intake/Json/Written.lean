import Intake.Json.Basic
import Intake.Json.Quoted

/-!
# Written JSON

A JSON text, as a tree, in the way it is written: the members of an object in
the order of the text, where a key may stand twice, and strings as the pieces
between their quotes. Every value has a written form (`Json.written`), but not
every written form denotes a value: `Written.value?` refuses a string with a
lone surrogate and nesting beyond a given depth.

An object may also be the long form of a number, with the number's text under
a key that is set aside for that (`Written.numberKey`). The first key of the
object decides.

Whoever reads a structure out of a written form looks only at the keys that
the structure declares, so what stands under other keys need not denote
anything.
-/

namespace Intake

/-- A JSON text as it is written. -/
inductive Written where
  | null
  | bool (b : Bool)
  | number (n : Numeral)
  | string (pieces : List Piece)
  | array (items : List Written)
  | object (members : List (List Piece × Written))
  deriving Repr, Inhabited

namespace Json

mutual

def written : Json → Written
  | null => .null
  | bool b => .bool b
  | number n => .number n
  | string s => .string (Piece.ofText s)
  | array items => .array (writtenItems items)
  | object members => .object (writtenMembers members)

def writtenItems : List Json → List Written
  | [] => []
  | v :: rest => v.written :: writtenItems rest

def writtenMembers : List (String × Json) → List (List Piece × Written)
  | [] => []
  | (k, v) :: rest => (Piece.ofText k, v.written) :: writtenMembers rest

end

end Json

namespace Written

/-! ## Numbers in their long form -/

/-- The key of a number in its long form. -/
def numberKey : String := "$serde_json::private::Number"

/-- The first key of an object says that it is the long form of a number. -/
def isLongNumber : List (List Piece × Written) → Bool
  | [] => false
  | (k, _) :: _ => Piece.text? k == some numberKey

/-- The number whose text stands under the only key of an object. -/
def longNumber? : List (List Piece × Written) → Option Numeral
  | [(_, string pieces)] => (Piece.text? pieces).bind Numeral.ofText?
  | _ => none

/-! ## Values -/

mutual

/-- The value of a written form whose arrays and objects are nested at most
`room` deep. Of several members with one key the last counts. -/
def value? (room : Nat) : Written → Option Json
  | null => some .null
  | bool b => some (.bool b)
  | number n => some (.number n)
  | string pieces => (Piece.text? pieces).map .string
  | array items =>
    match room with
    | 0 => none
    | room + 1 => (itemValues? room items).map .array
  | object members =>
    match room with
    | 0 => none
    | room + 1 =>
      if isLongNumber members then (longNumber? members).map .number
      else (memberValues? room members).map fun ms => .object (Dict.ofList ms).entries

def itemValues? (room : Nat) : List Written → Option (List Json)
  | [] => some []
  | v :: rest =>
    match value? room v, itemValues? room rest with
    | some v, some rest => some (v :: rest)
    | _, _ => none

def memberValues? (room : Nat) : List (List Piece × Written) → Option (List (String × Json))
  | [] => some []
  | (k, v) :: rest =>
    match Piece.text? k, value? room v, memberValues? room rest with
    | some k, some v, some rest => some ((k, v) :: rest)
    | _, _, _ => none

end

end Written

end Intake
