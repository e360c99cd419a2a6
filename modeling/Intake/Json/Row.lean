import Intake.Count
import Intake.Json.Reader

/-!
# Structures in JSON

A structure is stored as an object, or as an array of its fields in the order
of their declaration. `Written.row?` brings both forms to one: for every
declared key what is written for it, if anything.

- In an object, keys that are not declared are ignored, whatever is written
  under them; every key must denote a text, and a declared key may not stand
  twice.
- In an array, fields may be missing at the end, down to a least number that
  the structure sets, and there may be none to spare.

The functions below `row?` read one field each, out of what is written for it.
-/

namespace Intake

namespace Written

/-- The members of an object under the texts of their keys. -/
def named? (members : List (List Piece × Written)) : Option (List (String × Written)) :=
  members.mapM fun m => (Piece.text? m.1).map fun k => (k, m.2)

/-- For each of `keys` what an object or array writes for it; an array must
have at least `least` items. -/
def row? (keys : List String) (least : Nat) : Written → Option (List (Option Written))
  | object members => do
    let named ← named? members
    if keys.all fun k => (named.filter fun m => m.1 == k).length ≤ 1 then
      some (keys.map fun k => named.lookup k)
    else none
  | array items =>
    if least ≤ items.length ∧ items.length ≤ keys.length then
      some (items.map some ++ List.replicate (keys.length - items.length) none)
    else none
  | _ => none

/-! ## Fields -/

def text? : Written → Option String
  | string pieces => Piece.text? pieces
  | _ => none

def bool? : Written → Option Bool
  | bool b => some b
  | _ => none

/-- A count: a number in plain digits that fits into 64 bits. -/
def count? : Written → Option Count
  | number n => n.natural?.bind Count.ofNat?
  | _ => none

/-- An array whose items can all be read. -/
def list? {α : Type} (item? : Written → Option α) : Written → Option (List α)
  | array items => items.mapM item?
  | _ => none

/-- An object whose members can all be read; the last of several with one key
counts. -/
def dictOf? {α : Type} (item? : Written → Option α) : Written → Option (Dict α)
  | object members => do
    let named ← named? members
    (named.mapM fun m => (item? m.2).map fun v => (m.1, v)).map Dict.ofList
  | _ => none

/-- A field that must be given. -/
def required {α : Type} (item? : Written → Option α) : Option Written → Option α
  | some v => item? v
  | none => none

/-- A field with a default. -/
def withDefault {α : Type} (default : α) (item? : Written → Option α) : Option Written → Option α
  | some v => item? v
  | none => some default

/-- A field that may be absent or `null`. -/
def optional {α : Type} (item? : Written → Option α) : Option Written → Option (Option α)
  | some null => some none
  | some v => (item? v).map some
  | none => some none

end Written

namespace Json

/-! ## Writing -/

def ofCount (n : Count) : Json := number (Numeral.ofInt n.val)

def ofTexts (texts : List String) : Json := array (texts.map string)

/-- A member that is written only if there is a value for it. -/
def member? {α : Type} (key : String) (write : α → Json) : Option α → List (String × Json)
  | some a => [(key, write a)]
  | none => []

end Json

end Intake
