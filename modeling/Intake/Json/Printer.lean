import Intake.Json.Token
import Intake.Json.Written

/-!
# Compact JSON text

A value is written without any space: its tokens one after another, the
members of an object in the order in which the value lists them. The tokens
are those of its written form (`Written.tokens`), so reading back splits into
three steps, from text to tokens, from tokens to the written form and from
there to the value.

`asText` and `asStringValue` are the two textual forms of a value: a string
is its own text, and any other value is its JSON text.
-/

namespace Intake

namespace Written

mutual

def tokens : Written → List Token
  | null => [.null]
  | bool b => [.bool b]
  | number n => [.number n]
  | string pieces => [.string pieces]
  | array items => .openArray :: itemTokens items ++ [.closeArray]
  | object members => .openObject :: memberTokens members ++ [.closeObject]

/-- The tokens of the items of an array, with a comma between two of them. -/
def itemTokens : List Written → List Token
  | [] => []
  | [v] => v.tokens
  | v :: rest => v.tokens ++ .comma :: itemTokens rest

/-- The tokens of the members of an object, with a comma between two of them. -/
def memberTokens : List (List Piece × Written) → List Token
  | [] => []
  | [(k, v)] => .string k :: .colon :: v.tokens
  | (k, v) :: rest => .string k :: .colon :: v.tokens ++ .comma :: memberTokens rest

end

end Written

namespace Json

/-- The compact JSON text of a value. -/
def chars (v : Json) : List Char := v.written.tokens.flatMap Token.chars

def text (v : Json) : String := String.ofList v.chars

/-- A string as it is, any other value as its JSON text. -/
def asText : Json → String
  | string s => s
  | v => v.text

/-- The value as a string; `null` stays `null`. -/
def asStringValue : Json → Json
  | null => null
  | v => string v.asText

end Json

end Intake
