import Intake.Json.Printer

/-!
# Reading JSON text

The reader takes one token at a time and keeps the arrays and objects that
are open on a stack; nothing limits the height of the stack. `Written.read?`
gives the text as it is written and `Json.value?` the value that it denotes,
which is nested 127 deep at most.
-/

namespace Intake

namespace Written

/-- An array or object that is open; items and members are held latest first.
An object holds a key from the moment it is read until its value has ended. -/
inductive Frame where
  | array (items : List Written)
  | object (members : List (List Piece × Written)) (key : Option (List Piece))
  deriving Repr

/-- What may follow. -/
inductive Due where
  /-- A value. -/
  | value
  /-- In an array or object that has just been opened: its first item or
  member, or its end. -/
  | first
  /-- The key of a further member. -/
  | key
  /-- The colon after a key. -/
  | colon
  /-- A comma or the end of what is open; `v` is the value that has just ended. -/
  | after (v : Written)
  deriving Repr

/-- A reader: what is open, innermost first, and what is due. -/
structure Reader where
  frames : List Frame
  due : Due
  deriving Repr

namespace Reader

def start : Reader := ⟨[], .value⟩

/-- A token where a value is due. -/
def begin? (frames : List Frame) : Token → Option Reader
  | .null => some ⟨frames, .after .null⟩
  | .bool b => some ⟨frames, .after (.bool b)⟩
  | .number n => some ⟨frames, .after (.number n)⟩
  | .string s => some ⟨frames, .after (.string s)⟩
  | .openArray => some ⟨.array [] :: frames, .first⟩
  | .openObject => some ⟨.object [] none :: frames, .first⟩
  | _ => none

def step : Reader → Token → Option Reader
  | ⟨frames, .value⟩, t => begin? frames t
  | ⟨.array items :: frames, .first⟩, t =>
    if t = .closeArray then some ⟨frames, .after (.array items.reverse)⟩
    else begin? (.array items :: frames) t
  | ⟨.object members none :: frames, .first⟩, .closeObject =>
    some ⟨frames, .after (.object members.reverse)⟩
  | ⟨.object members none :: frames, .first⟩, .string k =>
    some ⟨.object members (some k) :: frames, .colon⟩
  | ⟨.object members none :: frames, .key⟩, .string k =>
    some ⟨.object members (some k) :: frames, .colon⟩
  | ⟨frames, .colon⟩, .colon => some ⟨frames, .value⟩
  | ⟨.array items :: frames, .after v⟩, .comma => some ⟨.array (v :: items) :: frames, .value⟩
  | ⟨.array items :: frames, .after v⟩, .closeArray =>
    some ⟨frames, .after (.array (v :: items).reverse)⟩
  | ⟨.object members (some k) :: frames, .after v⟩, .comma =>
    some ⟨.object ((k, v) :: members) none :: frames, .key⟩
  | ⟨.object members (some k) :: frames, .after v⟩, .closeObject =>
    some ⟨frames, .after (.object ((k, v) :: members).reverse)⟩
  | _, _ => none

/-- What is written in a text that ends here. -/
def finish? : Reader → Option Written
  | ⟨[], .after v⟩ => some v
  | _ => none

end Reader

/-- What a row of tokens writes. -/
def ofTokens? (tokens : List Token) : Option Written :=
  (tokens.foldlM Reader.step Reader.start).bind Reader.finish?

/-- Reads a JSON text as it is written. -/
def read? (text : String) : Option Written := (Token.lex? text.toList).bind ofTokens?

end Written

namespace Json

/-- The deepest nesting of arrays and objects in a value that is read. -/
def maxDepth : Nat := 127

/-- Reads a JSON text as the value that it denotes. -/
def value? (text : String) : Option Json := (Written.read? text).bind (Written.value? maxDepth)

/-- Reads a JSON text that is an object as a dictionary, whatever its first key. -/
def dict? (text : String) : Option (Dict Json) :=
  match Written.read? text with
  | some (.object members) => (Written.memberValues? (maxDepth - 1) members).map Dict.ofList
  | _ => none

end Json

end Intake
