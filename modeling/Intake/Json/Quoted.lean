/-!
# Quoted text

How JSON writes a string between its quotes. A quote, a backslash and the
controls below U+0020 are escaped and every other character stands for itself
(`escapeChar`). A reader accepts more than a writer produces: any character may
be written as the sixteen-bit units of its UTF-16 form, `\u` and four
hexadecimal digits each, and a character above U+FFFF takes two units, a
leading and a trailing surrogate.

What is read between two quotes is therefore a row of `Piece`s, characters and
surrogates. `Piece.text?` joins surrogates that stand in pairs; a row in which
one stands alone is well written but denotes no text.

Reading is a machine that takes one character at a time: `Quoted` says where
it is between the quotes, `Quoted.step` is one character.
-/

namespace Intake

/-! ## Writing -/

/-- A digit from 0 to 15 in hexadecimal, lower case. -/
def hexDigit (n : Nat) : Char := Nat.digitChar n

/-- A sixteen-bit unit as `\u` and four hexadecimal digits. -/
def escapeUnit (unit : Nat) : List Char :=
  ['\\', 'u', hexDigit (unit / 0x1000 % 0x10), hexDigit (unit / 0x100 % 0x10),
    hexDigit (unit / 0x10 % 0x10), hexDigit (unit % 0x10)]

/-- A character of a quoted text, escaped if it must be. -/
def escapeChar (c : Char) : List Char :=
  if c = '"' then ['\\', '"']
  else if c = '\\' then ['\\', '\\']
  else if c = '\x08' then ['\\', 'b']
  else if c = '\t' then ['\\', 't']
  else if c = '\n' then ['\\', 'n']
  else if c = '\x0c' then ['\\', 'f']
  else if c = '\r' then ['\\', 'r']
  else if c.toNat < 0x20 then escapeUnit c.toNat
  else [c]

/-! ## Pieces -/

/-- A piece of what stands between two quotes. A surrogate is half of a
character above U+FFFF and holds ten bits of it. -/
inductive Piece where
  | char (c : Char)
  | leading (bits : Fin 0x400)
  | trailing (bits : Fin 0x400)
  deriving DecidableEq, Repr

namespace Piece

/-- The piece that a sixteen-bit unit is. -/
def ofUnit (unit : Nat) : Piece :=
  if h : 0xD800 ≤ unit ∧ unit < 0xDC00 then leading ⟨unit - 0xD800, by omega⟩
  else if h : 0xDC00 ≤ unit ∧ unit < 0xE000 then trailing ⟨unit - 0xDC00, by omega⟩
  else char (Char.ofNat unit)

/-- The character of a pair of surrogates. -/
def join (high low : Fin 0x400) : Char := Char.ofNat (0x10000 + high.val * 0x400 + low.val)

/-- The characters of a row of pieces, if no surrogate stands alone. -/
def chars? : List Piece → Option (List Char)
  | [] => some []
  | char c :: rest => (chars? rest).map (c :: ·)
  | leading high :: trailing low :: rest => (chars? rest).map (join high low :: ·)
  | _ :: _ => none

/-- The text of a row of pieces, if no surrogate stands alone. -/
def text? (pieces : List Piece) : Option String := (chars? pieces).map String.ofList

/-- The pieces of a text, one for each character. -/
def ofText (s : String) : List Piece := s.toList.map char

def written : Piece → List Char
  | char c => escapeChar c
  | leading bits => escapeUnit (0xD800 + bits.val)
  | trailing bits => escapeUnit (0xDC00 + bits.val)

@[simp] theorem chars?_map_char (cs : List Char) : chars? (cs.map char) = some cs := by
  induction cs with
  | nil => rfl
  | cons c rest ih => simp [chars?, ih]

@[simp] theorem text?_ofText (s : String) : text? (ofText s) = some s := by
  simp [text?, ofText]

end Piece

/-! ## Reading -/

/-- The character that a backslash and `c` stand for, except for `u`. -/
def unescape? : Char → Option Char
  | '"' => some '"'
  | '\\' => some '\\'
  | '/' => some '/'
  | 'b' => some '\x08'
  | 'f' => some '\x0c'
  | 'n' => some '\n'
  | 'r' => some '\r'
  | 't' => some '\t'
  | _ => none

/-- The value of a hexadecimal digit, in either case. -/
def hexValue? (c : Char) : Option Nat :=
  if '0' ≤ c ∧ c ≤ '9' then some (c.toNat - '0'.toNat)
  else if 'a' ≤ c ∧ c ≤ 'f' then some (c.toNat - 'a'.toNat + 10)
  else if 'A' ≤ c ∧ c ≤ 'F' then some (c.toNat - 'A'.toNat + 10)
  else none

/-- Where a reader is between two quotes. `read` is what it has read so far,
latest first. -/
inductive Quoted where
  /-- Between characters. -/
  | plain (read : List Piece)
  /-- After a backslash. -/
  | backslash (read : List Piece)
  /-- In the hexadecimal digits of a unit: so many are due, with this value so far. -/
  | unit (read : List Piece) (due value : Nat)
  deriving DecidableEq, Repr

namespace Quoted

/-- One character between the quotes, the closing quote apart. -/
def step (q : Quoted) (c : Char) : Option Quoted :=
  match q with
  | .plain read =>
    if c = '\\' then some (.backslash read)
    else if c.toNat < 0x20 then none
    else some (.plain (.char c :: read))
  | .backslash read =>
    if c = 'u' then some (.unit read 4 0)
    else (unescape? c).map fun x => .plain (.char x :: read)
  | .unit read due value =>
    (hexValue? c).map fun digit =>
      if due ≤ 1 then .plain (.ofUnit (16 * value + digit) :: read)
      else .unit read (due - 1) (16 * value + digit)

end Quoted

end Intake
