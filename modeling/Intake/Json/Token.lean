import Intake.Json.Numeral
import Intake.Json.Quoted

/-!
# Tokens of JSON text

JSON text is a row of tokens: six punctuation marks, three words, numbers and
strings. `Token.chars` writes a token and `Token.lex?` cuts a text into tokens.

The lexer takes one character at a time (`Lexer.step`). It tells only two
kinds of token apart by their extent: a string ends at its closing quote, and
every other token that is not a punctuation mark is a *word*, which ends where
white space, a punctuation mark or a quote begins. Whether a word is `null`,
`true`, `false` or a number is decided when it has ended, so `01` and `nul`
are refused as whole words.
-/

namespace Intake

/-- A token of JSON text. -/
inductive Token where
  | openArray
  | closeArray
  | openObject
  | closeObject
  | comma
  | colon
  | null
  | bool (b : Bool)
  | number (n : Numeral)
  | string (pieces : List Piece)
  deriving DecidableEq, Repr

namespace Token

/-! ## Writing -/

/-- A string between its quotes. -/
def quote (pieces : List Piece) : List Char := '"' :: pieces.flatMap Piece.written ++ ['"']

def chars : Token → List Char
  | openArray => ['[']
  | closeArray => [']']
  | openObject => ['{']
  | closeObject => ['}']
  | comma => [',']
  | colon => [':']
  | null => ['n', 'u', 'l', 'l']
  | bool true => ['t', 'r', 'u', 'e']
  | bool false => ['f', 'a', 'l', 's', 'e']
  | number n => n.chars
  | string pieces => quote pieces

/-! ## Reading -/

/-- The four characters of JSON white space. -/
def isSpace (c : Char) : Bool := c == ' ' || c == '\t' || c == '\n' || c == '\r'

/-- The token that a punctuation mark is. -/
def ofMark? : Char → Option Token
  | '[' => some openArray
  | ']' => some closeArray
  | '{' => some openObject
  | '}' => some closeObject
  | ',' => some comma
  | ':' => some colon
  | _ => none

/-- The token that a whole word is. -/
def ofWord? (word : List Char) : Option Token :=
  if word = null.chars then some null
  else if word = (bool true).chars then some (bool true)
  else if word = (bool false).chars then some (bool false)
  else (Numeral.ofChars? word).map number

/-- What a lexer is in the middle of; characters are held latest first. -/
inductive Mode where
  | between
  | word (read : List Char)
  | quoted (q : Quoted)
  deriving DecidableEq, Repr

/-- A lexer: the tokens that have ended, latest first, and where it stands. -/
structure Lexer where
  done : List Token
  mode : Mode
  deriving DecidableEq, Repr

namespace Lexer

def start : Lexer := ⟨[], .between⟩

/-- A character that belongs neither to a word nor to a string that has begun. -/
def begin (done : List Token) (c : Char) : Lexer :=
  if isSpace c then ⟨done, .between⟩
  else if c = '"' then ⟨done, .quoted (.plain [])⟩
  else
    match ofMark? c with
    | some mark => ⟨mark :: done, .between⟩
    | none => ⟨done, .word [c]⟩

/-- White space, a quote or a punctuation mark: where a word ends. -/
def endsWord (c : Char) : Bool := isSpace c || c == '"' || (ofMark? c).isSome

def step (l : Lexer) (c : Char) : Option Lexer :=
  match l.mode with
  | .between => some (begin l.done c)
  | .word read =>
    if endsWord c then (ofWord? read.reverse).map fun t => begin (t :: l.done) c
    else some ⟨l.done, .word (c :: read)⟩
  | .quoted (.plain read) =>
    if c = '"' then some ⟨.string read.reverse :: l.done, .between⟩
    else (Quoted.step (.plain read) c).map fun q => ⟨l.done, .quoted q⟩
  | .quoted q => (q.step c).map fun q => ⟨l.done, .quoted q⟩

/-- The tokens of a text that ends here: in a word or between tokens, but not
inside quotes. -/
def finish? (l : Lexer) : Option (List Token) :=
  match l.mode with
  | .between => some l.done.reverse
  | .word read => (ofWord? read.reverse).map fun t => (t :: l.done).reverse
  | .quoted _ => none

end Lexer

/-- Cuts a text into its tokens. -/
def lex? (cs : List Char) : Option (List Token) :=
  (cs.foldlM Lexer.step Lexer.start).bind Lexer.finish?

end Token

end Intake
