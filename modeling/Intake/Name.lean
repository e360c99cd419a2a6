/-!
# Field names and answer choices

Field names and the answers of multiple-choice questions both become column
names of the table store. They have one character class: ASCII letters and
digits, in groups that are separated by single specials, which are the space,
the point, the hyphen and the underscore. A name neither begins nor ends with
a special, and three names of columns that the store keeps for itself are not
free as field names.

Text from elsewhere is brought into that character class in two ways. An
answer is sanitized as a whole, in three stages (`sanitizeAnswer`); the key of
a record is sanitized one character for one (`sanitizeKey`), so its length
stays.
-/

namespace Intake

namespace Name

/-- The longest field name or answer, in characters. -/
def maxLength : Nat := 128

/-- Names of columns that the table store keeps for itself. -/
def reserved : List String := ["row_etag", "row_id", "row_version"]

/-- Space, point, hyphen and underscore. -/
def isSpecial (c : Char) : Bool := c == ' ' || c == '.' || c == '-' || c == '_'

/-- A character that may stand in a name; letters and digits are the ASCII ones. -/
def isLegal (c : Char) : Bool := c.isAlphanum || isSpecial c

mutual

/-- Groups of letters and digits with single specials between them, from the
start of a group. -/
def groupsOK : List Char → Bool
  | [] => false
  | c :: rest => c.isAlphanum && inGroupOK rest

/-- The same from inside a group. -/
def inGroupOK : List Char → Bool
  | [] => true
  | c :: rest => if c.isAlphanum then inGroupOK rest else isSpecial c && groupsOK rest

end

/-- The text may be an answer of a multiple-choice question. -/
def isAnswerChoice (s : String) : Bool :=
  decide (s.toList.length ≤ maxLength) && groupsOK s.toList

/-- Equal up to the case of ASCII letters. -/
def sameIgnoringCase (s t : String) : Bool :=
  s.toList.map Char.toLower == t.toList.map Char.toLower

/-- The text may be the name of a field: an answer choice that is not reserved. -/
def isFieldName (s : String) : Bool :=
  isAnswerChoice s && !reserved.any fun r => sameIgnoringCase r s

/-! ## Sanitizing -/

/-- Each run of illegal characters becomes one underscore; `inRun` says that
the run has begun. -/
def replaceIllegal (inRun : Bool) : List Char → List Char
  | [] => []
  | c :: rest =>
    if isLegal c then c :: replaceIllegal false rest
    else if inRun then replaceIllegal true rest
    else '_' :: replaceIllegal true rest

/-- Each run of specials is cut down to its first; `inRun` says that the run
has begun. -/
def mergeSpecials (inRun : Bool) : List Char → List Char
  | [] => []
  | c :: rest =>
    if isSpecial c && inRun then mergeSpecials true rest
    else c :: mergeSpecials (isSpecial c) rest

/-- A point at the front becomes an underscore. -/
def replaceFirstPoint : List Char → List Char
  | '.' :: rest => '_' :: rest
  | cs => cs

/-- An answer in the characters of a name: illegal characters replaced, runs of
specials merged, no point in front. -/
def sanitizeAnswer (s : String) : String :=
  String.ofList (replaceFirstPoint (mergeSpecials false (replaceIllegal false s.toList)))

/-- The key of a record with an underscore for each illegal character. -/
def sanitizeKey (s : String) : String :=
  String.ofList (s.toList.map fun c => if isLegal c then c else '_')

end Name

end Intake
