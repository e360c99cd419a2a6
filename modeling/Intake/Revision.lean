import Intake.Compatibility
import Intake.Diagnostic

/-!
# Schema revisions

Two revisions of a schema are compared field by field, by name. A revision is
breaking if it declares a name twice, drops a field, or replaces one by a
definition that is not compatible; fields that are new, or whose definition
has changed compatibly, are listed besides. If a name is declared twice, the
last declaration is the one that counts.
-/

namespace Intake

/-- A change that breaks data which is already there. -/
inductive BreakingChange where
  | declaredTwice (name : String)
  | removed (name : String)
  | incompatible (name : String) (reason : Incompatibility)
  deriving DecidableEq, Repr

namespace BreakingChange

def message : BreakingChange → String
  | declaredTwice name => "Field '" ++ name ++ "' declared more than once"
  | removed name => "Field '" ++ name ++ "' removed"
  | incompatible name reason => "Field '" ++ name ++ "': " ++ reason.message

end BreakingChange

namespace Revision

/-- The last field of that name. -/
def find? (fields : List Field) (name : String) : Option Field :=
  fields.reverse.find? fun f => f.name == name

/-- The names that have been declared before, each time they come again. -/
def redeclared (seen : List String) : List Field → List String
  | [] => []
  | f :: rest =>
    (if seen.contains f.name then [f.name] else []) ++ redeclared (f.name :: seen) rest

/-- What the revision `new` does to the field `f` that would break data. -/
def breakingChangesOf (new : List Field) (f : Field) : List BreakingChange :=
  match find? new f.name with
  | none => [.removed f.name]
  | some g => (f.incompatibilities g).map (.incompatible f.name)

/-- Every breaking change: names declared twice, then the fields of the old
revision in order. -/
def breakingChanges (old new : List Field) : List BreakingChange :=
  (redeclared [] new).map .declaredTwice ++ old.flatMap (breakingChangesOf new)

/-- The field `f` has another definition in `new`, and a compatible one. -/
def isChanged (new : List Field) (f : Field) : Bool :=
  (find? new f.name).any fun g => f.isCompatible g && f != g

def changedFields (old new : List Field) : List String :=
  (old.filter (isChanged new)).map Field.name

/-- The names of a list of fields that are not in `seen`, each once. -/
def namesBeyond (seen : List String) : List Field → List String
  | [] => []
  | f :: rest =>
    if seen.contains f.name then namesBeyond seen rest
    else f.name :: namesBeyond (f.name :: seen) rest

def addedFields (old new : List Field) : List String := namesBeyond (old.map Field.name) new

end Revision

/-- The comparison of two revisions, in words: breaking changes, and the names
of the fields that were changed compatibly or added. -/
structure Report where
  breakingChanges : List String
  changedFields : List String
  addedFields : List String
  deriving DecidableEq, Repr

/-- A revision that is refused: its breaking changes in words. -/
structure IncompatibleRevision where
  breakingChanges : List String
  deriving DecidableEq, Repr

namespace IncompatibleRevision

def message (e : IncompatibleRevision) : String :=
  "Incompatible schema revision: " ++ String.intercalate "; " e.breakingChanges

def diagnostic (e : IncompatibleRevision) : Diagnostic where
  code := Diagnostic.incompatibleRevisionCode
  summary := e.breakingChanges.length.repr ++ " breaking change(s) in schema revision"
  hint := some "Publish a new schema, or add a new field instead of changing this one"

end IncompatibleRevision

namespace Report

/-- Compares two revisions of a schema. -/
def ofRevision (old new : List Field) : Report where
  breakingChanges := (Revision.breakingChanges old new).map BreakingChange.message
  changedFields := Revision.changedFields old new
  addedFields := Revision.addedFields old new

/-- No change breaks data. -/
def isCompatible (r : Report) : Bool := r.breakingChanges.isEmpty

/-- The verdict and the number of changes of each kind. -/
def summary (r : Report) : String :=
  "Schema revision: " ++ (if r.isCompatible then "compatible" else "breaking")
    ++ " (breaking=" ++ r.breakingChanges.length.repr
    ++ ", changed=" ++ r.changedFields.length.repr
    ++ ", added=" ++ r.addedFields.length.repr ++ ")"

def accept (r : Report) : Except IncompatibleRevision Report :=
  if r.isCompatible then .ok r else .error ⟨r.breakingChanges⟩

def toJson (r : Report) : Json :=
  .object [("breakingChanges", .ofTexts r.breakingChanges),
    ("changedFields", .ofTexts r.changedFields), ("addedFields", .ofTexts r.addedFields)]

def ofWritten? (v : Written) : Option Report := do
  match ← v.row? ["breakingChanges", "changedFields", "addedFields"] 3 with
  | [breakingChanges, changedFields, addedFields] =>
    let texts? := Written.required (Written.list? Written.text?)
    return ⟨← texts? breakingChanges, ← texts? changedFields, ← texts? addedFields⟩
  | _ => none

end Report

end Intake
