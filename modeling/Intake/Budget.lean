import Intake.Diagnostic
import Intake.Field.Basic

/-!
# Table budgets

A schema must fit into one row of the table store. A budget holds the limits
of a row, and a list of fields is checked against it by its size.
-/

namespace Intake

structure Budget where
  maxBytes : Count := 64000
  maxColumns : Count := 152
  deriving DecidableEq, Repr

/-- A list of fields that does not fit: its size, and the budget. -/
structure BudgetExceeded where
  size : Size
  budget : Budget
  deriving DecidableEq, Repr

namespace BudgetExceeded

def message (e : BudgetExceeded) : String :=
  "Fields need " ++ e.size.bytes.text ++ " bytes in " ++ e.size.columns.text
    ++ " columns, limit is " ++ e.budget.maxBytes.text ++ " bytes in "
    ++ e.budget.maxColumns.text ++ " columns"

def diagnostic (e : BudgetExceeded) : Diagnostic where
  code := Diagnostic.budgetExceededCode
  summary := e.message
  hint := some "Split the fields across schemas or shrink string maxLength values"

end BudgetExceeded

/-- Why a stored budget is refused. -/
inductive BudgetError where
  /-- The text is not that of a budget. -/
  | malformed
  /-- A limit is zero. -/
  | zeroLimit
  deriving DecidableEq, Repr

namespace BudgetError

/-- The refusal in words. A text that is not that of a budget is refused in the
words of its reader. -/
def message (e : BudgetError) (reader : String := "") : String :=
  match e with
  | malformed => "Serialization error: " ++ reader
  | zeroLimit => "Configuration error: table budget limits must be positive"

end BudgetError

namespace Budget

def fits (b : Budget) (s : Size) : Bool :=
  decide (s.bytes ≤ b.maxBytes) && decide (s.columns ≤ b.maxColumns)

/-- The size of a list of fields, if it is within the budget. -/
def check (b : Budget) (fields : List Field) : Except BudgetExceeded Size :=
  if b.fits (Field.totalSize fields) then .ok (Field.totalSize fields)
  else .error ⟨Field.totalSize fields, b⟩

/-! ## Stored budgets -/

def toJson (b : Budget) : Json :=
  .object [("maxBytes", .ofCount b.maxBytes), ("maxColumns", .ofCount b.maxColumns)]

/-- Reads a budget, whatever its limits; a limit that is not given is the
default one. -/
def ofWritten? (v : Written) : Option Budget := do
  match ← v.row? ["maxBytes", "maxColumns"] 0 with
  | [maxBytes, maxColumns] =>
    let standard : Budget := {}
    return ⟨← Written.withDefault standard.maxBytes Written.count? maxBytes,
      ← Written.withDefault standard.maxColumns Written.count? maxColumns⟩
  | _ => none

/-- Reads the JSON text of a budget with positive limits. -/
def read (text : String) : Except BudgetError Budget :=
  match (Written.read? text).bind ofWritten? with
  | none => .error .malformed
  | some b => if b.maxBytes = 0 ∨ b.maxColumns = 0 then .error .zeroLimit else .ok b

end Budget

end Intake
