import Intake.Json.Row

/-!
# Sizes in the table store

What a field, or a list of fields, takes up in a row of the table: bytes and
columns. Sizes are added component by component, and both components stop at
the greatest count.
-/

namespace Intake

/-- Bytes and columns of a table row. -/
structure Size where
  bytes : Count
  columns : Count
  deriving DecidableEq, Repr

namespace Size

/-- No bytes in no columns. -/
def zero : Size := ⟨0, 0⟩

instance : Inhabited Size := ⟨zero⟩

instance : Add Size := ⟨fun a b => ⟨a.bytes + b.bytes, a.columns + b.columns⟩⟩

def sum (sizes : List Size) : Size := sizes.foldl (· + ·) zero

/-- The totals that adding the sizes to `total`, one after another, passes
through. -/
def runningSums (total : Size) : List Size → List Size
  | [] => []
  | s :: rest => (total + s) :: runningSums (total + s) rest

def toJson (s : Size) : Json :=
  .object [("numBytes", .ofCount s.bytes), ("numColumns", .ofCount s.columns)]

def ofWritten? (v : Written) : Option Size := do
  match ← v.row? ["numBytes", "numColumns"] 2 with
  | [bytes, columns] =>
    return ⟨← Written.required Written.count? bytes, ← Written.required Written.count? columns⟩
  | _ => none

end Size

end Intake
