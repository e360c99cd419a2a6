/-!
# Counts

Bytes, columns and text lengths are counted in 64 bits. Arithmetic on them
stops at the greatest count instead of wrapping around: `saturate` is the one
place where that happens, so a sum or product of counts is the saturation of
the exact sum or product (`val_add`, `val_mul`).
-/

namespace Intake

/-- A number of bytes, columns or characters, at most 2^64 - 1. -/
structure Count where
  val : Nat
  le_max : val ≤ 0xFFFFFFFFFFFFFFFF
  deriving DecidableEq

namespace Count

instance : Repr Count := ⟨fun n p => reprPrec n.val p⟩

/-- The count of an exact number, or the greatest count if there is none. -/
def saturate (n : Nat) : Count := ⟨min n 0xFFFFFFFFFFFFFFFF, Nat.min_le_right n _⟩

def ofNat? (n : Nat) : Option Count :=
  if h : n ≤ 0xFFFFFFFFFFFFFFFF then some ⟨n, h⟩ else none

instance (n : Nat) : OfNat Count n := ⟨saturate n⟩

instance : Inhabited Count := ⟨0⟩

instance : Add Count := ⟨fun a b => saturate (a.val + b.val)⟩

instance : Mul Count := ⟨fun a b => saturate (a.val * b.val)⟩

instance : LE Count := ⟨fun a b => a.val ≤ b.val⟩

instance : LT Count := ⟨fun a b => a.val < b.val⟩

instance (a b : Count) : Decidable (a ≤ b) := inferInstanceAs (Decidable (a.val ≤ b.val))

instance (a b : Count) : Decidable (a < b) := inferInstanceAs (Decidable (a.val < b.val))

def text (n : Count) : String := n.val.repr

@[ext] theorem ext {a b : Count} (h : a.val = b.val) : a = b := by
  cases a
  cases b
  cases h
  rfl

@[simp] theorem val_saturate (n : Nat) : (saturate n).val = min n 0xFFFFFFFFFFFFFFFF := rfl

theorem val_add (a b : Count) : (a + b).val = min (a.val + b.val) 0xFFFFFFFFFFFFFFFF := rfl

theorem val_mul (a b : Count) : (a * b).val = min (a.val * b.val) 0xFFFFFFFFFFFFFFFF := rfl

theorem le_iff {a b : Count} : a ≤ b ↔ a.val ≤ b.val := Iff.rfl

theorem lt_iff {a b : Count} : a < b ↔ a.val < b.val := Iff.rfl

end Count

end Intake
