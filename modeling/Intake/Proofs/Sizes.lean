import Mathlib.Algebra.BigOperators.Group.List.Basic
import Mathlib.Algebra.GroupWithZero.Nat
import Intake.Field.Basic

/-!
# Sizes and their sums

Adding counts one after another stops at the greatest count, but it stops there for good, so
the sum of a list of counts is the exact sum, cut off once (`Count.foldl_add`).

The size of a field has one of three sources, its type alone, its answers or its width, and
it does not shrink when the answers become more or the width greater.
-/

namespace Intake

namespace Count

theorem saturate_mono {m n : Nat} (h : m ≤ n) : saturate m ≤ saturate n := by
  simp only [le_iff, val_saturate]
  omega

theorem saturate_add (m n : Nat) : saturate (m + n) = saturate m + saturate n := by
  apply ext
  simp only [val_saturate, val_add]
  omega

theorem saturate_val (c : Count) : saturate c.val = c :=
  ext (Nat.min_eq_left c.le_max)

/-- A sum that is cut off does not depend on whether its parts were. -/
theorem saturate_sum {α : Type} (part : α → Nat) (l : List α) :
    saturate (l.map fun a => (saturate (part a)).val).sum = saturate (l.map part).sum := by
  induction l with
  | nil => rfl
  | cons a rest ih =>
      rw [List.map_cons, List.map_cons, List.sum_cons, List.sum_cons, saturate_add, saturate_add,
        saturate_val, ih]

/-- Adding one part after another saturates the exact sum. -/
theorem foldl_add {α : Type} (part : α → Count) (l : List α) (total : Count) :
    l.foldl (fun sum a => sum + part a) total
      = saturate (total.val + (l.map fun a => (part a).val).sum) := by
  induction l generalizing total with
  | nil => exact (saturate_val total).symm
  | cons a rest ih =>
      rw [List.foldl_cons, ih, List.map_cons, List.sum_cons, ← Nat.add_assoc]
      simp only [saturate_add, saturate_val]

end Count

namespace Size

@[simp] theorem bytes_add (s t : Size) : (s + t).bytes = s.bytes + t.bytes := rfl

@[simp] theorem columns_add (s t : Size) : (s + t).columns = s.columns + t.columns := rfl

theorem part_sum {part : Size → Count} (hzero : part zero = 0)
    (hadd : ∀ s t, part (s + t) = part s + part t) (sizes : List Size) :
    part (sum sizes) = .saturate (sizes.map fun s => (part s).val).sum := by
  have hfold : part (sum sizes) = sizes.foldl (fun total s => total + part s) (part zero) :=
    (List.foldl_hom part fun total s => (hadd total s).symm).symm
  rw [hfold, Count.foldl_add, hzero]
  exact congrArg Count.saturate (Nat.zero_add _)

end Size

/-- The size of a field comes from its type alone, from its answers or from its width. -/
theorem FieldType.sizeSource (t : FieldType) :
    (∃ s, t.fixedSize? = some s) ∨ t = .multiChoice ∨ t.isTextLike = true := by
  cases t <;> simp [FieldType.fixedSize?, FieldType.isTextLike]

namespace Field

theorem bytes_totalSize (fields : List Field) :
    (totalSize fields).bytes = .saturate (fields.map fun f => f.size.bytes.val).sum := by
  rw [totalSize, Size.part_sum rfl Size.bytes_add, List.map_map]
  rfl

theorem columns_totalSize (fields : List Field) :
    (totalSize fields).columns = .saturate (fields.map fun f => f.size.columns.val).sum := by
  rw [totalSize, Size.part_sum rfl Size.columns_add, List.map_map]
  rfl

/-! ## The size of one field -/

theorem size_of_fixedSize? {f : Field} {t : FieldType} {s : Size} (htype : f.type = some t)
    (h : t.fixedSize? = some s) : f.size = s := by
  simp only [size, htype, h]

theorem size_of_multiChoice {f : Field} (htype : f.type = some .multiChoice) :
    f.size = f.choiceSize := by
  simp only [size, htype, FieldType.fixedSize?, if_true]

theorem size_of_isTextLike {f : Field} {t : FieldType} (htype : f.type = some t)
    (h : t.isTextLike = true) : f.size = f.textSize := by
  cases t with
  | string | singleChoice | inlineJsonBlob => simp [size, htype, FieldType.fixedSize?]
  | _ => cases h

theorem bytes_choiceSize (f : Field) :
    f.choiceSize.bytes
      = .saturate (5 * (f.answers.getD []).length + if f.allowsOtherChoices then 3000 else 0) := by
  have hanswers : ∀ n : Count, (n * answerBytes).val = min (n.val * 5) 0xFFFFFFFFFFFFFFFF :=
    fun n => rfl
  have hother : unboundedTextBytes.val = 3000 := rfl
  apply Count.ext
  unfold choiceSize
  cases f.allowsOtherChoices with
  | true =>
      simp only [if_true, Size.bytes_add, Count.val_add, hanswers, Count.val_saturate, hother]
      omega
  | false =>
      simp only [Bool.false_eq_true, if_false, hanswers, Count.val_saturate]
      omega

theorem columns_choiceSize (f : Field) :
    f.choiceSize.columns
      = .saturate ((f.answers.getD []).length + if f.allowsOtherChoices then 1 else 0) := by
  have hone : (1 : Count).val = 1 := rfl
  apply Count.ext
  unfold choiceSize
  cases f.allowsOtherChoices with
  | true =>
      simp only [if_true, Size.columns_add, Count.val_add, Count.val_saturate, hone]
      omega
  | false => simp only [Bool.false_eq_true, if_false, Nat.add_zero]

theorem bytes_textSize (f : Field) :
    f.textSize.bytes
      = .saturate (if f.isUnbounded then 3000 else 3 * f.effectiveMaxLength.val) := by
  unfold textSize
  cases f.isUnbounded <;> rfl

theorem columns_textSize (f : Field) : f.textSize.columns = 1 := by
  unfold textSize
  cases f.isUnbounded <;> rfl

end Field

end Intake
