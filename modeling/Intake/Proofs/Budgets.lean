import Intake.Budget
import Intake.Proofs.Sizes

/-!
# Budgets and exact totals

`Field.cost` is what a field takes up in numbers without a limit. A size is such a cost in counts,
which stop at the greatest one, and they stop three times: in a product, in a sum within one field
and in the sum over the fields. That is the same as stopping once, at the end
(`Field.totalSize_eq`).

A budget whose limits are below the greatest count therefore judges the exact total: a total that
had to be cut off is above every such limit, and so was the exact one.
-/

namespace Intake

namespace Count

/-- Below the greatest count nothing is cut off. -/
theorem saturate_le_iff {limit : Count} (hlimit : limit.val < 0xFFFFFFFFFFFFFFFF) (n : Nat) :
    saturate n ≤ limit ↔ n ≤ limit.val := by
  rw [le_iff, val_saturate]
  omega

end Count

/-- Bytes and columns of a table row, in numbers without a limit. -/
structure Cost where
  bytes : Nat
  columns : Nat

namespace Cost

/-- The cost in counts. -/
def size (c : Cost) : Size := ⟨.saturate c.bytes, .saturate c.columns⟩

def total (costs : List Cost) : Cost := ⟨(costs.map bytes).sum, (costs.map columns).sum⟩

/-- The cost is within the limits of a budget. -/
def FitsIn (c : Cost) (b : Budget) : Prop :=
  c.bytes ≤ b.maxBytes.val ∧ c.columns ≤ b.maxColumns.val

theorem total_perm {costs others : List Cost} (h : costs.Perm others) :
    total costs = total others := by
  rw [total, total, (h.map bytes).sum_eq, (h.map columns).sum_eq]

theorem size_total_append (costs others : List Cost) :
    (total (costs ++ others)).size = (total costs).size + (total others).size := by
  simp only [total, size, List.map_append, List.sum_append, Count.saturate_add]
  rfl

/-- Adding up sizes cuts off the exact total. -/
theorem sum_size (costs : List Cost) : Size.sum (costs.map size) = (total costs).size := by
  show (⟨(Size.sum (costs.map size)).bytes, (Size.sum (costs.map size)).columns⟩ : Size) = _
  rw [Size.part_sum rfl Size.bytes_add, Size.part_sum rfl Size.columns_add, List.map_map,
    List.map_map]
  exact congrArg₂ Size.mk (Count.saturate_sum bytes costs) (Count.saturate_sum columns costs)

theorem fits_size_iff {b : Budget} (hbytes : b.maxBytes.val < 0xFFFFFFFFFFFFFFFF)
    (hcolumns : b.maxColumns.val < 0xFFFFFFFFFFFFFFFF) (c : Cost) :
    b.fits c.size = true ↔ c.FitsIn b := by
  rw [Budget.fits, Bool.and_eq_true, decide_eq_true_iff, decide_eq_true_iff, size,
    Count.saturate_le_iff hbytes, Count.saturate_le_iff hcolumns, FitsIn]

end Cost

namespace Field

/-! ## The cost of a field -/

/-- A multiple choice costs a column of five bytes for each answer, and one of 3000 bytes if other
answers are taken. -/
def choiceCost (f : Field) : Cost where
  bytes := 5 * (f.answers.getD []).length + if f.allowsOtherChoices then 3000 else 0
  columns := (f.answers.getD []).length + if f.allowsOtherChoices then 1 else 0

/-- Text costs three bytes for each character that it may have, or 3000 without a limit. -/
def textCost (f : Field) : Cost where
  bytes := if f.isUnbounded then 3000 else 3 * f.effectiveMaxLength.val
  columns := 1

def cost (f : Field) : Cost :=
  match f.type with
  | none => ⟨0, 0⟩
  | some .attachmentBlob | some .attachmentCsv | some .attachmentJsonBlob
  | some .attachmentJsonTable | some .attachmentV2 => ⟨20, 1⟩
  | some .boolean => ⟨5, 1⟩
  | some .calendarDate => ⟨30, 1⟩
  | some .durationV2 => ⟨72, 1⟩
  | some .float => ⟨23, 1⟩
  | some .int => ⟨20, 1⟩
  | some .largeTextAttachment => ⟨3000, 1⟩
  | some .timeV2 => ⟨36, 1⟩
  | some .timestamp => ⟨35, 2⟩
  | some .multiChoice => f.choiceCost
  | some .inlineJsonBlob | some .singleChoice | some .string => f.textCost

def totalCost (fields : List Field) : Cost := .total (fields.map cost)

theorem choiceSize_eq (f : Field) : f.choiceSize = f.choiceCost.size := by
  show (⟨f.choiceSize.bytes, f.choiceSize.columns⟩ : Size) = _
  rw [bytes_choiceSize, columns_choiceSize]
  rfl

theorem textSize_eq (f : Field) : f.textSize = f.textCost.size := by
  show (⟨f.textSize.bytes, f.textSize.columns⟩ : Size) = _
  rw [bytes_textSize, columns_textSize]
  rfl

/-- The size of a field is its cost, each part cut off once. -/
theorem size_eq (f : Field) : f.size = f.cost.size := by
  unfold cost
  cases htype : f.type with
  | none => simp only [size, htype]; rfl
  | some t =>
      cases t with
      | multiChoice => rw [size_of_multiChoice htype, choiceSize_eq]
      | inlineJsonBlob | singleChoice | string => rw [size_of_isTextLike htype rfl, textSize_eq]
      | _ => exact size_of_fixedSize? htype rfl

/-- The size of a list of fields is its cost, each part cut off once. -/
theorem totalSize_eq (fields : List Field) : totalSize fields = (totalCost fields).size := by
  have hsizes : fields.map size = (fields.map cost).map Cost.size := by
    rw [List.map_map]
    exact List.map_congr_left fun f _ => f.size_eq
  rw [totalSize, hsizes, Cost.sum_size, totalCost]

end Field

namespace Budget

/-- A budget with limits that can be exceeded judges the exact cost. -/
theorem check_eq {b : Budget} (hbytes : b.maxBytes.val < 0xFFFFFFFFFFFFFFFF)
    (hcolumns : b.maxColumns.val < 0xFFFFFFFFFFFFFFFF) (fields : List Field) :
    ((Field.totalCost fields).FitsIn b → b.check fields = .ok (Field.totalCost fields).size)
      ∧ (¬(Field.totalCost fields).FitsIn b →
        b.check fields = .error ⟨(Field.totalCost fields).size, b⟩) := by
  have hfits := Cost.fits_size_iff hbytes hcolumns (Field.totalCost fields)
  rw [check, Field.totalSize_eq]
  exact ⟨fun h => if_pos (hfits.mpr h), fun h => if_neg (mt hfits.mp h)⟩

/-- The size of a list of fields is its exact cost, cut off once, in whatever order the fields
come and however the list is divided. A budget with limits below the greatest count accepts a list
exactly if its exact cost is within the limits, and tells that size whether it accepts or not. -/
theorem saturation_keeps_verdict (fields : List Field) :
    Field.totalSize fields = (Field.totalCost fields).size
      ∧ (∀ others, fields.Perm others → Field.totalSize others = Field.totalSize fields)
      ∧ (∀ others, Field.totalSize (fields ++ others)
          = Field.totalSize fields + Field.totalSize others)
      ∧ ∀ b : Budget, b.maxBytes.val < 0xFFFFFFFFFFFFFFFF →
          b.maxColumns.val < 0xFFFFFFFFFFFFFFFF →
          (b.check fields = .ok (Field.totalSize fields) ↔ (Field.totalCost fields).FitsIn b)
            ∧ (b.check fields = .error ⟨Field.totalSize fields, b⟩
                ↔ ¬(Field.totalCost fields).FitsIn b) := by
  refine ⟨Field.totalSize_eq fields, ?_, ?_, ?_⟩
  · intro others hperm
    rw [Field.totalSize_eq, Field.totalSize_eq, Field.totalCost, Field.totalCost,
      Cost.total_perm (hperm.map Field.cost)]
  · intro others
    simp only [Field.totalSize_eq, Field.totalCost, List.map_append, Cost.size_total_append]
  · intro b hbytes hcolumns
    obtain ⟨hok, herror⟩ := check_eq hbytes hcolumns fields
    rw [Field.totalSize_eq]
    by_cases hfits : (Field.totalCost fields).FitsIn b
    · rw [hok hfits]
      exact ⟨iff_of_true rfl hfits, iff_of_false (fun h => by cases h) (not_not_intro hfits)⟩
    · rw [herror hfits]
      exact ⟨iff_of_false (fun h => by cases h) hfits, iff_of_true rfl hfits⟩

/-- Two texts of half the greatest width and an integer: the bytes are cut off, in any order of
the fields, and the greatest limit that can be exceeded is. -/
theorem saturation_keeps_verdict_wide :
    let text : Field :=
      { name := "text", type := some .string, maxLength := some (.saturate 0x7FFFFFFFFFFFFFFF) }
    let count : Field := { name := "count", type := some .int }
    let b : Budget := { maxBytes := .saturate 0xFFFFFFFFFFFFFFFE }
    (Field.totalCost [text, text, count]).bytes = 6 * 0x7FFFFFFFFFFFFFFF + 20
      ∧ Field.totalSize [text, count, text] = ⟨.saturate 0xFFFFFFFFFFFFFFFF, 3⟩
      ∧ b.check [text, text, count] = .error ⟨⟨.saturate 0xFFFFFFFFFFFFFFFF, 3⟩, b⟩ := by
  intro text count b
  obtain ⟨hsize, hperm, -, hcheck⟩ := saturation_keeps_verdict [text, text, count]
  have hcut : Field.totalSize [text, text, count] = ⟨.saturate 0xFFFFFFFFFFFFFFFF, 3⟩ :=
    hsize.trans (by decide)
  have hexceeds : ¬(Field.totalCost [text, text, count]).FitsIn b := fun h =>
    absurd h.1 (by decide)
  refine ⟨by decide, ?_, ?_⟩
  · rw [hperm [text, count, text] ((List.Perm.swap count text []).cons text), hcut]
  · rw [← hcut]
    exact (hcheck b (by decide) (by decide)).2.mpr hexceeds

end Budget

end Intake
