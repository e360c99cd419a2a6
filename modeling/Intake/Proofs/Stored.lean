import Intake.Budget
import Intake.Field.Stored
import Intake.Proofs.Json.Parsing
import Intake.Proofs.Json.Rows
import Intake.Revision

/-!
# Stored structures are read back

Field definitions, sizes, reports and budgets are each written as a row of their fields, with
the keys that their readers look for, and every field is recovered.
-/

namespace Intake

open Written (Recovers)

theorem FieldType.ofName?_name (t : FieldType) : ofName? t.name = some t := by
  cases t <;> rfl

theorem FieldType.recovers : Recovers ofWritten? toJson := by
  refine ⟨rfl, fun t => ?_⟩
  rw [toJson, Json.written, ofWritten?, Piece.text?_ofText, Option.bind_some, ofName?_name]

/-! ## Field definitions -/

/-- What is stored of a definition, for each of `Field.storedKeys`. -/
def Field.storedValues (f : Field) : List (Option Json) :=
  [some (.string f.name), f.type.map FieldType.toJson, some (.bool f.required),
    f.maxLength.map Json.ofCount, f.unboundedText.map .bool, f.answers.map Json.ofTexts,
    f.allowOtherChoices.map .bool, f.fileExtension.map .string, f.mimeType.map .string]

theorem Field.toJson_eq (f : Field) : f.toJson = .ofRow storedKeys f.storedValues := by
  simp only [toJson, storedKeys, storedValues, Json.ofRow, Json.filled, List.zip_cons_cons,
    List.zip_nil_left, List.flatMap_cons, List.flatMap_nil, Json.member?_map, List.append_assoc,
    List.append_nil]
  rfl

theorem Field.recovers : Recovers ofWritten? toJson := by
  refine ⟨rfl, fun f => ?_⟩
  have hrow : Written.row? storedKeys 1 f.toJson.written
      = some (f.storedValues.map (Option.map Json.written)) := by
    rw [f.toJson_eq]
    exact Written.row?_ofRow f.storedValues (by decide) rfl 1
  have hname : Written.required Written.text? (some (Json.string f.name).written) = some f.name :=
    Recovers.text.reads f.name
  have hrequired :
      Written.withDefault true Written.bool? (some (Json.bool f.required).written)
        = some f.required := Recovers.bool.reads f.required
  rw [ofWritten?, hrow]
  simp only [storedValues, List.map_cons, List.map_nil, Option.map_some, Option.bind_eq_bind,
    Option.bind_some, hname, hrequired, FieldType.recovers.optional, Recovers.count.optional,
    Recovers.bool.optional, Recovers.texts.optional, Recovers.text.optional]
  rfl

/-! ## Sizes, budgets and reports -/

theorem Size.recovers : Recovers ofWritten? toJson := by
  refine ⟨rfl, fun s => ?_⟩
  have hrow : Written.row? ["numBytes", "numColumns"] 2 s.toJson.written
      = some [some (Json.ofCount s.bytes).written, some (Json.ofCount s.columns).written] :=
    Written.row?_ofRow [some (.ofCount s.bytes), some (.ofCount s.columns)] (by decide) rfl 2
  have hcount : ∀ n, Written.required Written.count? (some (Json.ofCount n).written) = some n :=
    Recovers.count.reads
  rw [ofWritten?, hrow]
  simp only [Option.bind_eq_bind, Option.bind_some, hcount]
  rfl

theorem Budget.recovers : Recovers ofWritten? toJson := by
  refine ⟨rfl, fun b => ?_⟩
  have hrow : Written.row? ["maxBytes", "maxColumns"] 0 b.toJson.written
      = some [some (Json.ofCount b.maxBytes).written, some (Json.ofCount b.maxColumns).written] :=
    Written.row?_ofRow [some (.ofCount b.maxBytes), some (.ofCount b.maxColumns)] (by decide) rfl 0
  have hcount : ∀ d n,
      Written.withDefault d Written.count? (some (Json.ofCount n).written) = some n :=
    fun _ => Recovers.count.reads
  rw [ofWritten?, hrow]
  simp only [Option.bind_eq_bind, Option.bind_some, hcount]
  rfl

theorem Report.recovers : Recovers ofWritten? toJson := by
  refine ⟨rfl, fun r => ?_⟩
  have hrow : Written.row? ["breakingChanges", "changedFields", "addedFields"] 3 r.toJson.written
      = some [some (Json.ofTexts r.breakingChanges).written,
          some (Json.ofTexts r.changedFields).written, some (Json.ofTexts r.addedFields).written] :=
    Written.row?_ofRow [some (.ofTexts r.breakingChanges), some (.ofTexts r.changedFields),
      some (.ofTexts r.addedFields)] (by decide) rfl 3
  have htexts : ∀ texts, Written.required (Written.list? Written.text?)
      (some (Json.ofTexts texts).written) = some texts := Recovers.texts.reads
  rw [ofWritten?, hrow]
  simp only [Option.bind_eq_bind, Option.bind_some, htexts]
  rfl

/-! ## Stored texts -/

theorem Written.Recovers.read_text {α : Type} {item? : Written → Option α} {write : α → Json}
    (h : Recovers item? write) (a : α) : (read? (write a).text).bind item? = some a := by
  rw [read?_text, Option.bind_some, h.reads]

/-- A budget is read back from its text exactly if both of its limits are positive. -/
theorem Budget.read_text_iff (b : Budget) :
    Budget.read b.toJson.text = .ok b ↔ b.maxBytes ≠ 0 ∧ b.maxColumns ≠ 0 := by
  rw [Budget.read, Budget.recovers.read_text, ← not_or]
  by_cases h : b.maxBytes = 0 ∨ b.maxColumns = 0
  · simp only [if_pos h]
    exact ⟨nofun, fun hpositive => absurd h hpositive⟩
  · simp only [if_neg h]
    exact ⟨fun _ => h, fun _ => trivial⟩

/-- Every structure that a schema store holds is read back from its JSON text. -/
theorem stored_forms_round_trip :
    (∀ f : Field, Field.ofText? f.text = some f)
      ∧ (∀ fields, Field.listOfText? (Field.listText fields) = some fields)
      ∧ (∀ r : Report, (Written.read? r.toJson.text).bind Report.ofWritten? = some r)
      ∧ (∀ s : Size, (Written.read? s.toJson.text).bind Size.ofWritten? = some s)
      ∧ ∀ b : Budget, Budget.read b.toJson.text = .ok b ↔ b.maxBytes ≠ 0 ∧ b.maxColumns ≠ 0 :=
  ⟨Field.recovers.read_text, Field.recovers.list.read_text, Report.recovers.read_text,
    Size.recovers.read_text, Budget.read_text_iff⟩

end Intake
