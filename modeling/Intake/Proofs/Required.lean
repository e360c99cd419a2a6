import Intake.Proofs.Records
import Intake.Proofs.Revisions

/-!
# Required fields

A required field fails if the record has no value for it, and `null` is no value. That is
asked of the value as uploaded. The canonical value is `null` in one case only: a single
choice whose one answer is `null` (`canonicalForm_eq_null_iff`). So where no field fails,
each required field has a value in the result, and it is `null` exactly if the last field
of that name is such a choice.
-/

namespace Intake

/-! ## Values that become `null` -/

theorem Json.asStringValue_eq_null_iff {v : Json} : v.asStringValue = .null ↔ v = .null := by
  cases v <;> simp [Json.asStringValue]

namespace Canonical

theorem calendarDate_eq_ok {v w : Json} (h : calendarDate v = .ok w) :
    ∃ d : Date, w = .string d.text := by
  cases v with
  | string s =>
      obtain ⟨d, -, rfl⟩ := ofCalendar_eq_ok.mp h
      exact ⟨d, rfl⟩
  | null | bool _ | number _ | array _ | object _ => cases h

theorem multiChoice_eq_ok {v w : Json} (h : multiChoice v = .ok w) :
    ∃ answers, w = .array answers := by
  cases v with
  | array answers => exact ⟨_, (Except.ok.inj h).symm⟩
  | null | bool _ | number _ | string _ | object _ => cases h

theorem singleChoice_eq_null_iff {v : Json} (hv : v ≠ .null) :
    singleChoice v = .ok .null ↔ v = .array [.null] := by
  unfold singleChoice
  split
  · simp [Json.asStringValue_eq_null_iff]
  · next answers hone =>
      refine iff_of_false nofun fun h => ?_
      exact hone .null (Json.array.inj h)
  · next hnone =>
      simp only [Except.ok.injEq, Json.asStringValue_eq_null_iff, hv, false_iff]
      exact hnone _

end Canonical

namespace FieldType

open Canonical

/-- The rule of a type other than the single choice does not make a value `null`. -/
theorem canonicalForm_ne_null {t : FieldType} (ht : t ≠ .singleChoice) {v w : Json}
    (hv : v ≠ .null) (h : t.canonicalForm v = .ok w) : w ≠ .null := by
  rintro rfl
  cases t with
  | singleChoice => exact ht rfl
  | boolean =>
      obtain ⟨b, hb⟩ := boolean_eq_ok h
      cases hb
  | calendarDate =>
      obtain ⟨d, hd⟩ := calendarDate_eq_ok h
      cases hd
  | durationV2 => exact hv (duration_eq_ok h).symm
  | float =>
      obtain ⟨n, hn⟩ := float_eq_ok h
      cases hn
  | int =>
      obtain ⟨n, hn, -⟩ := int_eq_ok h
      cases hn
  | multiChoice =>
      obtain ⟨answers, hanswers⟩ := multiChoice_eq_ok h
      cases hanswers
  | string => exact hv (Json.asStringValue_eq_null_iff.mp (Except.ok.inj h))
  | timeV2 =>
      obtain ⟨time, htime⟩ := time_eq_ok h
      cases htime
  | timestamp =>
      obtain ⟨time, -, htime⟩ := timestamp_eq_ok h
      cases htime
  | attachmentBlob | attachmentCsv | attachmentJsonBlob | attachmentJsonTable | attachmentV2
  | largeTextAttachment | inlineJsonBlob => exact hv (Except.ok.inj h)

theorem canonicalForm_eq_null_iff {t : FieldType} {v : Json} (hv : v ≠ .null) :
    t.canonicalForm v = .ok .null ↔ t = .singleChoice ∧ v = .array [.null] := by
  by_cases ht : t = .singleChoice
  · subst ht
    rw [eq_self, true_and]
    exact singleChoice_eq_null_iff hv
  · exact iff_of_false (fun h => canonicalForm_ne_null ht hv h rfl) fun h => ht h.1

end FieldType

/-! ## Records without errors -/

/-- A value other than `null` for a field that does not fail has a canonical form. -/
theorem Field.exists_of_not_failed {f : Field} {v : Json} (hv : v ≠ .null)
    (h : ∀ fault, f.outcome (some v) ≠ .failed fault) :
    ∃ t w, f.type = some t ∧ t.canonicalForm v = .ok w ∧ f.outcome (some v) = .value w := by
  have hraw := filter_isNull_eq_some_iff.mpr ⟨rfl, hv⟩
  cases htype : f.type with
  | none => exact absurd (by rw [outcome, hraw, htype]) (h .untyped)
  | some t =>
      cases hw : t.canonical v with
      | error r => exact absurd (by simp only [outcome, hraw, htype, hw]) (h (.rejected r))
      | ok w =>
          exact ⟨t, w, rfl, (FieldType.canonical_eq_ok hv).mp hw, outcome_some htype hv hw⟩

namespace Record

theorem errors_eq_nil_iff {fields : List Field} {record : Dict Json} :
    errors fields record = []
      ↔ ∀ f ∈ fields, ∀ fault, outcome (sanitizeKeys record) f ≠ .failed fault := by
  rw [errors, List.filterMap_eq_nil_iff]
  refine forall₂_congr fun f _ => ?_
  cases outcome (sanitizeKeys record) f <;> simp [Outcome.fault?]

/-- The last field of a name decides what is found under it, if it has a value. -/
theorem get?_values_of_find? {fields : List Field} {record : Dict Json} {k : String} {g : Field}
    {w : Json} (hg : Revision.find? fields k = some g)
    (h : outcome (sanitizeKeys record) g = .value w) :
    (values fields record).get? k = some w := by
  obtain ⟨hname, before, after, hfields, hbefore⟩ := List.find?_eq_some_iff_append.mp hg
  rw [get?_values_eq, List.findSome?_eq_some_iff]
  refine ⟨before, g, after, hfields, ?_, ?_⟩
  · rw [if_pos (by simpa using hname), h]
    rfl
  · intro f hf
    rw [if_neg (by simpa using hbefore f hf)]

/-- A record has a value for a required field that does not fail. -/
theorem exists_of_required {record : Dict Json} {f : Field} (hrequired : f.required = true)
    (h : ∀ fault, outcome (sanitizeKeys record) f ≠ .failed fault) :
    ∃ v, (sanitizeKeys record).get? f.name = some v ∧ v ≠ .null := by
  by_contra hnone
  refine h .missing (Field.outcome_blank f ?_ |>.trans (if_pos hrequired))
  cases hget : (sanitizeKeys record).get? f.name with
  | none => exact Or.inl rfl
  | some v =>
      refine Or.inr (congrArg some ?_)
      by_contra hv
      exact hnone ⟨v, hget, hv⟩

/-- Where no field fails, each required field has a value in the result, and the value is
`null` exactly if the last field of that name is a single choice whose one answer in the
record is `null`. -/
theorem required_has_value (fields : List Field) (record : Dict Json)
    (h : errors fields record = []) (f : Field) (hf : f ∈ fields) (hrequired : f.required = true) :
    ∃ w, (values fields record).get? f.name = some w
      ∧ (w = .null
        ↔ (sanitizeKeys record).get? f.name = some (.array [.null])
          ∧ ∃ g, Revision.find? fields f.name = some g ∧ g.type = some .singleChoice) := by
  rw [errors_eq_nil_iff] at h
  obtain ⟨v, hget, hv⟩ := exists_of_required hrequired (h f hf)
  obtain ⟨g, hfind⟩ := Revision.exists_find?_of_mem hf
  obtain ⟨hg, hname⟩ := Revision.find?_some hfind
  have hfails := h g hg
  rw [outcome, hname, hget] at hfails
  obtain ⟨t, w, htype, hw, hvalue⟩ := Field.exists_of_not_failed hv hfails
  refine ⟨w, get?_values_of_find? hfind (by rw [outcome, hname, hget, hvalue]), ?_⟩
  rw [hget, Option.some.injEq]
  constructor
  · rintro rfl
    obtain ⟨rfl, rfl⟩ := (FieldType.canonicalForm_eq_null_iff hv).mp hw
    exact ⟨rfl, g, hfind, htype⟩
  · rintro ⟨rfl, g', hg', htype'⟩
    obtain rfl := Option.some.inj (hfind.symm.trans hg')
    obtain rfl := Option.some.inj (htype.symm.trans htype')
    exact (Except.ok.inj hw).symm

/-- Of two fields of one name, under a key that is sanitized, the later one is text, and
writes the `null` of the answer out. -/
theorem required_has_value_text :
    errors [{ name := "a_b", type := some .singleChoice }, { name := "a_b", type := some .string }]
        (Dict.ofList [("a!b", .array [.null])]) = []
      ∧ ∃ w, (values [{ name := "a_b", type := some .singleChoice },
            { name := "a_b", type := some .string }]
            (Dict.ofList [("a!b", .array [.null])])).get? "a_b" = some w ∧ w ≠ .null := by
  have herrors : errors
      [{ name := "a_b", type := some .singleChoice }, { name := "a_b", type := some .string }]
      (Dict.ofList [("a!b", .array [.null])]) = [] := rfl
  obtain ⟨w, hw, hnull⟩ := required_has_value _ _ herrors
    { name := "a_b", type := some .singleChoice } List.mem_cons_self rfl
  refine ⟨herrors, w, hw, fun h => ?_⟩
  obtain ⟨-, g, hg, hchoice⟩ := hnull.mp h
  obtain rfl : { name := "a_b", type := some .string } = g := Option.some.inj hg
  cases hchoice

/-- A required single choice whose one answer is `null` does not fail, and its value in the
result is `null`. -/
theorem required_null_answer :
    errors [{ name := "mood", type := some .singleChoice }]
        (Dict.ofList [("mood", .array [.null])]) = []
      ∧ Field.required { name := "mood", type := some .singleChoice } = true
      ∧ ¬∃ w, (values [{ name := "mood", type := some .singleChoice }]
            (Dict.ofList [("mood", .array [.null])])).get? "mood" = some w ∧ w ≠ .null := by
  have hget : (values [{ name := "mood", type := some .singleChoice }]
      (Dict.ofList [("mood", .array [.null])])).get? "mood" = some .null := rfl
  refine ⟨rfl, rfl, ?_⟩
  rintro ⟨w, hw, hne⟩
  exact hne (Option.some.inj (hw.symm.trans hget))

end Record

end Intake
