import Mathlib.Data.List.Nodup
import Intake.Proofs.FixedPoints
import Intake.Record

/-!
# Canonical records

What a field contributes to the result of a record, and what is found in the result
under a name. A value there comes from a field of that name (`exists_of_get?_values`),
and if no other field has the name then the value of the field is found
(`get?_values`).

Names under which a record has a value are fixed points of the sanitizer, so the
canonical values are a record whose keys are sanitized already
(`sanitizeKeys_values`).
-/

namespace Intake

/-! ## The outcome of a field -/

namespace Field

theorem filter_isNull_eq_some_iff {raw : Option Json} {v : Json} :
    raw.filter (fun v => !v.isNull) = some v ↔ raw = some v ∧ v ≠ .null := by
  simp [Option.filter_eq_some_iff, ← Json.isNull_iff]

theorem filter_isNull_eq_none_iff {raw : Option Json} :
    raw.filter (fun v => !v.isNull) = none ↔ raw = none ∨ raw = some .null := by
  cases raw with
  | none => simp
  | some v => simp [Json.isNull_iff]

theorem outcome_blank (f : Field) {raw : Option Json} (h : raw = none ∨ raw = some .null) :
    f.outcome raw = if f.required then .failed .missing else .absent := by
  rw [outcome, filter_isNull_eq_none_iff.mpr h]

theorem outcome_some {f : Field} {t : FieldType} {v w : Json} (htype : f.type = some t)
    (hv : v ≠ .null) (h : t.canonical v = .ok w) : f.outcome (some v) = .value w := by
  rw [outcome, filter_isNull_eq_some_iff.mpr ⟨rfl, hv⟩, htype]
  simp only [h]

theorem outcome_eq_value {f : Field} {raw : Option Json} {w : Json} (h : f.outcome raw = .value w) :
    ∃ t v, f.type = some t ∧ raw = some v ∧ t.canonical v = .ok w := by
  unfold outcome at h
  split at h
  · split at h <;> cases h
  · next v hraw =>
      split at h
      · cases h
      · next t htype =>
          split at h
          · next w' hw =>
              obtain rfl := Outcome.value.inj h
              exact ⟨t, v, htype, (filter_isNull_eq_some_iff.mp hraw).1, hw⟩
          · cases h

end Field

/-! ## Values and errors -/

namespace Record

theorem sanitizeKey_of_get? {record : Dict Json} {k : String} {v : Json}
    (h : (sanitizeKeys record).get? k = some v) : Name.sanitizeKey k = k := by
  obtain ⟨e, -, he⟩ := List.mem_map.mp (Dict.mem_of_get?_ofList h)
  obtain rfl : Name.sanitizeKey e.1 = k := congrArg Prod.fst he
  exact Name.sanitizeKey_sanitizeKey e.1

theorem mem_valueEntries {fields : List Field} {sanitized : Dict Json} {k : String} {w : Json} :
    (k, w) ∈ fields.filterMap (fun f => (outcome sanitized f).value?.map fun v => (f.name, v))
      ↔ ∃ f ∈ fields, f.name = k ∧ outcome sanitized f = .value w := by
  rw [List.mem_filterMap]
  refine exists_congr fun f => and_congr_right fun _ => ?_
  cases outcome sanitized f <;> simp [Outcome.value?, and_comm]

theorem exists_of_get?_values {fields : List Field} {record : Dict Json} {k : String} {w : Json}
    (h : (values fields record).get? k = some w) :
    ∃ f ∈ fields, f.name = k ∧ outcome (sanitizeKeys record) f = .value w :=
  mem_valueEntries.mp (Dict.mem_of_get?_ofList h)

/-- A name has the value of the last field of that name that has one. -/
theorem get?_values_eq (fields : List Field) (record : Dict Json) (k : String) :
    (values fields record).get? k
      = fields.reverse.findSome? fun f =>
          if f.name = k then (outcome (sanitizeKeys record) f).value? else none := by
  rw [values, Dict.get?_ofList, ← List.filterMap_reverse]
  induction fields.reverse with
  | nil => rfl
  | cons f rest ih =>
      rw [List.filterMap_cons, List.findSome?_cons]
      cases (outcome (sanitizeKeys record) f).value? with
      | none => simp [ih]
      | some v =>
          by_cases hname : f.name = k
          · simp [hname]
          · simp [hname, List.lookup_cons, beq_false_of_ne (Ne.symm hname), ih]

/-- Where no name is declared twice, each field has its value in the result. -/
theorem get?_values {fields : List Field} {record : Dict Json}
    (hnodup : (fields.map Field.name).Nodup) {f : Field} {w : Json} (hf : f ∈ fields)
    (h : outcome (sanitizeKeys record) f = .value w) :
    (values fields record).get? f.name = some w := by
  cases hget : (values fields record).get? f.name with
  | none =>
      rw [values, Dict.get?_ofList, List.lookup_eq_none_iff] at hget
      have hne := hget (f.name, w) (List.mem_reverse.mpr (mem_valueEntries.mpr ⟨f, hf, rfl, h⟩))
      simp at hne
  | some w' =>
      obtain ⟨f', hf', hname, h'⟩ := exists_of_get?_values hget
      obtain rfl := List.inj_on_of_nodup_map hnodup hf' hf hname
      rw [Outcome.value.inj (h.symm.trans h')]

theorem sanitizeKeys_values (fields : List Field) (record : Dict Json) :
    sanitizeKeys (values fields record) = values fields record := by
  apply Dict.mapKeys_eq_self
  intro k w hw
  obtain ⟨f, -, rfl, hf⟩ := exists_of_get?_values hw
  obtain ⟨t, v, -, hv, -⟩ := Field.outcome_eq_value hf
  exact sanitizeKey_of_get? hv

theorem mem_errors {fields : List Field} {record : Dict Json} {e : FieldError}
    (h : e ∈ errors fields record) :
    ∃ f ∈ fields, e.field = f.name ∧ outcome (sanitizeKeys record) f = .failed e.fault := by
  obtain ⟨f, hf, he⟩ := List.mem_filterMap.mp h
  obtain ⟨fault, hfault, rfl⟩ := Option.map_eq_some_iff.mp he
  refine ⟨f, hf, rfl, ?_⟩
  cases houtcome : outcome (sanitizeKeys record) f with
  | failed fault' =>
      rw [houtcome] at hfault
      rw [Option.some.inj hfault]
  | absent | value v =>
      rw [houtcome] at hfault
      cases hfault

end Record

end Intake
