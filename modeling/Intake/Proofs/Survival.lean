import Intake.Proofs.Records
import Intake.Proofs.Revisions

/-!
# Data survives an accepted revision

The canonical values that were stored under one revision of a schema are uploaded
again under a later one that the first accepts. A field that replaces another takes
over each of its values (`outcome_of_replaces`): as it is if the type stays or an
integer becomes a decimal, and written out if the field becomes text. So nothing that
was stored is rejected or lost, and the only new errors are required fields for which
nothing was stored.

Calendar dates are left out here as well: a date of a year with more than four digits
is not read back.
-/

namespace Intake

/-- What the value `w` of the field `f` may become in the field `g`. -/
inductive Survives (f g : Field) (w : Json) : Json → Prop where
  | kept (htype : f.type = g.type ∨ (f.type = some .int ∧ g.type = some .float)) :
      Survives f g w w
  | written (hstring : g.type = some .string) : Survives f g w (.string w.asText)

/-! ## One field -/

namespace FieldType

theorem canonical_float_of_int {v w : Json} (hw : w ≠ .null) (h : canonical .int v = .ok w) :
    canonical .float w = .ok w := by
  obtain ⟨n, rfl, -⟩ := Canonical.int_eq_ok (canonicalForm_of_canonical h hw)
  rfl

end FieldType

/-- A field that replaces another takes over its values. -/
theorem Field.outcome_of_replaces {f g : Field} (hfg : f.Replaces g)
    (hdate : g.type ≠ some .calendarDate) {raw : Option Json} {w : Json}
    (h : f.outcome raw = .value w) (hw : w ≠ .null) :
    ∃ w', g.outcome (some w) = .value w' ∧ Survives f g w w' := by
  obtain ⟨t, v, hf, -, hv⟩ := Field.outcome_eq_value h
  have hstring : g.type = some .string → ∃ w', g.outcome (some w) = .value w' ∧ Survives f g w w' :=
    fun hg => ⟨_, Field.outcome_some hg hw (FieldType.canonical_string hw), .written hg⟩
  cases hfg.type with
  | same htype _ =>
      have hg : g.type = some t := htype ▸ hf
      have ht : t ≠ .calendarDate := by
        rintro rfl
        exact hdate hg
      exact ⟨w, Field.outcome_some hg hw (FieldType.canonical_settles ht hv), .kept (.inl htype)⟩
  | decimal hint hfloat =>
      obtain rfl := Option.some.inj (hf.symm.trans hint)
      exact ⟨w, Field.outcome_some hfloat hw (FieldType.canonical_float_of_int hw hv),
        .kept (.inr ⟨hint, hfloat⟩)⟩
  | text _ _ hnew _ => exact hstring hnew
  | textLike _ _ hnew _ => exact hstring hnew

/-! ## A whole record -/

namespace Record

/-- Each stored value has a field to come from and one to go to. -/
theorem outcome_of_stored {old new : List Field} (haccepts : Revision.Accepts old new)
    (hdates : ∀ g ∈ new, g.type ≠ some .calendarDate) {record : Dict Json} {k : String} {w : Json}
    (h : (values old record).get? k = some w) (hw : w ≠ .null) :
    ∃ f ∈ old, ∃ g ∈ new, f.name = k ∧ g.name = k ∧ outcome (sanitizeKeys record) f = .value w
      ∧ ∃ w', outcome (values old record) g = .value w' ∧ Survives f g w w' := by
  obtain ⟨f, hf, rfl, hvalue⟩ := exists_of_get?_values h
  obtain ⟨g, hg, hfg⟩ := (Revision.accepts_iff.mp haccepts).2 f hf
  obtain ⟨w', hw', hsurvives⟩ := Field.outcome_of_replaces hfg (hdates g hg) hvalue hw
  refine ⟨f, hf, g, hg, rfl, hfg.name.symm, hvalue, w', ?_, hsurvives⟩
  rw [outcome, ← hfg.name, h, hw']

theorem blank_of_failed {old new : List Field} (haccepts : Revision.Accepts old new)
    (hdates : ∀ g ∈ new, g.type ≠ some .calendarDate) {record : Dict Json} {g : Field}
    (hg : g ∈ new) {fault : FieldFault} (h : outcome (values old record) g = .failed fault) :
    (values old record).get? g.name = none ∨ (values old record).get? g.name = some .null := by
  by_contra hstored
  rw [not_or] at hstored
  obtain ⟨w, hw⟩ := Option.ne_none_iff_exists'.mp hstored.1
  have hne : w ≠ .null := fun hnull => hstored.2 (hnull ▸ hw)
  obtain ⟨f, -, g', hg', -, hname, -, w', hvalue, -⟩ := outcome_of_stored haccepts hdates hw hne
  obtain rfl := List.inj_on_of_nodup_map (Revision.accepts_iff.mp haccepts).1 hg' hg hname
  cases h.symm.trans hvalue

/-- What was stored under one revision survives an accepted one: its values are found
again under their names, and only a required field without a value fails. -/
theorem values_survive (old new : List Field)
    (haccepts : (Report.ofRevision old new).isCompatible = true)
    (hdates : ∀ g ∈ new, g.type ≠ some .calendarDate) (record : Dict Json) :
    (∀ e ∈ errors new (values old record),
        e.fault.message = "Required field is missing"
          ∧ ∃ g ∈ new, e = ⟨g.name, .missing⟩ ∧ g.required = true
            ∧ ((values old record).get? g.name = none
              ∨ (values old record).get? g.name = some .null))
      ∧ ∀ k w, (values old record).get? k = some w → w ≠ .null →
          ∃ f ∈ old, ∃ g ∈ new, f.name = k ∧ g.name = k
            ∧ outcome (sanitizeKeys record) f = .value w
            ∧ ∃ w', (values new (values old record)).get? k = some w' ∧ Survives f g w w' := by
  constructor
  · intro e he
    obtain ⟨g, hg, hname, houtcome⟩ := mem_errors he
    rw [sanitizeKeys_values] at houtcome
    have hblank := blank_of_failed haccepts hdates hg houtcome
    rw [outcome, Field.outcome_blank g hblank] at houtcome
    split at houtcome
    · next hrequired =>
        have hfault : e.fault = .missing := (Outcome.failed.inj houtcome).symm
        refine ⟨by rw [hfault]; rfl, g, hg, ?_, hrequired, hblank⟩
        rw [← hname, ← hfault]
    · cases houtcome
  · intro k w hw hne
    obtain ⟨f, hf, g, hg, hfk, rfl, hvalue, w', hw', hsurvives⟩ :=
      outcome_of_stored haccepts hdates hw hne
    have hnodup := (Revision.accepts_iff.mp haccepts).1
    refine ⟨f, hf, g, hg, hfk, rfl, hvalue, w', get?_values hnodup hg ?_, hsurvives⟩
    rw [sanitizeKeys_values]
    exact hw'

/-- The text of an integer is stored as a number, and a note that is asked for later is
all that is missing. -/
theorem values_survive_note :
    (Report.ofRevision [{ name := "count", type := some .int }]
        [{ name := "count", type := some .float },
          { name := "note", type := some .string }]).isCompatible = true
      ∧ (∀ e ∈ errors [{ name := "count", type := some .float },
            { name := "note", type := some .string }]
            (values [{ name := "count", type := some .int }]
              (Dict.ofList [("count", .string "3.7")])),
          e.fault.message = "Required field is missing")
      ∧ ∃ w', (values [{ name := "count", type := some .float },
            { name := "note", type := some .string }]
            (values [{ name := "count", type := some .int }]
              (Dict.ofList [("count", .string "3.7")]))).get? "count" = some w' := by
  have haccepts : (Report.ofRevision [{ name := "count", type := some .int }]
      [{ name := "count", type := some .float },
        { name := "note", type := some .string }]).isCompatible = true := rfl
  obtain ⟨herrors, hvalues⟩ :=
    values_survive _ _ haccepts (by decide) (Dict.ofList [("count", .string "3.7")])
  obtain ⟨-, -, -, -, -, -, -, w', hw', -⟩ :=
    hvalues "count" (.number (Numeral.ofInt 3)) rfl Json.noConfusion
  exact ⟨haccepts, fun e he => (herrors e he).1, w', hw'⟩

end Record

end Intake
