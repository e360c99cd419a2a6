import Intake.Canonical
import Intake.Proofs.Calendar.RoundTrip
import Intake.Proofs.Sanitizing

/-!
# Canonical values are fixed points

A value that has been brought into canonical form is its own canonical form, for
every type but the calendar date. Each rule is first inverted (`…_eq_ok`): a
value that it accepts becomes a value of one known form. On that form the rule
then has nothing left to do (`Settles`): integers are written in plain digits,
texts of dates and times are read back, and sanitized answers are sanitized
already.

Calendar dates are left out. They are read from the first ten bytes of a text,
and a date with a signed year is written in more.
-/

namespace Intake

theorem Json.isNull_iff {v : Json} : v.isNull = true ↔ v = .null := by
  cases v <;> simp [Json.isNull]

theorem Json.asText_number (numeral : Numeral) : (Json.number numeral).asText = numeral.text := by
  simp [asText, text, chars, written, Written.tokens, Token.chars, Numeral.text]

theorem Json.asStringValue_of_ne_null {w : Json} (hw : w ≠ .null) :
    w.asStringValue = .string w.asText := by
  cases w with
  | null => exact absurd rfl hw
  | bool _ | number _ | string _ | array _ | object _ => rfl

theorem Json.asStringValue_asStringValue (v : Json) :
    v.asStringValue.asStringValue = v.asStringValue := by
  cases v <;> rfl

namespace Canonical

/-- What the rule makes canonical it leaves as it is. -/
def Settles (rule : Json → Except Reason Json) : Prop :=
  ∀ v w : Json, rule v = .ok w → rule w = .ok w

theorem settles_ok : Settles .ok := fun _ _ _ => rfl

/-! ## Numbers -/

theorem intOfText_eq_ok {text : String} {w : Json} (h : intOfText text = .ok w) :
    ∃ d i, Decimal.ofText? text = some d ∧ d.truncate? = some i
      ∧ w = .number (Numeral.ofInt i) := by
  unfold intOfText at h
  split at h
  · cases h
  · next d hd =>
      split at h
      · next i hi => exact ⟨d, i, hd, hi, (Except.ok.inj h).symm⟩
      · cases h

theorem int_eq_ok {v w : Json} (h : int v = .ok w) : ∃ n, w = .number n ∧ n.isIntegral = true := by
  have hcut : ∀ {text : String}, intOfText text = .ok w →
      ∃ n, w = .number n ∧ n.isIntegral = true := by
    intro text htext
    obtain ⟨d, i, -, -, rfl⟩ := intOfText_eq_ok htext
    exact ⟨Numeral.ofInt i, rfl, rfl⟩
  cases v with
  | number n =>
      simp only [int] at h
      split at h
      · next hn =>
          obtain rfl := Except.ok.inj h
          exact ⟨n, rfl, hn⟩
      · exact hcut h
  | string s =>
      simp only [int] at h
      split at h
      · cases h
      · exact hcut h
  | null | bool _ | array _ | object _ => cases h

theorem int_of_isIntegral {n : Numeral} (h : n.isIntegral = true) :
    int (.number n) = .ok (.number n) :=
  if_pos h

theorem int_settles : Settles int := by
  intro v w h
  obtain ⟨n, rfl, hn⟩ := int_eq_ok h
  exact int_of_isIntegral hn

theorem float_eq_ok {v w : Json} (h : float v = .ok w) : ∃ n, w = .number n := by
  cases v with
  | number n => exact ⟨n, (Except.ok.inj h).symm⟩
  | string s =>
      simp only [float] at h
      split at h
      · cases h
      · split at h
        · cases h
        · split at h
          · next n _ => exact ⟨n, (Except.ok.inj h).symm⟩
          · cases h
  | null | bool _ | array _ | object _ => cases h

theorem float_settles : Settles float := by
  intro v w h
  obtain ⟨n, rfl⟩ := float_eq_ok h
  rfl

theorem boolean_eq_ok {v w : Json} (h : boolean v = .ok w) : ∃ b, w = .bool b := by
  cases v with
  | bool b => exact ⟨b, (Except.ok.inj h).symm⟩
  | number n =>
      simp only [boolean] at h
      split at h
      · split at h
        · exact ⟨_, (Except.ok.inj h).symm⟩
        · cases h
      · cases h
  | string s =>
      simp only [boolean] at h
      split at h
      · cases h
      · split at h
        · exact ⟨_, (Except.ok.inj h).symm⟩
        · split at h
          · exact ⟨_, (Except.ok.inj h).symm⟩
          · cases h
  | null | array _ | object _ => cases h

theorem boolean_settles : Settles boolean := by
  intro v w h
  obtain ⟨b, rfl⟩ := boolean_eq_ok h
  rfl

/-! ## Dates and times -/

theorem ofCalendar_eq_ok {α : Type} {write : α → String} {read : Except CalendarError α}
    {w : Json} : ofCalendar write read = .ok w ↔ ∃ a, read = .ok a ∧ w = .string (write a) := by
  cases read with
  | ok a =>
      constructor
      · intro h
        exact ⟨a, rfl, (Except.ok.inj h).symm⟩
      · rintro ⟨a', ha, rfl⟩
        obtain rfl := Except.ok.inj ha
        rfl
  | error e =>
      constructor
      · intro h
        cases h
      · rintro ⟨a, ha, -⟩
        cases ha

theorem duration_eq_ok {v w : Json} (h : duration v = .ok w) : w = v := by
  cases v with
  | string s =>
      simp only [duration] at h
      split at h
      · cases h
      · split at h
        · exact (Except.ok.inj h).symm
        · cases h
  | null | bool _ | number _ | array _ | object _ => cases h

theorem duration_settles : Settles duration := by
  intro v w h
  obtain rfl := duration_eq_ok h
  exact h

theorem time_eq_ok {v w : Json} (h : time v = .ok w) : ∃ t : TimeOfDay, w = .string t.text := by
  cases v with
  | string s =>
      obtain ⟨t, -, rfl⟩ := ofCalendar_eq_ok.mp h
      exact ⟨t, rfl⟩
  | null | bool _ | number _ | array _ | object _ => cases h

/-- The text of a time of day is read as a time of day, although a timestamp is
looked for first. -/
theorem readTime_text (t : TimeOfDay) : readTime t.text = .ok t.cut := by
  obtain ⟨e, he⟩ := t.timestamp_read_text
  rw [readTime, he]
  exact t.read_text

theorem time_string (s : String) :
    time (.string s) = ofCalendar TimeOfDay.text (readTime s) := rfl

theorem time_settles : Settles time := by
  intro v w h
  obtain ⟨t, rfl⟩ := time_eq_ok h
  rw [time_string, ofCalendar_eq_ok]
  refine ⟨t.cut, readTime_text t, ?_⟩
  rw [TimeOfDay.text, TimeOfDay.text, TimeOfDay.chars_cut]

theorem timestamp_number_eq_ok {n : Numeral} {w : Json} :
    timestamp (.number n) = .ok w
      ↔ ∃ millis t, n.integer? = some millis ∧ Timestamp.ofEpochMillis? millis = some t
        ∧ w = .string t.text := by
  simp only [timestamp]
  constructor
  · intro h
    split at h
    · next t ht =>
        obtain ⟨millis, hmillis, ht⟩ := Option.bind_eq_some_iff.mp ht
        exact ⟨millis, t, hmillis, ht, (Except.ok.inj h).symm⟩
    · cases h
  · rintro ⟨millis, t, hmillis, ht, rfl⟩
    rw [hmillis, Option.bind_some, ht]

theorem timestamp_eq_ok {v w : Json} (h : timestamp v = .ok w) :
    ∃ t : Timestamp, t.utc.date.supported = true ∧ w = .string t.text := by
  cases v with
  | number n =>
      obtain ⟨millis, t, -, ht, rfl⟩ := timestamp_number_eq_ok.mp h
      exact ⟨t, Timestamp.supported_of_ofEpochMillis? ht, rfl⟩
  | string s =>
      obtain ⟨t, ht, rfl⟩ := ofCalendar_eq_ok.mp h
      exact ⟨t, Timestamp.supported_of_read ht, rfl⟩
  | null | bool _ | array _ | object _ => cases h

theorem timestamp_string (s : String) :
    timestamp (.string s) = ofCalendar Timestamp.text (Timestamp.read s) := rfl

theorem timestamp_settles : Settles timestamp := by
  intro v w h
  obtain ⟨t, hsupported, rfl⟩ := timestamp_eq_ok h
  rw [timestamp_string, ofCalendar_eq_ok]
  exact ⟨t.cut, Timestamp.read_text hsupported, by rw [Timestamp.text_cut]⟩

/-! ## Choices -/

theorem singleChoice_eq_ok {v w : Json} (h : singleChoice v = .ok w) :
    ∃ x : Json, w = x.asStringValue := by
  unfold singleChoice at h
  split at h
  · exact ⟨_, (Except.ok.inj h).symm⟩
  · cases h
  · exact ⟨_, (Except.ok.inj h).symm⟩

theorem singleChoice_settles : Settles singleChoice := by
  intro v w h
  obtain ⟨x, rfl⟩ := singleChoice_eq_ok h
  cases x <;> rfl

theorem multiChoice_settles : Settles multiChoice := by
  intro v w h
  cases v with
  | array answers =>
      obtain rfl := Except.ok.inj h
      simp only [multiChoice, List.map_map, Function.comp_def, Json.asText,
        Name.sanitizeAnswer_sanitizeAnswer]
  | null | bool _ | number _ | string _ | object _ => cases h

end Canonical

namespace FieldType

open Canonical

theorem canonicalForm_settles {t : FieldType} (ht : t ≠ .calendarDate) :
    Settles t.canonicalForm := by
  cases t with
  | calendarDate => exact absurd rfl ht
  | boolean => exact boolean_settles
  | durationV2 => exact duration_settles
  | float => exact float_settles
  | int => exact int_settles
  | multiChoice => exact multiChoice_settles
  | singleChoice => exact singleChoice_settles
  | string =>
      intro v w h
      obtain rfl := Except.ok.inj h
      exact congrArg Except.ok (Json.asStringValue_asStringValue v)
  | timeV2 => exact time_settles
  | timestamp => exact timestamp_settles
  | attachmentBlob | attachmentCsv | attachmentJsonBlob | attachmentJsonTable | attachmentV2
  | largeTextAttachment | inlineJsonBlob => exact settles_ok

theorem canonical_null (t : FieldType) : t.canonical .null = .ok .null := rfl

/-- A value other than `null` is canonicalized by the rule of the type. -/
theorem canonical_eq_ok {t : FieldType} {v w : Json} (hv : v ≠ .null) :
    t.canonical v = .ok w ↔ t.canonicalForm v = .ok w := by
  rw [canonical, if_neg (mt Json.isNull_iff.mp hv), mapError_eq_ok]

/-- A canonical value other than `null` has come out of the rule of the type. -/
theorem canonicalForm_of_canonical {t : FieldType} {v w : Json} (h : t.canonical v = .ok w)
    (hw : w ≠ .null) : t.canonicalForm v = .ok w := by
  refine (canonical_eq_ok ?_).mp h
  rintro rfl
  exact hw (Except.ok.inj h).symm

theorem canonical_string {w : Json} (hw : w ≠ .null) :
    canonical .string w = .ok (.string w.asText) := by
  rw [canonical_eq_ok hw, ← Json.asStringValue_of_ne_null hw]
  rfl

theorem canonical_settles {t : FieldType} (ht : t ≠ .calendarDate) {v w : Json}
    (h : t.canonical v = .ok w) : t.canonical w = .ok w := by
  by_cases hw : w = .null
  · rw [hw]
    exact canonical_null t
  · rw [canonical_eq_ok hw]
    exact canonicalForm_settles ht v w (canonicalForm_of_canonical h hw)

theorem canonical?_some_eq_ok {t : FieldType} {v w : Json} :
    t.canonical? (some v) = .ok (some w) ↔ t.canonical v = .ok w := by
  cases h : t.canonical v <;> simp [canonical?, h, Except.map]

/-- What comes of a value other than `null` is what comes of the rule of the type. -/
theorem canonical?_eq_ok {t : FieldType} {v w : Json} (hv : v ≠ .null) :
    t.canonical? (some v) = .ok (some w) ↔ t.canonicalForm v = .ok w := by
  rw [canonical?_some_eq_ok, canonical_eq_ok hv]

theorem canonical?_eq_error {t : FieldType} {v : Json} {r : Reason} (hv : v ≠ .null) :
    t.canonical? (some v) = .error ⟨t, v, r⟩ ↔ t.canonicalForm v = .error r := by
  rw [canonical?, canonical, if_neg (mt Json.isNull_iff.mp hv)]
  cases t.canonicalForm v <;> simp [Except.mapError, Except.map]

/-- A canonical value is its own canonical form. -/
theorem canonical?_canonical_value (t : FieldType) (ht : t ≠ .calendarDate) (v w : Json)
    (h : t.canonical? (some v) = .ok (some w)) : t.canonical? (some w) = .ok (some w) :=
  canonical?_some_eq_ok.mpr (canonical_settles ht (canonical?_some_eq_ok.mp h))

/-- A leap second of the year 12345, in a layout that is not the canonical one. -/
theorem canonical?_leap_second :
    FieldType.timestamp ≠ .calendarDate
      ∧ FieldType.timestamp.canonical? (some (.string "+12345-12-31 23:59:60.9999 +0230"))
          = .ok (some (.string "+12345-12-31T21:29:60.999Z"))
      ∧ FieldType.timestamp.canonical? (some (.string "+12345-12-31T21:29:60.999Z"))
          = .ok (some (.string "+12345-12-31T21:29:60.999Z")) := by
  have ht : FieldType.timestamp ≠ .calendarDate := by decide
  have h : FieldType.timestamp.canonical?
      (some (.string "+12345-12-31 23:59:60.9999 +0230"))
      = .ok (some (.string "+12345-12-31T21:29:60.999Z")) := rfl
  exact ⟨ht, h, canonical?_canonical_value .timestamp ht _ _ h⟩

end FieldType

end Intake
