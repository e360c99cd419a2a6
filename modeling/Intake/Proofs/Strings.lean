import Intake.Proofs.FixedPoints
import Intake.Proofs.Json.Values

/-!
# Structured values as strings

The canonical string of a value that is neither `null` nor a string is its JSON text. So nothing is
lost: the value is the only one of its kind with this string, and it is read back from the string
unless one of its objects begins with the key that is set aside for numbers
(`canonical?_string_read_back`).

An object can have that key: in the text that it was uploaded in, other keys stand before it. Its
own text has the keys in order, and there it may come first.
-/

namespace Intake

theorem Json.asText_of_ne_string {v : Json} (h : ∀ s, v ≠ .string s) : v.asText = v.text := by
  cases v with
  | string s => exact absurd rfl (h s)
  | null | bool _ | number _ | array _ | object _ => rfl

namespace FieldType

theorem canonical?_string_eq_ok {v : Json} (hnull : v ≠ .null) (hstring : ∀ s, v ≠ .string s) :
    string.canonical? (some v) = .ok (some (.string v.text)) := by
  rw [canonical?_some_eq_ok, canonical_string hnull, Json.asText_of_ne_string hstring]

/-- A value that is neither `null` nor a string has a canonical string, and no other such value has
the same one. The value is read back from it exactly if the value is in normal form, is nested at
most 127 deep, and has no object that begins with the key that is set aside for numbers. -/
theorem canonical?_string_read_back (v : Json) (hnull : v ≠ .null) (hstring : ∀ s, v ≠ .string s) :
    ∃ text, string.canonical? (some v) = .ok (some (.string text))
      ∧ (Json.value? text = some v ↔ v.WellFormed ∧ v.depth ≤ 127 ∧ v.KeepsObjects)
      ∧ ∀ w, w ≠ .null → (∀ s, w ≠ .string s) →
          string.canonical? (some w) = .ok (some (.string text)) → w = v := by
  refine ⟨v.text, canonical?_string_eq_ok hnull hstring, v.value?_text_iff, ?_⟩
  intro w hwnull hwstring hw
  rw [canonical?_string_eq_ok hwnull hwstring] at hw
  have htext : w.text = v.text := Json.string.inj (Option.some.inj (Except.ok.inj hw))
  exact Json.text_inj htext

/-- Objects in an array and in an object, a number with an exponent, and strings with escapes. -/
theorem canonical?_string_read_back_nested :
    let n : Numeral := ⟨true, ['1'], ['5', '0'], some (false, ['0', '7']), rfl, rfl, rfl⟩
    let v : Json :=
      .object [("\n", .array [.object [], .number n, .null]), ("k", .object [("", .string "\\")])]
    let text := "\x7b\"\\n\":[\x7b\x7d,-1.50e+07,null],\"k\":\x7b\"\":\"\\\\\"\x7d\x7d"
    v ≠ .null ∧ (∀ s, v ≠ .string s)
      ∧ string.canonical? (some v) = .ok (some (.string text)) ∧ Json.value? text = some v := by
  intro n v text
  have hnull : v ≠ .null := Json.noConfusion
  have hstring : ∀ s, v ≠ .string s := fun _ => Json.noConfusion
  have htext : string.canonical? (some v) = .ok (some (.string text)) := rfl
  obtain ⟨text', htext', hread, -⟩ := canonical?_string_read_back v hnull hstring
  obtain rfl := Json.string.inj (Option.some.inj (Except.ok.inj (htext'.symm.trans htext)))
  have hwellFormed : v.WellFormed := by
    refine ⟨by decide, ⟨⟨List.Pairwise.nil, trivial⟩, trivial, trivial, trivial⟩, ?_, trivial⟩
    exact ⟨by decide, trivial, trivial⟩
  have hkeeps : v.KeepsObjects := by
    refine ⟨by decide, ⟨⟨by decide, trivial⟩, trivial, trivial, trivial⟩, ?_, trivial⟩
    exact ⟨by decide, trivial, trivial⟩
  exact ⟨hnull, hstring, htext, hread.mpr ⟨hwellFormed, by decide, hkeeps⟩⟩

/-- Where another key is written first, an object may have the key that is set aside for numbers.
Its canonical string has that key first and is not read. -/
theorem canonical?_string_not_read_back :
    let v : Json := .object [("$serde_json::private::Number", .string "5"), ("a", .bool true)]
    let text := "\x7b\"$serde_json::private::Number\":\"5\",\"a\":true\x7d"
    Json.value? "\x7b\"a\":true,\"$serde_json::private::Number\":\"5\"\x7d" = some v
      ∧ v ≠ .null ∧ (∀ s, v ≠ .string s) ∧ v.depth ≤ 127
      ∧ string.canonical? (some v) = .ok (some (.string text)) ∧ Json.value? text = none := by
  intro v text
  have htext : text = v.text := rfl
  have huploaded : "\x7b\"a\":true,\"$serde_json::private::Number\":\"5\"\x7d"
      = (Json.object [("a", .bool true), ("$serde_json::private::Number", .string "5")]).text := rfl
  refine ⟨?_, Json.noConfusion, fun _ => Json.noConfusion, by decide, rfl, ?_⟩
  · have hlong : Written.isLongNumber
        (Json.writtenMembers [("a", .bool true), ("$serde_json::private::Number", .string "5")])
          = false := rfl
    rw [huploaded, Json.value?, Written.read?_text, Option.bind_some, Json.written, Json.maxDepth,
      Written.value?, hlong]
    simp only [Json.writtenMembers, Json.written, Written.memberValues?, Written.value?,
      Piece.text?_ofText]
    rfl
  · rw [htext, Json.value?, Written.read?_text]
    rfl

end FieldType

end Intake
