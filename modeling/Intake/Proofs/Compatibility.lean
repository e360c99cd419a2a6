import Intake.Compatibility

/-!
# Compatibility is a preorder

`Field.Replaces` says in conditions, and without the list of reasons, when one
definition may take the place of another; `isCompatible_iff` is the bridge. There
are four ways for the type to change or to stay (`TypeReplaces`), and along each
of them widths only grow.

A definition replaces itself, and replacements compose. The one delicate point is
a text without a limit in the middle of two steps: its width is not compared with
anything, but then the flag that lifts the limit is on for the last definition
too, and no width is compared there either.
-/

namespace Intake

namespace Field

/-- Text of the old definition fits into the new one. -/
def WidthKept (old new : Field) : Prop :=
  new.isUnbounded = true ∨ old.effectiveMaxLength ≤ new.effectiveMaxLength

/-- The ways in which the type of a definition may go over into that of
another. -/
inductive TypeReplaces (old new : Field) : Prop where
  | same (htype : old.type = new.type)
      (hwidth : ∀ t ∈ new.type, t.isTextLike = true → WidthKept old new)
  | decimal (hold : old.type = some .int) (hnew : new.type = some .float)
  | text {t : FieldType} {width : Count} (hold : old.type = some t)
      (ht : t.textWidth? = some width) (hnew : new.type = some .string)
      (hwidth : new.isUnbounded = true ∨ width < new.effectiveMaxLength)
  | textLike {t : FieldType} (hold : old.type = some t) (ht : t.isTextLike = true)
      (hnew : new.type = some .string) (hwidth : WidthKept old new)

/-- The definition `new` may take the place of `old`. -/
structure Replaces (old new : Field) : Prop where
  name : old.name = new.name
  type : TypeReplaces old new
  otherChoices : old.allowsOtherChoices = true → new.allowsOtherChoices = true
  unbounded : old.isUnbounded = true → new.isUnbounded = true
  answers : ∀ answer ∈ old.answers.getD [], answer ∈ new.answers.getD []

/-! ## No problem with a part -/

theorem turnedOff_eq_false_iff {old new : Option Bool} :
    turnedOff old new = false ↔ ((old == some true) = true → (new == some true) = true) := by
  rcases old with _ | _ | _ <;> rcases new with _ | _ | _ <;> decide

theorem widthProblems_eq_nil_iff {old new : Field} :
    widthProblems old new = [] ↔ WidthKept old new := by
  unfold widthProblems WidthKept
  split
  · next h => simp [h]
  · next h =>
      split
      · next hlt =>
          simp [h, Count.le_iff, Nat.not_le_of_lt hlt]
      · next hlt =>
          simp only [true_iff]
          exact Or.inr (Nat.le_of_not_lt hlt)

theorem removedAnswers_isEmpty_iff {old new : Field} :
    (removedAnswers old new).isEmpty = true
      ↔ ∀ answer ∈ old.answers.getD [], answer ∈ new.answers.getD [] := by
  simp [removedAnswers, List.isEmpty_iff]

theorem becomesTextProblems_eq_nil_iff {old new : Field} {t : FieldType} :
    becomesTextProblems old new t = []
      ↔ (∃ width, t.textWidth? = some width
          ∧ (new.isUnbounded = true ∨ width < new.effectiveMaxLength))
        ∨ (t.textWidth? = none ∧ t.isTextLike = true ∧ WidthKept old new) := by
  cases hwidth : t.textWidth? with
  | some width =>
      rw [becomesTextProblems, hwidth]
      cases hunbounded : new.isUnbounded with
      | true => simp
      | false =>
          by_cases hle : new.effectiveMaxLength ≤ width
          · simp [hle, Count.lt_iff, Nat.not_lt_of_le (Count.le_iff.mp hle)]
          · simp [hle, Count.lt_iff, Nat.lt_of_not_le (mt Count.le_iff.mpr hle)]
  | none =>
      rw [becomesTextProblems, hwidth]
      cases htext : t.isTextLike <;> simp [widthProblems_eq_nil_iff]

theorem textWidth?_of_isTextLike {t : FieldType} (h : t.isTextLike = true) :
    t.textWidth? = none := by
  cases t <;> first | rfl | cases h

theorem typeProblems_to_text {old new : Field} {t : FieldType} (hold : old.type = some t)
    (hnew : new.type = some .string) : typeProblems old new = becomesTextProblems old new t := by
  cases t <;>
    simp [typeProblems, becomesTextProblems, hold, hnew, FieldType.textWidth?,
      FieldType.isTextLike]

theorem typeReplaces_of_problems {old new : Field} (h : typeProblems old new = []) :
    TypeReplaces old new := by
  by_cases hsame : old.type = new.type
  · refine .same hsame fun t ht htext => ?_
    rw [typeProblems, if_pos hsame, Option.mem_def.mp ht, Option.any_some, if_pos htext] at h
    exact widthProblems_eq_nil_iff.mp h
  · rw [typeProblems, if_neg hsame] at h
    split at h
    · next hold hnew => exact .decimal hold hnew
    · next t _ hold hnew =>
        rcases becomesTextProblems_eq_nil_iff.mp h with ⟨width, ht, hwidth⟩ | ⟨-, htext, hwidth⟩
        · exact .text hold ht hnew hwidth
        · exact .textLike hold htext hnew hwidth
    · cases h

theorem typeProblems_eq_nil_iff {old new : Field} :
    typeProblems old new = [] ↔ TypeReplaces old new := by
  refine ⟨typeReplaces_of_problems, fun h => ?_⟩
  cases h with
  | same htype hwidth =>
      rw [typeProblems, if_pos htype]
      split
      · next htext =>
          obtain ⟨t, ht, htext⟩ := (Option.any_eq_true _ _).mp htext
          exact widthProblems_eq_nil_iff.mpr (hwidth t ht htext)
      · rfl
  | decimal hold hnew => simp [typeProblems, hold, hnew]
  | text hold ht hnew hwidth =>
      rw [typeProblems_to_text hold hnew, becomesTextProblems_eq_nil_iff]
      exact Or.inl ⟨_, ht, hwidth⟩
  | textLike hold ht hnew hwidth =>
      rw [typeProblems_to_text hold hnew, becomesTextProblems_eq_nil_iff]
      exact Or.inr ⟨textWidth?_of_isTextLike ht, ht, hwidth⟩

theorem isCompatible_eq {old new : Field} (hne : old ≠ new) :
    old.isCompatible new = true ↔ old.name = new.name ∧ typeProblems old new = []
      ∧ turnedOff old.allowOtherChoices new.allowOtherChoices = false
      ∧ turnedOff old.unboundedText new.unboundedText = false
      ∧ (removedAnswers old new).isEmpty = true := by
  simp only [isCompatible, incompatibilities, if_neg hne, List.isEmpty_iff, List.append_eq_nil_iff,
    ite_eq_left_iff, ite_eq_right_iff, List.cons_ne_nil, imp_false, Bool.not_eq_true,
    Decidable.not_not, and_assoc]

/-! ## The preorder -/

/-- A definition replaces itself. -/
theorem Replaces.refl (f : Field) : Replaces f f where
  name := rfl
  type := .same rfl fun _ _ _ => Or.inr (Nat.le_refl _)
  otherChoices := id
  unbounded := id
  answers := fun _ => id

theorem isCompatible_iff {old new : Field} : old.isCompatible new = true ↔ Replaces old new := by
  by_cases hsame : old = new
  · subst hsame
    exact iff_of_true (by simp [isCompatible, incompatibilities]) (Replaces.refl old)
  · rw [isCompatible_eq hsame, typeProblems_eq_nil_iff, turnedOff_eq_false_iff,
      turnedOff_eq_false_iff, removedAnswers_isEmpty_iff]
    exact ⟨fun ⟨hname, htype, hother, hunbounded, hanswers⟩ =>
        ⟨hname, htype, hother, hunbounded, hanswers⟩,
      fun h => ⟨h.name, h.type, h.otherChoices, h.unbounded, h.answers⟩⟩

theorem WidthKept.trans {a b c : Field} (hab : WidthKept a b) (hbc : WidthKept b c)
    (hflag : b.isUnbounded = true → c.isUnbounded = true) : WidthKept a c := by
  rcases hbc with hc | hbc
  · exact Or.inl hc
  · rcases hab with hb | hab
    · exact Or.inl (hflag hb)
    · exact Or.inr (Nat.le_trans hab hbc)

/-- Text stays text, and no less wide. -/
theorem TypeReplaces.of_string {b c : Field} (hb : b.type = some .string)
    (h : TypeReplaces b c) : c.type = some .string ∧ WidthKept b c := by
  cases h with
  | same htype hwidth => exact ⟨htype ▸ hb, hwidth .string (htype ▸ hb) rfl⟩
  | decimal hold _ => cases hb.symm.trans hold
  | text hold ht _ _ =>
      obtain rfl := Option.some.inj (hb.symm.trans hold)
      cases ht
  | textLike _ _ hnew hwidth => exact ⟨hnew, hwidth⟩

/-- The table of type changes is transitive, as long as no limit comes back. -/
theorem TypeReplaces.trans {a b c : Field} (hab : TypeReplaces a b) (hbc : TypeReplaces b c)
    (hflag : b.isUnbounded = true → c.isUnbounded = true) : TypeReplaces a c := by
  cases hab with
  | same htype hwidth =>
      cases hbc with
      | same htype' hwidth' =>
          refine .same (htype.trans htype') fun t ht htext => ?_
          exact (hwidth t (htype' ▸ ht) htext).trans (hwidth' t ht htext) hflag
      | decimal hold hnew => exact .decimal (htype.trans hold) hnew
      | text hold ht hnew hwidth' => exact .text (htype.trans hold) ht hnew hwidth'
      | textLike hold ht hnew hwidth' =>
          exact .textLike (htype.trans hold) ht hnew ((hwidth _ hold ht).trans hwidth' hflag)
  | decimal hint hfloat =>
      cases hbc with
      | same htype _ => exact .decimal hint (htype ▸ hfloat)
      | decimal hold _ => cases hfloat.symm.trans hold
      | text hold ht hnew hwidth =>
          -- What is wide enough for decimals is wide enough for integers.
          obtain rfl := Option.some.inj (hfloat.symm.trans hold)
          obtain rfl := Option.some.inj ht
          exact .text hint rfl hnew (hwidth.imp_right (Nat.lt_trans (by decide)))
      | textLike hold ht _ _ =>
          obtain rfl := Option.some.inj (hfloat.symm.trans hold)
          cases ht
  | text hold ht hstring hwidth =>
      obtain ⟨hnew, hkept⟩ := hbc.of_string hstring
      refine .text hold ht hnew ?_
      rcases hkept with hc | hle
      · exact Or.inl hc
      · exact hwidth.imp hflag fun hlt => Nat.lt_of_lt_of_le hlt hle
  | textLike hold ht hstring hwidth =>
      obtain ⟨hnew, hkept⟩ := hbc.of_string hstring
      exact .textLike hold ht hnew (hwidth.trans hkept hflag)

/-- Replacements compose. -/
theorem Replaces.trans {a b c : Field} (hab : Replaces a b) (hbc : Replaces b c) :
    Replaces a c where
  name := hab.name.trans hbc.name
  type := hab.type.trans hbc.type hbc.unbounded
  otherChoices := hbc.otherChoices ∘ hab.otherChoices
  unbounded := hbc.unbounded ∘ hab.unbounded
  answers := fun answer h => hbc.answers answer (hab.answers answer h)

end Field

end Intake
