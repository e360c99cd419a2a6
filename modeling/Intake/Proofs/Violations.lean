import Mathlib.Algebra.BigOperators.Group.Finset.Basic
import Mathlib.Data.Fintype.Defs
import Intake.Proofs.Validation

/-!
# The problems of a definition are the rules that it violates

A definition of a type is valid exactly if it follows all rules (`Field.FollowsRules`). Otherwise
each rule is reported as often as it is violated (`FieldRule.violations`): once for most of them,
and once for each position in the list of answers that holds an invalid answer or one that stood
there before.

What a width may be is a matter of the types that have one. A definition of another type that sets
the width violates the rule against that, whatever the width is.
-/

namespace Intake

/-! ## The rules -/

/-- A rule for field definitions. -/
inductive FieldRule where
  | nameAllowed
  | typeGiven
  | answersGiven
  | answersAllowed
  | answersDistinct
  | otherChoicesOfChoice
  | maxLengthPositive
  | maxLengthOrUnbounded
  | maxLengthOfText
  | unboundedTextOfText
  | fileExtensionOfFile
  | mimeTypeOfFile
  deriving DecidableEq, Repr

instance : Fintype FieldRule where
  elems := {.nameAllowed, .typeGiven, .answersGiven, .answersAllowed, .answersDistinct,
    .otherChoicesOfChoice, .maxLengthPositive, .maxLengthOrUnbounded, .maxLengthOfText,
    .unboundedTextOfText, .fileExtensionOfFile, .mimeTypeOfFile}
  complete := fun r => by cases r <;> decide

/-- The rule that is violated where there is the problem. -/
def FieldProblem.rule : FieldProblem → FieldRule
  | invalidName _ => .nameAllowed
  | typeMissing => .typeGiven
  | answersMissing => .answersGiven
  | invalidAnswer _ => .answersAllowed
  | duplicateAnswer _ => .answersDistinct
  | otherChoicesNotAllowed _ => .otherChoicesOfChoice
  | maxLengthZero => .maxLengthPositive
  | maxLengthWithUnboundedText => .maxLengthOrUnbounded
  | maxLengthNotAllowed _ => .maxLengthOfText
  | unboundedTextNotAllowed _ => .unboundedTextOfText
  | fileExtensionNotAllowed _ => .fileExtensionOfFile
  | mimeTypeNotAllowed _ => .mimeTypeOfFile

/-- The answers of a multiple choice; those of another definition are not looked at. -/
def Field.choices (f : Field) (t : FieldType) : List String :=
  if t = .multiChoice then f.answers.getD [] else []

theorem Field.choices_of_answers {f : Field} {answers : List String}
    (h : f.answers = some answers) : f.choices .multiChoice = answers := by
  rw [choices, if_pos rfl, h, Option.getD_some]

theorem Field.choices_of_ne (f : Field) {t : FieldType} (h : t ≠ .multiChoice) :
    f.choices t = [] :=
  if_neg h

/-- How often a definition of the type `t` violates a rule. -/
def FieldRule.violations (f : Field) (t : FieldType) : FieldRule → ℕ
  | nameAllowed => if Name.isFieldName f.name then 0 else 1
  | typeGiven => 0
  | answersGiven => if t = .multiChoice ∧ f.answers = none then 1 else 0
  | answersAllowed => (f.choices t).countP fun answer => !Name.isAnswerChoice answer
  | answersDistinct => (f.choices t).length - (f.choices t).toFinset.card
  | otherChoicesOfChoice => if t ≠ .multiChoice ∧ f.allowOtherChoices.isSome then 1 else 0
  | maxLengthPositive => if t.isTextLike ∧ f.maxLength = some 0 then 1 else 0
  | maxLengthOrUnbounded =>
    if t.isTextLike ∧ f.maxLength.isSome ∧ f.unboundedText = some true then 1 else 0
  | maxLengthOfText => if ¬t.isTextLike ∧ f.maxLength.isSome then 1 else 0
  | unboundedTextOfText => if ¬t.isTextLike ∧ f.unboundedText.isSome then 1 else 0
  | fileExtensionOfFile => if t ≠ .attachmentV2 ∧ f.fileExtension.isSome then 1 else 0
  | mimeTypeOfFile => if t ≠ .attachmentV2 ∧ f.mimeType.isSome then 1 else 0

namespace Field

/-- What the rules ask of a definition of the type `t`. -/
structure FollowsRules (f : Field) (t : FieldType) : Prop where
  name : Name.isFieldName f.name = true
  answers : t = .multiChoice → ∃ answers, f.answers = some answers
    ∧ (∀ answer ∈ answers, Name.isAnswerChoice answer = true) ∧ answers.Nodup
  otherChoices : f.allowOtherChoices.isSome = true → t = .multiChoice
  maxLength : f.maxLength.isSome = true → t.isTextLike = true
  unboundedText : f.unboundedText.isSome = true → t.isTextLike = true
  maxLength_ne_zero : f.maxLength ≠ some 0
  maxLength_or_unbounded : ¬(f.maxLength.isSome = true ∧ f.unboundedText = some true)
  fileExtension : f.fileExtension.isSome = true → t = .attachmentV2
  mimeType : f.mimeType.isSome = true → t = .attachmentV2

/-! ## Counting the problems -/

open FieldProblem (rule)

/-- How many of the problems are violations of the rule. -/
def countOf (r : FieldRule) (problems : List FieldProblem) : ℕ := (problems.map rule).count r

theorem countOf_append (r : FieldRule) (ps qs : List FieldProblem) :
    countOf r (ps ++ qs) = countOf r ps + countOf r qs := by
  rw [countOf, List.map_append, List.count_append]
  rfl

theorem countOf_when (r : FieldRule) (violated : Bool) (p : FieldProblem) :
    countOf r (FieldProblem.when violated p) = if p.rule = r ∧ violated then 1 else 0 := by
  cases violated with
  | false => simp [countOf, FieldProblem.when]
  | true => simp [countOf, FieldProblem.when, List.count_singleton]

theorem countOf_answerProblems_cons (r : FieldRule) (seen rest : List String) (answer : String) :
    countOf r (answerProblems seen (answer :: rest))
      = (if .answersAllowed = r ∧ Name.isAnswerChoice answer = false then 1 else 0)
        + (if .answersDistinct = r ∧ answer ∈ seen then 1 else 0)
        + countOf r (answerProblems (answer :: seen) rest) := by
  simp only [answerProblems, countOf_append, countOf_when, rule, Bool.not_eq_true',
    List.contains_iff_mem]

/-- An invalid answer is reported at every position where it stands. -/
theorem countOf_invalid (seen answers : List String) :
    countOf .answersAllowed (answerProblems seen answers)
      = answers.countP fun answer => !Name.isAnswerChoice answer := by
  induction answers generalizing seen with
  | nil => rfl
  | cons answer rest ih =>
      rw [countOf_answerProblems_cons, ih, List.countP_cons]
      simp [Nat.add_comm]

theorem card_insert_sdiff (answer : String) (answers seen : Finset String) :
    (insert answer answers \ seen).card
      = (if answer ∈ seen then 0 else 1) + (answers \ insert answer seen).card := by
  by_cases h : answer ∈ seen
  · rw [Finset.insert_sdiff_of_mem _ h, Finset.insert_eq_of_mem h, if_pos h, Nat.zero_add]
  · have hinsert : insert answer answers \ seen = insert answer (answers \ insert answer seen) := by
      grind
    rw [hinsert, Finset.card_insert_of_notMem (by simp), if_neg h, Nat.add_comm]

/-- Every position is reported but the first of each answer that has not been seen. -/
theorem countOf_duplicate (seen answers : List String) :
    countOf .answersDistinct (answerProblems seen answers)
      + (answers.toFinset \ seen.toFinset).card = answers.length := by
  induction answers generalizing seen with
  | nil => simp [answerProblems, countOf]
  | cons answer rest ih =>
      have hrest := ih (answer :: seen)
      rw [List.toFinset_cons] at hrest
      rw [countOf_answerProblems_cons, List.toFinset_cons, card_insert_sdiff, List.length_cons]
      by_cases hseen : answer ∈ seen
      · have hmem : answer ∈ seen.toFinset := List.mem_toFinset.mpr hseen
        simp only [hseen, hmem, reduceCtorEq, false_and, and_true, if_true, if_false]
        omega
      · have hmem : answer ∉ seen.toFinset := mt List.mem_toFinset.mp hseen
        simp only [hseen, hmem, reduceCtorEq, false_and, and_false, if_false]
        omega

theorem countOf_answerProblems_of_ne {r : FieldRule} (hallowed : r ≠ .answersAllowed)
    (hdistinct : r ≠ .answersDistinct) (seen answers : List String) :
    countOf r (answerProblems seen answers) = 0 := by
  induction answers generalizing seen with
  | nil => rfl
  | cons answer rest ih =>
      rw [countOf_answerProblems_cons, ih, if_neg fun h => hallowed h.1.symm,
        if_neg fun h => hdistinct h.1.symm]

/-! ## The problems of each group of rules -/

def choiceRules : List FieldRule :=
  [.answersGiven, .answersAllowed, .answersDistinct, .otherChoicesOfChoice]

def textRules : List FieldRule :=
  [.maxLengthPositive, .maxLengthOrUnbounded, .maxLengthOfText, .unboundedTextOfText]

def fileRules : List FieldRule := [.fileExtensionOfFile, .mimeTypeOfFile]

theorem countOf_choiceProblems_of_some {f : Field} {answers : List String}
    (h : f.answers = some answers) (r : FieldRule) :
    countOf r (answerProblems [] answers)
      = if r ∈ choiceRules then r.violations f .multiChoice else 0 := by
  have hchoices := choices_of_answers h
  cases r with
  | answersAllowed =>
      rw [countOf_invalid, if_pos (by decide), FieldRule.violations, hchoices]
  | answersDistinct =>
      have hcount := countOf_duplicate [] answers
      rw [List.toFinset_nil, Finset.sdiff_empty] at hcount
      rw [if_pos (by decide), FieldRule.violations, hchoices]
      omega
  | _ =>
      rw [countOf_answerProblems_of_ne (by decide) (by decide)]
      simp [choiceRules, FieldRule.violations, h]

theorem countOf_choiceProblems (f : Field) (t : FieldType) (r : FieldRule) :
    countOf r (f.choiceProblems t) = if r ∈ choiceRules then r.violations f t else 0 := by
  by_cases hchoice : t = .multiChoice
  · subst hchoice
    rw [choiceProblems, if_pos rfl]
    cases h : f.answers with
    | some answers => exact countOf_choiceProblems_of_some h r
    | none => cases r <;> simp [countOf, choiceRules, rule, FieldRule.violations, choices, h]
  · rw [choiceProblems, if_neg hchoice, countOf_when]
    cases r <;> simp [choiceRules, rule, FieldRule.violations, choices, hchoice]

theorem countOf_textProblems (f : Field) (t : FieldType) (r : FieldRule) :
    countOf r (f.textProblems t) = if r ∈ textRules then r.violations f t else 0 := by
  rw [textProblems]
  split
  · next htext =>
      rw [countOf_append, countOf_when, countOf_when]
      cases r <;> simp [textRules, rule, FieldRule.violations, htext, isUnbounded]
  · next htext =>
      rw [countOf_append, countOf_when, countOf_when]
      cases r <;> simp [textRules, rule, FieldRule.violations, htext]

theorem countOf_fileProblems (f : Field) (t : FieldType) (r : FieldRule) :
    countOf r (f.fileProblems t) = if r ∈ fileRules then r.violations f t else 0 := by
  rw [fileProblems]
  split
  · next hfile => cases r <;> simp [countOf, fileRules, FieldRule.violations, hfile]
  · next hfile =>
      rw [countOf_append, countOf_when, countOf_when]
      cases r <;> simp [fileRules, rule, FieldRule.violations, hfile]

/-- Every rule is reported as often as it is violated. -/
theorem countOf_problems {f : Field} {t : FieldType} (h : f.type = some t) (r : FieldRule) :
    countOf r f.problems = r.violations f t := by
  rw [problems, h, countOf_append, countOf_append, countOf_append, countOf_when,
    countOf_choiceProblems, countOf_textProblems, countOf_fileProblems]
  cases r with
  | nameAllowed =>
      cases hname : Name.isFieldName f.name <;>
        simp [rule, choiceRules, textRules, fileRules, FieldRule.violations, hname]
  | _ => simp [rule, choiceRules, textRules, fileRules, FieldRule.violations]

theorem length_problems {f : Field} {t : FieldType} (h : f.type = some t) :
    f.problems.length = ∑ r : FieldRule, r.violations f t := by
  have hcount := Multiset.sum_count_eq_card (s := Finset.univ)
    (m := ((f.problems.map rule : List FieldRule) : Multiset FieldRule))
    fun r _ => Finset.mem_univ r
  simp only [Multiset.coe_count, Multiset.coe_card, List.length_map] at hcount
  rw [← hcount]
  exact Finset.sum_congr rfl fun r _ => countOf_problems h r

/-! ## Validity -/

theorem eq_of_validate_eq_error {f : Field} {e : InvalidField} (h : f.validate = .error e) :
    e = ⟨f.name, f.problems⟩ := by
  unfold validate at h
  split at h
  · cases h
  · exact (Except.error.inj h).symm

theorem length_sub_card_eq_zero_iff (answers : List String) :
    answers.length - answers.toFinset.card = 0 ↔ answers.Nodup := by
  rw [List.card_toFinset, Nat.sub_eq_zero_iff_le, ← List.dedup_eq_self]
  constructor
  · intro hle
    exact answers.dedup_sublist.eq_of_length_le hle
  · intro heq
    rw [heq]

/-- The rules about the answers of a multiple choice. -/
theorem answers_iff (f : Field) :
    (∃ answers, f.answers = some answers
        ∧ (∀ answer ∈ answers, Name.isAnswerChoice answer = true) ∧ answers.Nodup)
      ↔ f.answers ≠ none
        ∧ FieldRule.violations f .multiChoice .answersAllowed = 0
        ∧ FieldRule.violations f .multiChoice .answersDistinct = 0 := by
  cases h : f.answers with
  | none => simp
  | some answers =>
      rw [FieldRule.violations, FieldRule.violations, choices_of_answers h, List.countP_eq_zero,
        length_sub_card_eq_zero_iff]
      simp

theorem not_of_ite_eq_zero {p : Prop} [Decidable p] (h : (if p then 1 else 0) = 0) : ¬p := by
  intro hp
  rw [if_pos hp] at h
  cases h

/-- What a rule allows for some types only is set for no other type. -/
theorem imp_of_ite_eq_zero {p q : Prop} [Decidable (¬p ∧ q)] (h : (if ¬p ∧ q then 1 else 0) = 0) :
    q → p :=
  fun hq => of_not_not fun hp => not_of_ite_eq_zero h ⟨hp, hq⟩

/-- A definition follows the rules exactly if it violates none. -/
theorem followsRules_iff (f : Field) (t : FieldType) :
    f.FollowsRules t ↔ ∀ r, FieldRule.violations f t r = 0 := by
  constructor
  · intro h r
    cases r with
    | nameAllowed => exact if_pos h.name
    | typeGiven => rfl
    | answersGiven =>
        refine if_neg ?_
        rintro ⟨hchoice, hnone⟩
        exact ((answers_iff f).mp (h.answers hchoice)).1 hnone
    | answersAllowed =>
        by_cases hchoice : t = .multiChoice
        · subst hchoice
          exact ((answers_iff f).mp (h.answers rfl)).2.1
        · rw [FieldRule.violations, choices_of_ne f hchoice, List.countP_nil]
    | answersDistinct =>
        by_cases hchoice : t = .multiChoice
        · subst hchoice
          exact ((answers_iff f).mp (h.answers rfl)).2.2
        · rw [FieldRule.violations, choices_of_ne f hchoice, List.length_nil, Nat.zero_sub]
    | otherChoicesOfChoice => exact if_neg fun hset => hset.1 (h.otherChoices hset.2)
    | maxLengthPositive => exact if_neg fun hzero => h.maxLength_ne_zero hzero.2
    | maxLengthOrUnbounded => exact if_neg fun hboth => h.maxLength_or_unbounded hboth.2
    | maxLengthOfText => exact if_neg fun hset => hset.1 (h.maxLength hset.2)
    | unboundedTextOfText => exact if_neg fun hset => hset.1 (h.unboundedText hset.2)
    | fileExtensionOfFile => exact if_neg fun hset => hset.1 (h.fileExtension hset.2)
    | mimeTypeOfFile => exact if_neg fun hset => hset.1 (h.mimeType hset.2)
  · intro h
    have hmaxLength : f.maxLength.isSome = true → t.isTextLike = true :=
      imp_of_ite_eq_zero (h .maxLengthOfText)
    refine ⟨?name, ?answers, imp_of_ite_eq_zero (h .otherChoicesOfChoice), hmaxLength,
      imp_of_ite_eq_zero (h .unboundedTextOfText), ?maxLength_ne_zero, ?maxLength_or_unbounded,
      imp_of_ite_eq_zero (h .fileExtensionOfFile), imp_of_ite_eq_zero (h .mimeTypeOfFile)⟩
    case name =>
      refine of_not_not fun hname => ?_
      have hone : FieldRule.violations f t .nameAllowed = 1 := if_neg hname
      cases hone.symm.trans (h .nameAllowed)
    case answers =>
      rintro rfl
      refine (answers_iff f).mpr ⟨?_, h .answersAllowed, h .answersDistinct⟩
      intro hnone
      exact not_of_ite_eq_zero (h .answersGiven) ⟨rfl, hnone⟩
    case maxLength_ne_zero =>
      -- Only a type that is like text may have a width, and there the width must not be zero.
      intro hzero
      have htext := hmaxLength (hzero ▸ rfl)
      exact not_of_ite_eq_zero (h .maxLengthPositive) ⟨htext, hzero⟩
    case maxLength_or_unbounded =>
      intro hboth
      exact not_of_ite_eq_zero (h .maxLengthOrUnbounded) ⟨hmaxLength hboth.1, hboth⟩

theorem problems_eq_nil_iff {f : Field} {t : FieldType} (h : f.type = some t) :
    f.problems = [] ↔ f.FollowsRules t := by
  rw [followsRules_iff, ← List.length_eq_zero_iff, length_problems h, Finset.sum_eq_zero_iff]
  simp only [Finset.mem_univ, true_imp_iff]

/-- A definition with a type is valid exactly if it follows the rules. If it is refused, then under
its name, and each rule is reported as often as it is violated. -/
theorem validate_reports_violations (f : Field) (t : FieldType) (htype : f.type = some t) :
    (f.validate = .ok () ↔ f.FollowsRules t)
      ∧ ∀ e, f.validate = .error e →
          e.field = f.name
            ∧ (∀ r, (e.problems.map FieldProblem.rule).count r = r.violations f t)
            ∧ e.problems.length = ∑ r : FieldRule, r.violations f t := by
  refine ⟨validate_eq_ok_iff.trans (problems_eq_nil_iff htype), fun e he => ?_⟩
  obtain rfl := eq_of_validate_eq_error he
  exact ⟨rfl, countOf_problems htype, length_problems htype⟩

/-- A reserved name, four answers of which one is invalid and both stand twice, and a media type. -/
theorem validate_reports_violations_choice :
    let f : Field :=
      { name := "row_id", type := some .multiChoice, answers := some ["a", "-b", "-b", "a"],
        mimeType := some "text/csv" }
    let e : InvalidField :=
      ⟨"row_id", [.invalidName "row_id", .invalidAnswer "-b", .invalidAnswer "-b",
        .duplicateAnswer "-b", .duplicateAnswer "a", .mimeTypeNotAllowed .multiChoice]⟩
    f.type = some .multiChoice ∧ f.validate = .error e
      ∧ FieldRule.violations f .multiChoice .answersAllowed = 2
      ∧ FieldRule.violations f .multiChoice .answersDistinct = 2
      ∧ ∑ r : FieldRule, r.violations f .multiChoice = 6 := by
  obtain ⟨-, hreport⟩ := validate_reports_violations
    { name := "row_id", type := some .multiChoice, answers := some ["a", "-b", "-b", "a"],
      mimeType := some "text/csv" } .multiChoice rfl
  obtain ⟨-, hcount, hlength⟩ := hreport
    ⟨"row_id", [.invalidName "row_id", .invalidAnswer "-b", .invalidAnswer "-b",
      .duplicateAnswer "-b", .duplicateAnswer "a", .mimeTypeNotAllowed .multiChoice]⟩ (by decide)
  exact ⟨rfl, by decide, (hcount .answersAllowed).symm, (hcount .answersDistinct).symm,
    hlength.symm⟩

/-- An integer with the width zero breaks two rules, for it sets a width and the width is zero. Only
the first of them is reported. -/
theorem validate_zero_width_of_integer :
    let f : Field := { name := "count", type := some .int, maxLength := some 0 }
    (f.maxLength.isSome = true ∧ FieldType.int.isTextLike = false) ∧ f.maxLength = some 0
      ∧ f.validate = .error ⟨"count", [.maxLengthNotAllowed .int]⟩ :=
  ⟨⟨rfl, rfl⟩, rfl, rfl⟩

end Field

end Intake
