import Mathlib.Data.Finset.Card
import Mathlib.Data.List.SplitBy
import Intake.Proofs.FixedPoints
import Intake.Proofs.Sizes
import Intake.Proofs.Validation

/-!
# Answers of a multiple choice

Sanitizing an answer is done in three stages, but it comes to one pass over the text
(`Name.sanitizeAnswer_one_pass`): letters and digits stay, and each run of other characters, as
long as it goes, becomes the one character that its first one calls for. Only a point in front is
replaced besides.

An answer choice is a text of limited length that begins and ends with a letter or digit and that
sanitizing does not change. So the answers that a valid definition declares come through
unchanged, each in its own column (`declared_answers_come_through`).
-/

namespace Intake

namespace Name

/-! ## Letters, digits and specials -/

theorem isSpecial_of_isAlphanum {c : Char} (h : c.isAlphanum = true) : isSpecial c = false := by
  have hne : c ≠ ' ' ∧ c ≠ '.' ∧ c ≠ '-' ∧ c ≠ '_' := by
    refine ⟨?_, ?_, ?_, ?_⟩ <;> rintro rfl <;> cases h
  simp [isSpecial, hne]

theorem isLegal_of_isAlphanum {c : Char} (h : c.isAlphanum = true) : isLegal c = true := by
  rw [isLegal, h, Bool.true_or]

theorem isSpecial_eq_isLegal {c : Char} (h : c.isAlphanum = false) : isSpecial c = isLegal c := by
  rw [isLegal, h, Bool.false_or]

/-! ## One pass -/

/-- Characters other than letters and digits. -/
def IsRun (cs : List Char) : Prop := cs ≠ [] ∧ ∀ c ∈ cs, c.isAlphanum = false

/-- Each letter or digit is a piece by itself, and all other characters stand in runs, no two of
them next to each other. -/
structure IsPieces (cs : List Char) (pieces : List (List Char)) : Prop where
  flatten_eq : pieces.flatten = cs
  piece_ok : ∀ p ∈ pieces, (∃ c, p = [c] ∧ c.isAlphanum = true) ∨ IsRun p
  maximal : pieces.IsChain fun p q => ¬(IsRun p ∧ IsRun q)

def pieces (cs : List Char) : List (List Char) :=
  cs.splitBy fun a b => !a.isAlphanum && !b.isAlphanum

/-- The first character of a piece if it may stand in a name, and an underscore if not. -/
def pieceChar : List Char → Char
  | [] => '_'
  | c :: _ => if isLegal c then c else '_'

theorem isRun_of_isChain : ∀ {a b : Char} {rest : List Char},
    (a :: b :: rest).IsChain (fun x y => (!x.isAlphanum && !y.isAlphanum) = true) →
      IsRun (a :: b :: rest)
  | a, b, [], h => by
      have hab := (List.isChain_cons_cons.mp h).1
      rw [Bool.and_eq_true, Bool.not_eq_true', Bool.not_eq_true'] at hab
      refine ⟨nofun, fun c hc => ?_⟩
      rcases List.mem_pair.mp hc with rfl | rfl
      · exact hab.1
      · exact hab.2
  | a, b, c :: rest, h => by
      obtain ⟨hab, hrest⟩ := List.isChain_cons_cons.mp h
      rw [Bool.and_eq_true, Bool.not_eq_true', Bool.not_eq_true'] at hab
      exact ⟨nofun, List.forall_mem_cons.mpr ⟨hab.1, (isRun_of_isChain hrest).2⟩⟩

theorem isPieces_pieces (cs : List Char) : IsPieces cs (pieces cs) where
  flatten_eq := List.flatten_splitBy _ cs
  piece_ok := by
    intro p hp
    have hne := List.ne_nil_of_mem_splitBy hp
    have hchain := List.isChain_of_mem_splitBy hp
    rcases p with _ | ⟨a, _ | ⟨b, rest⟩⟩
    · exact absurd rfl hne
    · cases ha : a.isAlphanum with
      | true => exact Or.inl ⟨a, rfl, ha⟩
      | false => exact Or.inr ⟨hne, fun c hc => List.mem_singleton.mp hc ▸ ha⟩
    · exact Or.inr (isRun_of_isChain hchain)
  maximal := by
    refine (List.isChain_getLast_head_splitBy _ cs).imp fun p q hpq => ?_
    rintro ⟨hp, hq⟩
    obtain ⟨hpne, hqne, hseparate⟩ := hpq
    rw [hp.2 _ (List.getLast_mem hpne), hq.2 _ (List.head_mem hqne)] at hseparate
    cases hseparate

/-- A letter or digit ends all runs. -/
theorem mergeSpecials_replaceIllegal_cons {c : Char} (hc : c.isAlphanum = true)
    (inSpecials inIllegal : Bool) (rest : List Char) :
    mergeSpecials inSpecials (replaceIllegal inIllegal (c :: rest))
      = c :: mergeSpecials false (replaceIllegal false rest) := by
  rw [replaceIllegal, if_pos (isLegal_of_isAlphanum hc), mergeSpecials, isSpecial_of_isAlphanum hc,
    Bool.false_and, if_neg Bool.false_ne_true]

/-- Once a run has begun, nothing more of it is left. -/
theorem mergeSpecials_replaceIllegal_run {rest : List Char}
    (hrest : ∀ c ∈ rest.head?, c.isAlphanum = true) : ∀ {run : List Char},
      (∀ c ∈ run, c.isAlphanum = false) → ∀ inIllegal : Bool,
        mergeSpecials true (replaceIllegal inIllegal (run ++ rest))
          = mergeSpecials false (replaceIllegal false rest)
  | [], _, inIllegal => by
      cases rest with
      | nil => rfl
      | cons c rest =>
          rw [List.nil_append, mergeSpecials_replaceIllegal_cons (hrest c rfl),
            mergeSpecials_replaceIllegal_cons (hrest c rfl)]
  | c :: run, hrun, inIllegal => by
      obtain ⟨hc, hrun⟩ := List.forall_mem_cons.mp hrun
      have ih := mergeSpecials_replaceIllegal_run hrest hrun
      rw [List.cons_append, replaceIllegal]
      split
      · next hlegal =>
          rw [mergeSpecials, isSpecial_eq_isLegal hc, hlegal, Bool.true_and, if_pos rfl, ih]
      · split
        · exact ih true
        · exact ih true

/-- A run begins with the character that its first one calls for. -/
theorem mergeSpecials_replaceIllegal_first {c : Char} (hc : c.isAlphanum = false)
    (rest : List Char) :
    mergeSpecials false (replaceIllegal false (c :: rest))
      = (if isLegal c then c else '_')
          :: mergeSpecials true (replaceIllegal (!isLegal c) rest) := by
  rw [replaceIllegal]
  cases hlegal : isLegal c with
  | true =>
      rw [if_pos rfl, if_pos rfl, mergeSpecials, isSpecial_eq_isLegal hc, hlegal, Bool.and_false,
        if_neg Bool.false_ne_true]
      rfl
  | false => rfl

theorem head?_flatten_isAlphanum {p : List Char} {ps : List (List Char)} (hrun : IsRun p)
    (hok : ∀ q ∈ ps, (∃ c, q = [c] ∧ c.isAlphanum = true) ∨ IsRun q)
    (hnext : ∀ q ∈ ps.head?, ¬(IsRun p ∧ IsRun q)) :
    ∀ c ∈ ps.flatten.head?, c.isAlphanum = true := by
  cases ps with
  | nil => nofun
  | cons q qs =>
      rcases hok q List.mem_cons_self with ⟨d, rfl, hd⟩ | hq
      · intro c hc
        obtain rfl := Option.some.inj hc
        exact hd
      · exact absurd ⟨hrun, hq⟩ (hnext q rfl)

theorem mergeSpecials_replaceIllegal_flatten : ∀ {ps : List (List Char)},
    (∀ p ∈ ps, (∃ c, p = [c] ∧ c.isAlphanum = true) ∨ IsRun p) →
      (ps.IsChain fun p q => ¬(IsRun p ∧ IsRun q)) →
        mergeSpecials false (replaceIllegal false ps.flatten) = ps.map pieceChar
  | [], _, _ => rfl
  | p :: ps, hok, hmaximal => by
      obtain ⟨hp, hps⟩ := List.forall_mem_cons.mp hok
      obtain ⟨hnext, hmaximal⟩ := List.isChain_cons.mp hmaximal
      have ih := mergeSpecials_replaceIllegal_flatten hps hmaximal
      rw [List.flatten_cons, List.map_cons]
      rcases hp with ⟨c, rfl, hc⟩ | hrun
      · rw [List.singleton_append, mergeSpecials_replaceIllegal_cons hc, ih, pieceChar,
          if_pos (isLegal_of_isAlphanum hc)]
      · have hrest := head?_flatten_isAlphanum hrun hps hnext
        obtain ⟨c, run, rfl⟩ := List.exists_cons_of_ne_nil hrun.1
        obtain ⟨hc, hothers⟩ := List.forall_mem_cons.mp hrun.2
        rw [List.cons_append, mergeSpecials_replaceIllegal_first hc,
          mergeSpecials_replaceIllegal_run hrest hothers, ih, pieceChar]

/-- A text that is divided into pieces becomes one character of each. -/
theorem sanitizeAnswer_eq {s : String} {ps : List (List Char)} (h : IsPieces s.toList ps) :
    sanitizeAnswer s = String.ofList (replaceFirstPoint (ps.map pieceChar)) := by
  rw [sanitizeAnswer, ← h.flatten_eq,
    mergeSpecials_replaceIllegal_flatten h.piece_ok h.maximal]

/-! ## Letters and digits stay -/

theorem filter_replaceIllegal : ∀ (cs : List Char) (inRun : Bool),
    (replaceIllegal inRun cs).filter Char.isAlphanum = cs.filter Char.isAlphanum
  | [], _ => rfl
  | c :: rest, inRun => by
      have ih := filter_replaceIllegal rest
      rw [replaceIllegal]
      split
      · rw [List.filter_cons, List.filter_cons, ih]
      · next hillegal =>
          have hc : ¬c.isAlphanum = true := fun h => hillegal (isLegal_of_isAlphanum h)
          rw [List.filter_cons_of_neg hc]
          split
          · exact ih true
          · exact ih true

theorem filter_mergeSpecials : ∀ (cs : List Char) (inRun : Bool),
    (mergeSpecials inRun cs).filter Char.isAlphanum = cs.filter Char.isAlphanum
  | [], _ => rfl
  | c :: rest, inRun => by
      have ih := filter_mergeSpecials rest
      rw [mergeSpecials]
      split
      · next hspecial =>
          have hc : ¬c.isAlphanum = true := fun h => by
            rw [isSpecial_of_isAlphanum h] at hspecial
            cases hspecial
          rw [List.filter_cons_of_neg hc, ih]
      · rw [List.filter_cons, List.filter_cons, ih]

theorem filter_replaceFirstPoint (cs : List Char) :
    (replaceFirstPoint cs).filter Char.isAlphanum = cs.filter Char.isAlphanum := by
  unfold replaceFirstPoint
  split <;> rfl

theorem filter_sanitizeAnswer (s : String) :
    (sanitizeAnswer s).toList.filter Char.isAlphanum = s.toList.filter Char.isAlphanum := by
  rw [sanitizeAnswer, String.toList_ofList, filter_replaceFirstPoint, filter_mergeSpecials,
    filter_replaceIllegal]

/-- A text is divided into letters, digits and runs, and each piece becomes one character; a point
in front becomes an underscore. What comes of it is in normal form, has the same letters and digits
in the same order, and is not changed any more. -/
theorem sanitizeAnswer_one_pass (s : String) :
    IsPieces s.toList (pieces s.toList)
      ∧ sanitizeAnswer s = String.ofList (replaceFirstPoint ((pieces s.toList).map pieceChar))
      ∧ Sanitized (sanitizeAnswer s).toList
      ∧ (sanitizeAnswer s).toList.filter Char.isAlphanum = s.toList.filter Char.isAlphanum
      ∧ sanitizeAnswer (sanitizeAnswer s) = sanitizeAnswer s :=
  ⟨isPieces_pieces s.toList, sanitizeAnswer_eq (isPieces_pieces s.toList),
    sanitized_sanitizeAnswer s, filter_sanitizeAnswer s, sanitizeAnswer_sanitizeAnswer s⟩

example : sanitizeAnswer "*.a $._b" = "_a b" := rfl

/-! ## Answer choices -/

theorem groupsOK_iff {cs : List Char} :
    groupsOK cs = true ↔ (∃ c ∈ cs.head?, c.isAlphanum = true) ∧ inGroupOK cs = true := by
  cases cs with
  | nil => simp [groupsOK]
  | cons c rest =>
      rw [groupsOK, inGroupOK, Bool.and_eq_true]
      cases hc : c.isAlphanum <;> simp [hc]

theorem forall_mem_getLast?_cons {c : Char} {rest : List Char} {P : Char → Prop} :
    (∀ x ∈ (c :: rest).getLast?, P x) ↔ (rest = [] → P c) ∧ ∀ x ∈ rest.getLast?, P x := by
  cases rest with
  | nil => simp
  | cons d rest => simp [List.getLast?_cons_cons]

/-- From inside a group, a name goes on with legal characters, without two specials in a row, to a
letter or digit. -/
theorem inGroupOK_iff : ∀ {cs : List Char},
    inGroupOK cs = true ↔ (∀ c ∈ cs, isLegal c = true)
      ∧ (cs.IsChain fun a b => ¬(isSpecial a = true ∧ isSpecial b = true))
      ∧ ∀ c ∈ cs.getLast?, c.isAlphanum = true
  | [] => by simp [inGroupOK]
  | c :: rest => by
      have ih := @inGroupOK_iff rest
      rw [inGroupOK, List.forall_mem_cons, List.isChain_cons, forall_mem_getLast?_cons]
      cases hc : c.isAlphanum with
      | true =>
          rw [if_pos rfl, ih]
          constructor
          · rintro ⟨hlegal, hsingle, hlast⟩
            refine ⟨⟨isLegal_of_isAlphanum hc, hlegal⟩, ⟨fun d _ h => ?_, hsingle⟩, fun _ => rfl,
              hlast⟩
            cases (isSpecial_of_isAlphanum hc).symm.trans h.1
          · rintro ⟨⟨-, hlegal⟩, ⟨-, hsingle⟩, -, hlast⟩
            exact ⟨hlegal, hsingle, hlast⟩
      | false =>
          rw [if_neg Bool.false_ne_true, isSpecial_eq_isLegal hc, Bool.and_eq_true, groupsOK_iff,
            ih]
          constructor
          · rintro ⟨hspecial, ⟨d, hd, hdalnum⟩, hlegal, hsingle, hlast⟩
            refine ⟨⟨hspecial, hlegal⟩, ⟨fun x hx h => ?_, hsingle⟩, ?_, hlast⟩
            · obtain rfl := Option.mem_unique hx hd
              cases (isSpecial_of_isAlphanum hdalnum).symm.trans h.2
            · rintro rfl
              cases hd
          · rintro ⟨⟨hspecial, hlegal⟩, ⟨hnext, hsingle⟩, hne, hlast⟩
            refine ⟨hspecial, ?_, hlegal, hsingle, hlast⟩
            cases rest with
            | nil => cases hne rfl
            | cons d rest =>
                refine ⟨d, rfl, ?_⟩
                -- Behind a special there is no other one.
                have hd : isSpecial d = false := Bool.eq_false_iff.mpr fun h =>
                  hnext d rfl ⟨hspecial, h⟩
                have hdlegal := hlegal d List.mem_cons_self
                rwa [isLegal, hd, Bool.or_false] at hdlegal

theorem sanitizeAnswer_eq_self_iff {s : String} : sanitizeAnswer s = s ↔ Sanitized s.toList :=
  ⟨fun h => h ▸ sanitized_sanitizeAnswer s, sanitizeAnswer_of_sanitized⟩

/-- Groups with single specials between them are what begins and ends with a letter or digit and is
not changed by sanitizing. -/
theorem groupsOK_iff_sanitized {cs : List Char} :
    groupsOK cs = true ↔ (∃ c ∈ cs.head?, c.isAlphanum = true)
      ∧ (∃ c ∈ cs.getLast?, c.isAlphanum = true) ∧ Sanitized cs := by
  rw [groupsOK_iff, inGroupOK_iff]
  constructor
  · rintro ⟨⟨c, hc, hcalnum⟩, hlegal, hsingle, hlast⟩
    refine ⟨⟨c, hc, hcalnum⟩, ?_, hlegal, hsingle, fun hpoint => ?_⟩
    · have hne : cs ≠ [] := by
        rintro rfl
        cases hc
      have hmem := List.getLast?_eq_some_getLast hne
      exact ⟨_, hmem, hlast _ hmem⟩
    · obtain rfl := Option.mem_unique hc hpoint
      cases hcalnum
  · rintro ⟨hfirst, ⟨c, hc, hcalnum⟩, hsanitized⟩
    refine ⟨hfirst, hsanitized.legal, hsanitized.single, fun x hx => ?_⟩
    obtain rfl := Option.mem_unique hx hc
    exact hcalnum

theorem isAnswerChoice_iff {s : String} :
    isAnswerChoice s = true ↔ (1 ≤ s.length ∧ s.length ≤ 128)
      ∧ (∃ c ∈ s.toList.head?, c.isAlphanum = true)
      ∧ (∃ c ∈ s.toList.getLast?, c.isAlphanum = true) ∧ sanitizeAnswer s = s := by
  rw [isAnswerChoice, Bool.and_eq_true, decide_eq_true_eq, groupsOK_iff_sanitized,
    sanitizeAnswer_eq_self_iff, String.length_toList, maxLength]
  constructor
  · rintro ⟨hlength, hfirst, hrest⟩
    refine ⟨⟨?_, hlength⟩, hfirst, hrest⟩
    obtain ⟨c, hc, -⟩ := hfirst
    rw [← String.length_toList]
    exact List.length_pos_of_mem (List.mem_of_head? hc)
  · rintro ⟨⟨-, hlength⟩, hrest⟩
    exact ⟨hlength, hrest⟩

end Name

/-! ## Declared answers -/

theorem Canonical.multiChoice_of_isAnswerChoice {chosen : List String}
    (h : ∀ answer ∈ chosen, Name.isAnswerChoice answer = true) :
    multiChoice (.array (chosen.map .string)) = .ok (.array (chosen.map .string)) := by
  have hsame : ∀ answer ∈ chosen, Name.sanitizeAnswer answer = answer := fun answer hanswer =>
    (Name.isAnswerChoice_iff.mp (h answer hanswer)).2.2.2
  rw [multiChoice, List.map_map]
  refine congrArg (fun answers => Except.ok (Json.array answers)) (List.map_congr_left ?_)
  intro answer hanswer
  exact congrArg Json.string (hsame answer hanswer)

namespace Field

/-- There is a column for each answer, and one more if other answers are taken. -/
theorem columns_size_of_nodup {f : Field} {answers : List String}
    (htype : f.type = some .multiChoice) (hanswers : f.answers = some answers)
    (hnodup : answers.Nodup) :
    f.size.columns.val
      = min (answers.toFinset.card + if f.allowsOtherChoices then 1 else 0) 0xFFFFFFFFFFFFFFFF := by
  rw [size_of_multiChoice htype, columns_choiceSize, hanswers, Option.getD_some,
    List.toFinset_card_of_nodup hnodup, Count.val_saturate]

/-- The validator and the sanitizer agree on answers, so those that a valid multiple choice declares
come through unchanged, in any number, order and repetition. No two of them are equal, so each has
a column of its own. -/
theorem declared_answers_come_through :
    (∀ s, Name.isAnswerChoice s = true ↔ (1 ≤ s.length ∧ s.length ≤ 128)
        ∧ (∃ c ∈ s.toList.head?, c.isAlphanum = true)
        ∧ (∃ c ∈ s.toList.getLast?, c.isAlphanum = true) ∧ Name.sanitizeAnswer s = s)
      ∧ ∀ f : Field, f.validate = .ok () → f.type = some .multiChoice →
          ∃ answers, f.answers = some answers ∧ answers.Nodup
            ∧ (∀ chosen : List String, (∀ answer ∈ chosen, answer ∈ answers) →
                FieldType.multiChoice.canonical? (some (.array (chosen.map .string)))
                  = .ok (some (.array (chosen.map .string))))
            ∧ f.size.columns.val
                = min (answers.toFinset.card + if f.allowsOtherChoices then 1 else 0)
                    0xFFFFFFFFFFFFFFFF := by
  refine ⟨fun s => Name.isAnswerChoice_iff, fun f hvalid htype => ?_⟩
  obtain ⟨answers, hanswers, hok⟩ := exists_answers_of_validate hvalid htype
  obtain ⟨hchoices, hnodup⟩ := answerProblems_eq_nil_iff.mp hok
  refine ⟨answers, hanswers, hnodup, fun chosen hchosen => ?_,
    columns_size_of_nodup htype hanswers hnodup⟩
  refine (FieldType.canonical?_eq_ok Json.noConfusion).mpr ?_
  exact Canonical.multiChoice_of_isAnswerChoice fun answer hanswer =>
    (hchoices answer (hchosen answer hanswer)).1

/-- A question with two answers and others, where one answer is given twice. -/
theorem declared_answers_come_through_twice :
    ∃ f : Field, f.validate = .ok () ∧ f.type = some .multiChoice
      ∧ f.answers = some ["good", "so-so"]
      ∧ FieldType.multiChoice.canonical?
          (some (.array [.string "so-so", .string "good", .string "so-so"]))
        = .ok (some (.array [.string "so-so", .string "good", .string "so-so"]))
      ∧ f.size.columns.val = 3 := by
  have hvalid : Field.validate
      { name := "mood", type := some .multiChoice, answers := some ["good", "so-so"],
        allowOtherChoices := some true } = .ok () := rfl
  obtain ⟨answers, hanswers, hnodup, hsame, hsize⟩ := declared_answers_come_through.2 _ hvalid rfl
  obtain rfl := Option.some.inj hanswers
  have hchosen : ∀ answer ∈ ["so-so", "good", "so-so"], answer ∈ ["good", "so-so"] := by simp
  rw [List.toFinset_card_of_nodup hnodup] at hsize
  exact ⟨_, hvalid, rfl, rfl, hsame _ hchosen, hsize⟩

end Field

end Intake
