import Mathlib.Data.List.Perm.Subperm
import Intake.Proofs.Revisions
import Intake.Proofs.Sizes
import Intake.Proofs.Validation

/-!
# Accepted revisions keep the table layout

A field that replaces another one takes up at least as many columns, and as many bytes but
for one case: text with a declared width of more than 1000 characters is counted with more
bytes than text without any limit (`Field.LosesWidth`).

An accepted revision replaces each field by one of the same name. Where no name is declared
twice that maps the old fields to different new ones, so the sums cannot become smaller
either, as long as no field is in that one case.
-/

namespace Intake

namespace Field

/-- The limit of a wide text is lifted. -/
def LosesWidth (old new : Field) : Prop :=
  (∃ t, old.type = some t ∧ t.isTextLike = true) ∧ old.isUnbounded = false
    ∧ 1000 < old.effectiveMaxLength ∧ new.isUnbounded = true

/-! ## Parts of a size -/

theorem choiceSize_le {old new : Field} (hnodup : (old.answers.getD []).Nodup)
    (hanswers : ∀ answer ∈ old.answers.getD [], answer ∈ new.answers.getD [])
    (hother : old.allowsOtherChoices = true → new.allowsOtherChoices = true) :
    old.choiceSize.bytes ≤ new.choiceSize.bytes
      ∧ old.choiceSize.columns ≤ new.choiceSize.columns := by
  have hlength := (List.subperm_of_subset hnodup hanswers).length_le
  have hextra : ∀ n, (if old.allowsOtherChoices then n else 0)
      ≤ if new.allowsOtherChoices then n else 0 := by
    intro n
    cases hold : old.allowsOtherChoices with
    | true => rw [hother hold]
    | false => exact Nat.zero_le _
  rw [bytes_choiceSize, bytes_choiceSize, columns_choiceSize, columns_choiceSize]
  exact ⟨Count.saturate_mono (Nat.add_le_add (Nat.mul_le_mul_left 5 hlength) (hextra 3000)),
    Count.saturate_mono (Nat.add_le_add hlength (hextra 1))⟩

theorem textSize_le_iff {old new : Field} (hkept : WidthKept old new)
    (hflag : old.isUnbounded = true → new.isUnbounded = true) :
    old.textSize.bytes ≤ new.textSize.bytes
      ↔ ¬(old.isUnbounded = false ∧ 1000 < old.effectiveMaxLength ∧ new.isUnbounded = true) := by
  have hwide : (1000 : Count).val = 1000 := rfl
  have hmax := old.effectiveMaxLength.le_max
  rw [bytes_textSize, bytes_textSize, Count.le_iff, Count.val_saturate, Count.val_saturate,
    Count.lt_iff, hwide]
  cases hold : old.isUnbounded with
  | true => simp [hflag hold]
  | false =>
      cases hnew : new.isUnbounded with
      | true =>
          simp only [Bool.false_eq_true, if_false, if_true, true_and, and_true]
          omega
      | false =>
          rcases hkept with hunbounded | hle
          · cases hnew.symm.trans hunbounded
          · have := Count.le_iff.mp hle
            simp only [Bool.false_eq_true, if_false, and_false, not_false_eq_true, iff_true]
            omega

/-- What a type takes up fits into text that is wider than its values. -/
theorem fixedSize?_of_textWidth? {t : FieldType} {width : Count} (h : t.textWidth? = some width) :
    t.isTextLike = false ∧ ∃ s, t.fixedSize? = some s ∧ s.columns = 1
      ∧ s.bytes.val ≤ 3 * (width.val + 1) ∧ s.bytes.val ≤ 3000 := by
  cases t with
  | calendarDate | durationV2 | float | int | timeV2 =>
      obtain rfl := Option.some.inj h
      exact ⟨rfl, _, rfl, rfl, by decide, by decide⟩
  | _ => cases h

theorem isTextLike_of_fixedSize? {t : FieldType} {s : Size} (h : t.fixedSize? = some s) :
    t.isTextLike = false := by
  cases t <;> first | rfl | cases h

/-! ## A field and its replacement -/

theorem not_losesWidth {old new : Field} {t : FieldType} (hold : old.type = some t)
    (ht : t.isTextLike = false) : ¬LosesWidth old new := by
  rintro ⟨⟨t', hold', ht'⟩, -⟩
  obtain rfl := Option.some.inj (hold.symm.trans hold')
  cases ht.symm.trans ht'

/-- The columns are kept, and so are the bytes unless text loses its width. -/
def SizeKept (old new : Field) : Prop :=
  old.size.columns ≤ new.size.columns
    ∧ (old.size.bytes ≤ new.size.bytes ↔ ¬LosesWidth old new)

theorem sizeKept_text {old new : Field} {t u : FieldType} (hold : old.type = some t)
    (ht : t.isTextLike = true) (hnew : new.type = some u) (hu : u.isTextLike = true)
    (hkept : WidthKept old new) (hflag : old.isUnbounded = true → new.isUnbounded = true) :
    SizeKept old new := by
  rw [SizeKept, size_of_isTextLike hold ht, size_of_isTextLike hnew hu, columns_textSize,
    columns_textSize, textSize_le_iff hkept hflag]
  refine ⟨Nat.le_refl _, not_congr ?_⟩
  exact ⟨fun h => ⟨⟨t, hold, ht⟩, h⟩, fun h => h.2⟩

theorem sizeKept_of_le {old new : Field} {t : FieldType} (hold : old.type = some t)
    (ht : t.isTextLike = false) (hbytes : old.size.bytes ≤ new.size.bytes)
    (hcolumns : old.size.columns ≤ new.size.columns) : SizeKept old new :=
  ⟨hcolumns, iff_of_true hbytes (not_losesWidth hold ht)⟩

theorem sizeKept_fixed {old new : Field} {t u : FieldType} {r s : Size} (hold : old.type = some t)
    (hr : t.fixedSize? = some r) (hnew : new.type = some u) (hs : u.fixedSize? = some s)
    (hbytes : r.bytes ≤ s.bytes) (hcolumns : r.columns ≤ s.columns) : SizeKept old new := by
  refine sizeKept_of_le hold (isTextLike_of_fixedSize? hr) ?_ ?_
  · rwa [size_of_fixedSize? hold hr, size_of_fixedSize? hnew hs]
  · rwa [size_of_fixedSize? hold hr, size_of_fixedSize? hnew hs]

/-- Values of a type become text that is wide enough for them. -/
theorem sizeKept_becomesText {old new : Field} {t : FieldType} {width : Count}
    (hold : old.type = some t) (ht : t.textWidth? = some width) (hnew : new.type = some .string)
    (hwidth : new.isUnbounded = true ∨ width < new.effectiveMaxLength) : SizeKept old new := by
  obtain ⟨hlike, s, hs, hcolumns, hnarrow, hsmall⟩ := fixedSize?_of_textWidth? ht
  have hmax := s.bytes.le_max
  have hnewSize := size_of_isTextLike hnew rfl
  refine sizeKept_of_le hold hlike ?_ ?_
  · rw [size_of_fixedSize? hold hs, hnewSize, bytes_textSize, Count.le_iff, Count.val_saturate]
    cases hunbounded : new.isUnbounded with
    | true =>
        simp only [if_true]
        omega
    | false =>
        have := hwidth.resolve_left (by simp [hunbounded])
        rw [Count.lt_iff] at this
        simp only [Bool.false_eq_true, if_false]
        omega
  · rw [size_of_fixedSize? hold hs, hnewSize, columns_textSize, hcolumns]
    exact Nat.le_refl _

theorem Replaces.sizeKept {old new : Field} (h : Replaces old new)
    (hnodup : old.type = some .multiChoice → (old.answers.getD []).Nodup) :
    SizeKept old new := by
  cases h.type with
  | same htype hwidth =>
      cases hold : old.type with
      | none =>
          have hnew := htype.symm.trans hold
          simp [SizeKept, LosesWidth, size, hold, hnew, Count.le_iff]
      | some t =>
          have hnew := htype.symm.trans hold
          rcases FieldType.sizeSource t with ⟨s, hs⟩ | rfl | htext
          · exact sizeKept_fixed hold hs hnew hs (Nat.le_refl _) (Nat.le_refl _)
          · obtain ⟨hbytes, hcolumns⟩ := choiceSize_le (hnodup hold) h.answers h.otherChoices
            rw [← size_of_multiChoice hold, ← size_of_multiChoice hnew] at hbytes hcolumns
            exact sizeKept_of_le hold rfl hbytes hcolumns
          · exact sizeKept_text hold htext hnew htext (hwidth t hnew htext) h.unbounded
  | decimal hold hnew => exact sizeKept_fixed hold rfl hnew rfl (by decide) (by decide)
  | text hold ht hnew hwidth => exact sizeKept_becomesText hold ht hnew hwidth
  | textLike hold ht hnew hwidth => exact sizeKept_text hold ht hnew rfl hwidth h.unbounded

end Field

/-! ## Sums over a revision -/

/-- Fields with distinct names, each with one of its name and of no less weight in another list,
weigh no more together than that list. -/
theorem sum_le_sum_of_names {weight : Field → Nat} {old new : List Field}
    (hnodup : (old.map Field.name).Nodup)
    (h : ∀ f ∈ old, ∃ g ∈ new, f.name = g.name ∧ weight f ≤ weight g) :
    (old.map weight).sum ≤ (new.map weight).sum := by
  induction old generalizing new with
  | nil => exact Nat.zero_le _
  | cons f rest ih =>
      obtain ⟨hname, hrest⟩ := List.nodup_cons.mp hnodup
      obtain ⟨g, hg, hfg, hle⟩ := h f List.mem_cons_self
      obtain ⟨before, after, rfl⟩ := List.append_of_mem hg
      -- The other fields have other names, so they find theirs without `g`.
      have hothers : (rest.map weight).sum ≤ ((before ++ after).map weight).sum := by
        refine ih hrest fun f' hf' => ?_
        obtain ⟨g', hg', hname', hle'⟩ := h f' (List.mem_cons_of_mem f hf')
        refine ⟨g', ?_, hname', hle'⟩
        rcases List.mem_append.mp hg' with hg' | hg'
        · exact List.mem_append_left after hg'
        · rcases List.mem_cons.mp hg' with rfl | hg'
          · exact absurd (List.mem_map.mpr ⟨f', hf', hname'.trans hfg.symm⟩) hname
          · exact List.mem_append_right before hg'
      simp only [List.map_append, List.map_cons, List.sum_append, List.sum_cons] at hothers ⊢
      omega

namespace Revision

/-- An accepted revision of valid fields with distinct names has a field for each of the old
names. The new one takes up no fewer columns, and no fewer bytes exactly if it does not lose
its width. The columns in all do not become fewer, and neither do the bytes if no field loses
its width. -/
theorem layout_never_shrinks (old new : List Field)
    (haccepted : (Report.ofRevision old new).isCompatible = true)
    (hnodup : (old.map Field.name).Nodup) (hvalid : ∀ f ∈ old, f.validate = .ok ()) :
    (Field.totalSize old).columns ≤ (Field.totalSize new).columns
      ∧ (∀ f ∈ old, ∃ g ∈ new, g.name = f.name)
      ∧ (∀ f ∈ old, ∀ g ∈ new, g.name = f.name →
          (f.size.bytes ≤ g.size.bytes ↔ ¬f.LosesWidth g))
      ∧ ((∀ f ∈ old, ∀ g ∈ new, g.name = f.name → ¬f.LosesWidth g) →
          (Field.totalSize old).bytes ≤ (Field.totalSize new).bytes) := by
  obtain ⟨hdistinct, hreplaced⟩ := accepts_iff.mp haccepted
  have hkept : ∀ f ∈ old, ∃ g ∈ new, f.name = g.name ∧ f.SizeKept g := by
    intro f hf
    obtain ⟨g, hg, hreplaces⟩ := hreplaced f hf
    refine ⟨g, hg, hreplaces.name, hreplaces.sizeKept fun hchoice => ?_⟩
    obtain ⟨answers, hanswers, hdistinct⟩ := Field.answers_of_validate (hvalid f hf) hchoice
    simpa [hanswers] using hdistinct
  refine ⟨?_, ?_, ?_, ?_⟩
  · rw [Field.columns_totalSize, Field.columns_totalSize]
    refine Count.saturate_mono (sum_le_sum_of_names hnodup fun f hf => ?_)
    obtain ⟨g, hg, hname, hsize⟩ := hkept f hf
    exact ⟨g, hg, hname, hsize.1⟩
  · intro f hf
    obtain ⟨g, hg, hname, -⟩ := hkept f hf
    exact ⟨g, hg, hname.symm⟩
  · intro f hf g hg hname
    obtain ⟨g', hg', hname', hsize⟩ := hkept f hf
    obtain rfl := List.inj_on_of_nodup_map hdistinct hg hg' (hname.trans hname')
    exact hsize.2
  · intro hwidth
    rw [Field.bytes_totalSize, Field.bytes_totalSize]
    refine Count.saturate_mono (sum_le_sum_of_names hnodup fun f hf => ?_)
    obtain ⟨g, hg, hname, hsize⟩ := hkept f hf
    exact ⟨g, hg, hname, hsize.2.mpr (hwidth f hf g hg hname.symm)⟩

/-- A choice gets a further answer, and an integer becomes text. -/
theorem layout_never_shrinks_mood :
    (Report.ofRevision
        [{ name := "mood", type := some .multiChoice, answers := some ["good", "bad"] },
          { name := "count", type := some .int }]
        [{ name := "count", type := some .string, maxLength := some 21 },
          { name := "mood", type := some .multiChoice, answers := some ["bad", "fair", "good"] }]
        ).isCompatible = true
      ∧ ["mood", "count"].Nodup
      ∧ (Field.totalSize
          [{ name := "mood", type := some .multiChoice, answers := some ["good", "bad"] },
            { name := "count", type := some .int }]).bytes
          ≤ (Field.totalSize
            [{ name := "count", type := some .string, maxLength := some 21 },
              { name := "mood", type := some .multiChoice,
                answers := some ["bad", "fair", "good"] }]).bytes := by
  have haccepted : (Report.ofRevision
      [{ name := "mood", type := some .multiChoice, answers := some ["good", "bad"] },
        { name := "count", type := some .int }]
      [{ name := "count", type := some .string, maxLength := some 21 },
        { name := "mood", type := some .multiChoice, answers := some ["bad", "fair", "good"] }]
      ).isCompatible = true := rfl
  have hnodup : ["mood", "count"].Nodup := by decide
  have hvalid : ∀ f ∈ [
      { name := "mood", type := some .multiChoice, answers := some ["good", "bad"] },
      { name := "count", type := some .int }], Field.validate f = .ok () := by
    simp only [List.forall_mem_cons, List.not_mem_nil, false_implies, implies_true, and_true]
    exact ⟨rfl, rfl⟩
  obtain ⟨-, -, -, hbytes⟩ := layout_never_shrinks _ _ haccepted hnodup hvalid
  refine ⟨haccepted, hnodup, hbytes ?_⟩
  rintro f hf g - -
  rcases List.mem_cons.mp hf with rfl | hf
  · exact Field.not_losesWidth rfl rfl
  · obtain rfl := List.mem_singleton.mp hf
    exact Field.not_losesWidth rfl rfl

end Revision

end Intake
