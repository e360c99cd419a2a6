import Mathlib.Data.List.Chain
import Mathlib.Data.List.Nodup
import Intake.Proofs.Compatibility
import Intake.Revision

/-!
# Accepted revisions compose

A revision accepts the one after it if the comparison of the two finds no breaking
change. In other words (`accepts_iff`) the new revision declares no name twice, and
each field of the old one is replaced by a field of the new one. The two lists are
not treated alike: the old one may declare a name as often as it likes, and then the
one new field of that name replaces each of its declarations.

Since replacements compose, so do accepted revisions, and in a history in which each
revision accepts the next one, each accepts every later one.
-/

namespace Intake

namespace Revision

/-- No change from `old` to `new` breaks data. -/
def Accepts (old new : List Field) : Prop := (Report.ofRevision old new).isCompatible = true

/-! ## Look-up by name -/

theorem redeclared_eq_nil_iff {seen : List String} {fields : List Field} :
    redeclared seen fields = []
      ↔ (∀ f ∈ fields, f.name ∉ seen) ∧ (fields.map Field.name).Nodup := by
  induction fields generalizing seen with
  | nil => simp [redeclared]
  | cons f rest ih =>
      by_cases hf : f.name ∈ seen
      · simp [redeclared, hf]
      · simp only [redeclared, List.contains_iff_mem, hf, if_false, List.nil_append, ih,
          List.mem_cons, not_or, forall_eq_or_imp, not_false_eq_true, true_and, List.map_cons,
          List.nodup_cons, List.mem_map, not_exists, not_and]
        constructor
        · rintro ⟨hseen, hnodup⟩
          refine ⟨?_, ?_, hnodup⟩
          · intro g hg
            exact (hseen g hg).2
          · intro g hg
            exact (hseen g hg).1
        · rintro ⟨hseen, hne, hnodup⟩
          refine ⟨?_, hnodup⟩
          intro g hg
          exact ⟨hne g hg, hseen g hg⟩

theorem find?_some {fields : List Field} {name : String} {g : Field}
    (h : find? fields name = some g) : g ∈ fields ∧ g.name = name :=
  ⟨List.mem_reverse.mp (List.mem_of_find?_eq_some h), by simpa using List.find?_some h⟩

theorem exists_find?_of_mem {fields : List Field} {f : Field} (hf : f ∈ fields) :
    ∃ g, find? fields f.name = some g := by
  cases hfind : find? fields f.name with
  | none =>
      have hnone := List.find?_eq_none.mp hfind f (List.mem_reverse.mpr hf)
      exact absurd (beq_self_eq_true f.name) hnone
  | some g => exact ⟨g, rfl⟩

/-- Where no name is declared twice, any field of a name is the one that is found. -/
theorem find?_eq_of_mem {fields : List Field} (hnodup : (fields.map Field.name).Nodup) {g : Field}
    (hg : g ∈ fields) : find? fields g.name = some g := by
  obtain ⟨g', hfind⟩ := exists_find?_of_mem hg
  obtain ⟨hg', hname⟩ := find?_some hfind
  rw [hfind, List.inj_on_of_nodup_map hnodup hg' hg hname]

/-! ## Accepted revisions -/

theorem breakingChangesOf_eq_nil_iff {new : List Field} {f : Field} :
    breakingChangesOf new f = [] ↔ ∃ g, find? new f.name = some g ∧ f.Replaces g := by
  unfold breakingChangesOf
  split
  · next h => simp [h]
  · next g h =>
      rw [List.map_eq_nil_iff, ← List.isEmpty_iff]
      constructor
      · intro hg
        exact ⟨g, h, Field.isCompatible_iff.mp hg⟩
      · rintro ⟨g', hg', hreplaces⟩
        obtain rfl := Option.some.inj (h.symm.trans hg')
        exact Field.isCompatible_iff.mpr hreplaces

theorem accepts_iff {old new : List Field} :
    Accepts old new
      ↔ (new.map Field.name).Nodup ∧ ∀ f ∈ old, ∃ g ∈ new, f.Replaces g := by
  have hnames : redeclared [] new = [] ↔ (new.map Field.name).Nodup := by
    simp [redeclared_eq_nil_iff]
  rw [Accepts, Report.isCompatible, Report.ofRevision, List.isEmpty_iff, List.map_eq_nil_iff,
    breakingChanges, List.append_eq_nil_iff, List.map_eq_nil_iff, List.flatMap_eq_nil_iff, hnames]
  refine and_congr_right fun hnodup => forall₂_congr fun f _ => ?_
  rw [breakingChangesOf_eq_nil_iff]
  constructor
  · rintro ⟨g, hg, hreplaces⟩
    exact ⟨g, (find?_some hg).1, hreplaces⟩
  · rintro ⟨g, hg, hreplaces⟩
    exact ⟨g, hreplaces.name ▸ find?_eq_of_mem hnodup hg, hreplaces⟩

theorem Accepts.trans {a b c : List Field} (hab : Accepts a b) (hbc : Accepts b c) :
    Accepts a c := by
  rw [accepts_iff] at hab hbc ⊢
  refine ⟨hbc.1, fun f hf => ?_⟩
  obtain ⟨g, hg, hfg⟩ := hab.2 f hf
  obtain ⟨h, hh, hgh⟩ := hbc.2 g hg
  exact ⟨h, hh, hfg.trans hgh⟩

instance : Trans Accepts Accepts Accepts := ⟨Accepts.trans⟩

/-- Compatibility of definitions is a preorder, accepted revisions compose, and where
each revision of a history accepts the next one, each accepts every later one. -/
theorem compatibility_composes :
    (∀ f : Field, f.isCompatible f = true)
      ∧ (∀ a b c : Field,
          a.isCompatible b = true → b.isCompatible c = true → a.isCompatible c = true)
      ∧ (∀ a b c : List Field, (Report.ofRevision a b).isCompatible = true →
          (Report.ofRevision b c).isCompatible = true →
            (Report.ofRevision a c).isCompatible = true)
      ∧ ∀ history : List (List Field), history.IsChain Accepts → history.Pairwise Accepts := by
  refine ⟨?_, ?_, ?_, ?_⟩
  · intro f
    exact Field.isCompatible_iff.mpr (.refl f)
  · intro a b c hab hbc
    rw [Field.isCompatible_iff] at hab hbc ⊢
    exact hab.trans hbc
  · intro a b c hab hbc
    exact Accepts.trans hab hbc
  · intro history h
    exact h.pairwise

/-- An integer declared twice becomes a decimal, and then text that is wide enough for
decimals. -/
theorem accepts_int_float_string :
    Accepts [{ name := "dose", type := some .int }, { name := "dose", type := some .int }]
        [{ name := "dose", type := some .float }]
      ∧ Accepts [{ name := "dose", type := some .float }]
        [{ name := "dose", type := some .string, maxLength := some 23 }]
      ∧ Accepts [{ name := "dose", type := some .int }, { name := "dose", type := some .int }]
        [{ name := "dose", type := some .string, maxLength := some 23 }] := by
  have hfloat : Accepts
      [{ name := "dose", type := some .int }, { name := "dose", type := some .int }]
      [{ name := "dose", type := some .float }] := rfl
  have hstring : Accepts [{ name := "dose", type := some .float }]
      [{ name := "dose", type := some .string, maxLength := some 23 }] := rfl
  exact ⟨hfloat, hstring, compatibility_composes.2.2.1 _ _ _ hfloat hstring⟩

end Revision

end Intake
