import Intake.Proofs.Revisions

/-!
# What a report accounts for

The verdict of a report is a statement about the two field lists as sets
(`isCompatible_iff`): the names of the new one are distinct, and each old field has a
compatible new field of its name. The order of neither list matters.

The entries of a report are groups of texts, one group for each old field, after those about
names that are declared twice (`breakingChanges_ofRevision`). Where no name is declared twice, a
report says one thing about each old name, and one only: the field is gone, it is broken, it has
changed compatibly or it is the same (`Standing`). The first three are read off the report. The
names that it lists as added are the new ones, in the order in which they are first declared.
-/

namespace Intake

namespace Revision

/-- What a revision does to a field of the revision before it. -/
inductive Standing where
  | removed
  /-- Its definition is not compatible with the one before. -/
  | broken
  /-- Its definition is another one, and compatible. -/
  | changed
  | same
  deriving DecidableEq, Repr

/-- The standing of an old field among the fields of the new revision. -/
def standing (new : List Field) (f : Field) : Standing :=
  match find? new f.name with
  | none => .removed
  | some g => if f = g then .same else if f.isCompatible g then .changed else .broken

/-! ## Entries -/

def redeclaredEntry (name : String) : String := "Field '" ++ name ++ "' declared more than once"

def removedEntry (name : String) : String := "Field '" ++ name ++ "' removed"

def problemEntry (name problem : String) : String := "Field '" ++ name ++ "': " ++ problem

/-- What a report on the revision `new` writes about the old field `f`: that it is removed, or each
problem that the new field of its name would make. -/
def entriesAbout (new : List Field) (f : Field) : List String :=
  match find? new f.name with
  | none => [removedEntry f.name]
  | some g => (f.incompatibilities g).map fun reason => problemEntry f.name reason.message

/-- Where a report puts an old name: the entries about its field say that it is removed, or they
are problems, one or more; or it is listed as changed; or its field is the same in both. -/
def HasStanding (old new : List Field) (name : String) : Standing → Prop
  | .removed => ∃ f ∈ old, f.name = name ∧ entriesAbout new f = [removedEntry name]
  | .broken => ∃ f ∈ old, f.name = name
      ∧ ∃ problems ≠ [], entriesAbout new f = problems.map (problemEntry name)
  | .changed => name ∈ (Report.ofRevision old new).changedFields
  | .same => ∃ f ∈ old, f ∈ new ∧ f.name = name

theorem map_message_breakingChangesOf (new : List Field) (f : Field) :
    (breakingChangesOf new f).map BreakingChange.message = entriesAbout new f := by
  unfold breakingChangesOf entriesAbout
  cases find? new f.name with
  | none => rfl
  | some g => exact List.map_map

/-- A report writes of every name that is declared again, then of the old fields one by one. -/
theorem breakingChanges_ofRevision (old new : List Field) :
    (Report.ofRevision old new).breakingChanges
      = (redeclared [] new).map redeclaredEntry ++ old.flatMap (entriesAbout new) := by
  rw [Report.ofRevision, breakingChanges, List.map_append, List.map_map, List.map_flatMap]
  simp only [map_message_breakingChangesOf]
  rfl

/-- An entry is not both: what follows the name is another sign. -/
theorem removedEntry_ne_problemEntry (name problem : String) :
    removedEntry name ≠ problemEntry name problem := by
  intro h
  simp only [removedEntry, problemEntry, String.append_assoc, String.append_right_inj] at h
  have hchars := congrArg String.toList h
  rw [String.toList_append] at hchars
  cases hchars

theorem entriesAbout_eq_removed_iff {new : List Field} {f : Field} :
    entriesAbout new f = [removedEntry f.name] ↔ find? new f.name = none := by
  unfold entriesAbout
  cases find? new f.name with
  | none => simp
  | some g =>
      simp only [reduceCtorEq, iff_false]
      intro h
      obtain ⟨reason, -, hreason⟩ := List.mem_map.mp (h ▸ List.mem_singleton_self _)
      exact removedEntry_ne_problemEntry _ _ hreason.symm

theorem entriesAbout_eq_problems_iff {new : List Field} {f : Field} :
    (∃ problems ≠ [], entriesAbout new f = problems.map (problemEntry f.name))
      ↔ ∃ g, find? new f.name = some g ∧ f.isCompatible g = false := by
  unfold entriesAbout
  cases find? new f.name with
  | none =>
      simp only [reduceCtorEq, false_and, exists_false, iff_false]
      rintro ⟨problems, -, h⟩
      obtain ⟨problem, -, hproblem⟩ := List.mem_map.mp (h ▸ List.mem_singleton_self _)
      exact removedEntry_ne_problemEntry _ _ hproblem.symm
  | some g =>
      simp only [Option.some.injEq, exists_eq_left', Field.isCompatible, List.isEmpty_eq_false_iff]
      constructor
      · rintro ⟨problems, hproblems, h⟩ hnone
        rw [hnone] at h
        exact hproblems (List.map_eq_nil_iff.mp h.symm)
      · intro hsome
        refine ⟨(f.incompatibilities g).map Incompatibility.message, ?_, ?_⟩
        · exact mt List.map_eq_nil_iff.mp hsome
        · rw [List.map_map]
          rfl

/-! ## The verdict -/

theorem isCompatible_iff {old new : List Field} :
    (Report.ofRevision old new).isCompatible = true
      ↔ (new.map Field.name).Nodup
        ∧ ∀ f ∈ old, ∃ g ∈ new, g.name = f.name ∧ f.isCompatible g = true := by
  refine accepts_iff.trans (and_congr_right fun _ => forall₂_congr fun f _ => ?_)
  refine exists_congr fun g => and_congr_right fun _ => ?_
  rw [Field.isCompatible_iff]
  constructor
  · intro h
    exact ⟨h.name.symm, h⟩
  · exact And.right

theorem isCompatible_perm {old old' new new' : List Field} (hold : old'.Perm old)
    (hnew : new'.Perm new) :
    (Report.ofRevision old' new').isCompatible = (Report.ofRevision old new).isCompatible := by
  rw [Bool.eq_iff_iff, isCompatible_iff, isCompatible_iff, (hnew.map Field.name).nodup_iff]
  simp only [hold.mem_iff, hnew.mem_iff]

/-! ## Old names -/

theorem standing_of_none {new : List Field} {f : Field} (h : find? new f.name = none) :
    standing new f = .removed := by
  rw [standing, h]

theorem standing_of_some {new : List Field} {f g : Field} (h : find? new f.name = some g) :
    standing new f = if f = g then .same else if f.isCompatible g then .changed else .broken := by
  rw [standing, h]

theorem standing_eq_removed {new : List Field} {f : Field} :
    standing new f = .removed ↔ find? new f.name = none := by
  cases h : find? new f.name with
  | none => simp [standing_of_none h]
  | some g =>
      rw [standing_of_some h]
      split
      · simp
      · split <;> simp

theorem standing_eq_broken {new : List Field} {f : Field} :
    standing new f = .broken ↔ ∃ g, find? new f.name = some g ∧ f.isCompatible g = false := by
  cases h : find? new f.name with
  | none => simp [standing_of_none h]
  | some g =>
      rw [standing_of_some h]
      split
      · next hfg => simp [← hfg, Field.isCompatible_iff.mpr (.refl f)]
      · split
        · next hg => simp [hg]
        · next hg => simp [hg]

theorem standing_eq_changed {new : List Field} {f : Field} :
    standing new f = .changed ↔ isChanged new f = true := by
  cases h : find? new f.name with
  | none => simp [standing_of_none h, isChanged, h]
  | some g =>
      rw [standing_of_some h, isChanged, h, Option.any_some]
      split
      · next hfg => simp [hfg]
      · next hfg =>
          split
          · next hg => simp [hg, hfg]
          · next hg => simp [hg]

theorem standing_eq_same {new : List Field} {f : Field} :
    standing new f = .same ↔ find? new f.name = some f := by
  cases h : find? new f.name with
  | none => simp [standing_of_none h]
  | some g =>
      rw [standing_of_some h]
      split
      · next hfg => simp [hfg]
      · next hfg => split <;> simp [Ne.symm hfg]

theorem find?_eq_self_iff {new : List Field} (hnew : (new.map Field.name).Nodup) {f : Field} :
    find? new f.name = some f ↔ f ∈ new := by
  constructor
  · intro h
    exact (find?_some h).1
  · intro hf
    exact find?_eq_of_mem hnew hf

/-- Where the comparison puts a name is the standing of the old fields of that name. -/
theorem hasStanding_iff {old new : List Field} (hnew : (new.map Field.name).Nodup)
    {name : String} {s : Standing} :
    HasStanding old new name s ↔ ∃ f ∈ old, f.name = name ∧ standing new f = s := by
  cases s with
  | removed =>
      simp only [HasStanding, standing_eq_removed, ← entriesAbout_eq_removed_iff]
      exact exists_congr fun f => and_congr_right fun _ => and_congr_right fun h => by rw [h]
  | broken =>
      simp only [HasStanding, standing_eq_broken, ← entriesAbout_eq_problems_iff]
      exact exists_congr fun f => and_congr_right fun _ => and_congr_right fun h => by rw [h]
  | changed =>
      simp only [HasStanding, standing_eq_changed, Report.ofRevision, changedFields, List.mem_map,
        List.mem_filter, and_assoc, and_comm (a := isChanged new _ = true)]
  | same =>
      simp only [HasStanding, standing_eq_same, find?_eq_self_iff hnew, and_comm]

theorem existsUnique_hasStanding {old new : List Field} (hold : (old.map Field.name).Nodup)
    (hnew : (new.map Field.name).Nodup) {name : String} (hname : name ∈ old.map Field.name) :
    ∃! s, HasStanding old new name s := by
  obtain ⟨f, hf, rfl⟩ := List.mem_map.mp hname
  refine ⟨standing new f, (hasStanding_iff hnew).mpr ⟨f, hf, rfl, rfl⟩, ?_⟩
  intro s hs
  obtain ⟨f', hf', hname', rfl⟩ := (hasStanding_iff hnew).mp hs
  rw [List.inj_on_of_nodup_map hold hf' hf hname']

/-! ## New names -/

/-- The names beyond those seen, each where it first comes. -/
theorem namesBeyond_eq (seen : List String) (fields : List Field) :
    namesBeyond seen fields
      = ((fields.map Field.name).filter fun name => !seen.contains name).eraseDups := by
  induction fields generalizing seen with
  | nil => simp [namesBeyond]
  | cons f rest ih =>
      rw [namesBeyond, List.map_cons]
      by_cases hf : seen.contains f.name
      · rw [if_pos hf, ih, List.filter_cons_of_neg (by simpa using hf)]
      · have hseen : ∀ name : String, (!(f.name :: seen).contains name)
            = (!(name == f.name) && !seen.contains name) := by
          intro name
          rw [List.contains_cons, Bool.not_or]
        rw [if_neg hf, ih, List.filter_cons_of_pos (by simpa using hf), List.eraseDups_cons,
          List.filter_filter]
        simp only [hseen]

theorem eraseDups_of_nodup {names : List String} (h : names.Nodup) : names.eraseDups = names := by
  induction names with
  | nil => rfl
  | cons name rest ih =>
      obtain ⟨hname, hrest⟩ := List.nodup_cons.mp h
      have hfilter : rest.filter (fun other => !other == name) = rest := by
        rw [List.filter_eq_self]
        intro other hother
        simpa using fun heq : other = name => hname (heq ▸ hother)
      rw [List.eraseDups_cons, hfilter, ih hrest]

/-- A report is compatible exactly if the new names are distinct and each old field has a
compatible new field of its name, whatever the order of the fields. Its entries are the names
that are declared again, then for each old field that it is removed or what problems it has. Each
new name that is not an old one is listed as added, once. Where no name is declared twice, each
old name has exactly one standing. -/
theorem report_accounts (old new : List Field) :
    ((Report.ofRevision old new).isCompatible = true
        ↔ (new.map Field.name).Nodup
          ∧ ∀ f ∈ old, ∃ g ∈ new, g.name = f.name ∧ f.isCompatible g = true)
      ∧ (∀ old' new' : List Field, old'.Perm old → new'.Perm new →
          (Report.ofRevision old' new').isCompatible = (Report.ofRevision old new).isCompatible)
      ∧ (Report.ofRevision old new).breakingChanges
          = (redeclared [] new).map redeclaredEntry ++ old.flatMap (entriesAbout new)
      ∧ (Report.ofRevision old new).addedFields
          = ((new.map Field.name).filter fun name => !(old.map Field.name).contains name).eraseDups
      ∧ ((old.map Field.name).Nodup → (new.map Field.name).Nodup →
          (∀ name ∈ old.map Field.name, ∃! s, HasStanding old new name s)
            ∧ (Report.ofRevision old new).addedFields
                = (new.map Field.name).filter (fun name => !(old.map Field.name).contains name)
            ∧ (Report.ofRevision old new).addedFields.Nodup) := by
  have hadded : (Report.ofRevision old new).addedFields
      = ((new.map Field.name).filter fun name => !(old.map Field.name).contains name).eraseDups :=
    namesBeyond_eq _ new
  refine ⟨isCompatible_iff, fun old' new' => isCompatible_perm, breakingChanges_ofRevision old new,
    hadded, fun hold hnew => ?_⟩
  have hfilter := hnew.filter fun name => !(old.map Field.name).contains name
  have hbeyond := hadded.trans (eraseDups_of_nodup hfilter)
  refine ⟨fun name => existsUnique_hasStanding hold hnew, hbeyond, ?_⟩
  rw [hbeyond]
  exact hfilter

/-- One field is dropped and one becomes a decimal, and a new one comes first. -/
theorem report_accounts_dropped :
    ["count", "gone"].Nodup ∧ ["note", "count"].Nodup
      ∧ (Report.ofRevision
          [{ name := "count", type := some .int }, { name := "gone", type := some .boolean }]
          [{ name := "note", type := some .string }, { name := "count", type := some .float }]
          ).isCompatible = false
      ∧ (Report.ofRevision
          [{ name := "count", type := some .int }, { name := "gone", type := some .boolean }]
          [{ name := "note", type := some .string }, { name := "count", type := some .float }]
          ).breakingChanges = ["Field 'gone' removed"]
      ∧ (∃! s, HasStanding
          [{ name := "count", type := some .int }, { name := "gone", type := some .boolean }]
          [{ name := "note", type := some .string }, { name := "count", type := some .float }]
          "gone" s)
      ∧ (Report.ofRevision
          [{ name := "count", type := some .int }, { name := "gone", type := some .boolean }]
          [{ name := "note", type := some .string }, { name := "count", type := some .float }]
          ).addedFields = ["note"] := by
  obtain ⟨-, -, hentries, -, haccounts⟩ := report_accounts
    [{ name := "count", type := some .int }, { name := "gone", type := some .boolean }]
    [{ name := "note", type := some .string }, { name := "count", type := some .float }]
  have hold : ["count", "gone"].Nodup := by decide
  have hnew : ["note", "count"].Nodup := by decide
  obtain ⟨hstanding, hadded, -⟩ := haccounts hold hnew
  exact ⟨hold, hnew, rfl, hentries.trans rfl, hstanding "gone" (by decide), hadded⟩

end Revision

end Intake
