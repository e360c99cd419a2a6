import Intake.Attachment.Depot
import Intake.Name

/-!
# Attachments on shared shelves

An upload stores the attachments of its record, each under its reference, so a shelf is what
it was before with the stored attachments placed on it one after the other
(`Uploader.upload_run`). The same holds of a whole run of commands on a depot, through
whatever handles they come (`Depot.shelves_run`): under a reference stands what was last
stored under it.

A reference joins the upload and the field with a hyphen, which both of them may contain.
Two pairs have one reference exactly if they collide (`attachmentReference_eq_iff`), and a
reference goes on to resolve to the last value of its pair until something is stored for
one that collides with it.
-/

namespace Intake

/-! ## References -/

/-- The references of two pairs read the same: a hyphenated part ends the upload of the one
and begins the field of the other. -/
def Collide (uploadId field uploadId' field' : String) : Prop :=
  ∃ part, (uploadId' = uploadId ++ "-" ++ part ∧ field = part ++ "-" ++ field')
    ∨ (uploadId = uploadId' ++ "-" ++ part ∧ field' = part ++ "-" ++ field)

/-- A text cut at a hyphen in two ways: at the same one, or with a part between the two cuts. -/
theorem append_hyphen_eq_iff {u f u' f' : List Char} :
    u ++ '-' :: f = u' ++ '-' :: f'
      ↔ (u = u' ∧ f = f') ∨ ∃ part, (u' = u ++ '-' :: part ∧ f = part ++ '-' :: f')
        ∨ (u = u' ++ '-' :: part ∧ f' = part ++ '-' :: f) := by
  rw [List.append_eq_append_iff]
  constructor
  · rintro (⟨as, hu, hf⟩ | ⟨as, hu, hf⟩)
    · cases as with
      | nil => exact Or.inl ⟨by simpa using hu.symm, by simpa using hf⟩
      | cons c part =>
          obtain ⟨rfl, hpart⟩ := List.cons.inj hf
          exact Or.inr ⟨part, Or.inl ⟨hu, hpart⟩⟩
    · cases as with
      | nil => exact Or.inl ⟨by simpa using hu, by simpa using hf.symm⟩
      | cons c part =>
          obtain ⟨rfl, hpart⟩ := List.cons.inj hf
          exact Or.inr ⟨part, Or.inr ⟨hu, hpart⟩⟩
  · rintro (⟨rfl, rfl⟩ | ⟨part, ⟨rfl, rfl⟩ | ⟨rfl, rfl⟩⟩)
    · exact Or.inl ⟨[], by simp⟩
    · exact Or.inl ⟨'-' :: part, by simp⟩
    · exact Or.inr ⟨'-' :: part, by simp⟩

theorem attachmentReference_eq_iff {uploadId field uploadId' field' : String} :
    attachmentReference uploadId field = attachmentReference uploadId' field'
      ↔ (uploadId = uploadId' ∧ field = field') ∨ Collide uploadId field uploadId' field' := by
  have htext : ∀ u f : String, (attachmentReference u f).toList = u.toList ++ '-' :: f.toList := by
    intro u f
    simp [attachmentReference]
  rw [← String.toList_inj, htext, htext, append_hyphen_eq_iff, String.toList_inj, String.toList_inj]
  refine or_congr_right ⟨?_, ?_⟩
  · rintro ⟨part, h⟩
    refine ⟨String.ofList part, ?_⟩
    simpa [← String.toList_inj] using h
  · rintro ⟨part, h⟩
    refine ⟨part.toList, ?_⟩
    simpa [← String.toList_inj] using h

/-! ## What is stored on a shelf -/

/-- An attachment, with the upload and the field that it is stored for. -/
structure Attachment where
  uploadId : String
  field : String
  value : Json

namespace Attachment

def reference (a : Attachment) : String := attachmentReference a.uploadId a.field

theorem reference_ne {uploadId field : String} {other : Attachment}
    (h : ¬(uploadId = other.uploadId ∧ field = other.field)
      ∧ ¬Collide uploadId field other.uploadId other.field) :
    other.reference ≠ attachmentReference uploadId field := by
  intro heq
  exact (attachmentReference_eq_iff.mp heq.symm).elim h.1 h.2

/-- Of attachments that are put into a dictionary one after the other, the last one under a
key is found there. -/
theorem get?_foldl_insert (key : Attachment → String) (value : Attachment → Json)
    (stored : List Attachment) (d : Dict Json) (k : String) :
    (stored.foldl (fun d a => d.insert (key a) (value a)) d).get? k
      = ((stored.reverse.find? fun a => key a == k).map value).or (d.get? k) := by
  have hlookup := Dict.get?_foldl_insert k (stored.map fun a => (key a, value a)) d
  rw [List.foldl_map, ← List.map_reverse, List.lookup_eq_findSome?, List.findSome?_map] at hlookup
  rw [hlookup, List.find?_eq_findSome?_guard, List.map_findSome?]
  congr 2
  funext a
  by_cases h : k = key a
  · simp [h]
  · simp [h, Option.guard, Ne.symm h]

variable (key : Attachment → String) {value : Attachment → Json} {stored : List Attachment}

theorem get?_foldl_insert_of_not_mem {k : String} (h : ∀ a ∈ stored, key a ≠ k) (d : Dict Json) :
    (stored.foldl (fun d a => d.insert (key a) (value a)) d).get? k = d.get? k := by
  have hfind : (stored.reverse.find? fun a => key a == k) = none := by
    rw [List.find?_eq_none]
    intro a ha
    simpa using h a (List.mem_reverse.mp ha)
  rw [get?_foldl_insert, hfind]
  rfl

/-- Where all that is stored under a key is one value, that value is found there. -/
theorem get?_foldl_insert_of_mem {a : Attachment} (ha : a ∈ stored)
    (h : ∀ b ∈ stored, key b = key a → value b = value a) (d : Dict Json) :
    (stored.foldl (fun d a => d.insert (key a) (value a)) d).get? (key a) = some (value a) := by
  rw [get?_foldl_insert]
  cases hfind : stored.reverse.find? fun b => key b == key a with
  | none =>
      have hne := List.find?_eq_none.mp hfind a (List.mem_reverse.mpr ha)
      simp at hne
  | some b =>
      have hb := List.mem_reverse.mp (List.mem_of_find?_eq_some hfind)
      rw [Option.map_some, h b hb (by simpa using List.find?_some hfind)]
      rfl

end Attachment

namespace Shelf

def place (shelf : Shelf) (stored : List Attachment) : Shelf :=
  stored.foldl (fun shelf a => shelf.insert a.reference a.value) shelf

theorem place_append (shelf : Shelf) (stored later : List Attachment) :
    shelf.place (stored ++ later) = (shelf.place stored).place later :=
  List.foldl_append

theorem get?_place (shelf : Shelf) (stored : List Attachment) (reference : String) :
    (shelf.place stored).get? reference
      = ((stored.reverse.find? fun a => a.reference == reference).map Attachment.value).or
          (shelf.get? reference) :=
  Attachment.get?_foldl_insert Attachment.reference Attachment.value stored shelf reference

theorem get?_place_of_append {shelf : Shelf} {stored before after : List Attachment}
    {a : Attachment} (hstored : stored = before ++ a :: after)
    (hafter : ∀ other ∈ after, other.reference ≠ a.reference) :
    (shelf.place stored).get? a.reference = some a.value := by
  have hfind : (stored.reverse.find? fun other => other.reference == a.reference) = some a := by
    refine List.find?_eq_some_iff_append.mpr ⟨by simp, after.reverse, before.reverse, ?_, ?_⟩
    · simp [hstored]
    · intro other hother
      simpa using hafter other (List.mem_reverse.mp hother)
  rw [get?_place, hfind]
  rfl

end Shelf

namespace Uploader

/-- The attachments of a record, in the order of the fields. -/
def attachments (fields : List Field) (values : Dict Json) (uploadId : String) : List Attachment :=
  fields.filterMap fun f => (attachment? values f).map fun v => ⟨uploadId, f.name, v⟩

/-- The record with references in the place of attachments. -/
def withReferences (values : Dict Json) (stored : List Attachment) : Dict Json :=
  stored.foldl (fun values a => values.insert a.field (.string a.reference)) values

theorem attachments_cons (f : Field) (rest : List Field) (values : Dict Json) (uploadId : String) :
    attachments (f :: rest) values uploadId
      = attachments [f] values uploadId ++ attachments rest values uploadId :=
  List.filterMap_append (l := [f])

theorem withReferences_append (values : Dict Json) (stored later : List Attachment) :
    withReferences values (stored ++ later) = withReferences (withReferences values stored) later :=
  List.foldl_append

theorem run_bind_ok {α β : Type} {x : ExceptT AttachmentError (StateM Shelf) α} {a : α}
    {g : α → ExceptT AttachmentError (StateM Shelf) β} {shelf shelf' : Shelf}
    (h : x.run.run shelf = (.ok a, shelf')) :
    (x >>= g).run.run shelf = (g a).run.run shelf' := by
  rw [ExceptT.run_bind, StateT.run_bind, h]
  rfl

theorem substitute_run (values : Dict Json) (uploadId : String) (output : Dict Json) (f : Field)
    (shelf : Shelf) :
    (Shelf.uploader.substitute values uploadId output f).run.run shelf
      = (.ok (withReferences output (attachments [f] values uploadId)),
          shelf.place (attachments [f] values uploadId)) := by
  cases h : attachment? values f with
  | none =>
      rw [attachments, List.filterMap_cons, substitute, h]
      rfl
  | some v =>
      rw [attachments, List.filterMap_cons, substitute, h]
      rfl

/-- An upload to a shelf does not fail: it places the attachments of the record there, and
gives the record with their references. -/
theorem upload_run (fields : List Field) (values : Dict Json) (uploadId : String) (shelf : Shelf) :
    (Shelf.uploader.upload fields values uploadId).run.run shelf
      = (.ok (withReferences values (attachments fields values uploadId)),
          shelf.place (attachments fields values uploadId)) := by
  suffices hfold : ∀ output,
      (fields.foldlM (Shelf.uploader.substitute values uploadId) output).run.run shelf
        = (.ok (withReferences output (attachments fields values uploadId)),
            shelf.place (attachments fields values uploadId)) from hfold values
  -- The values that are uploaded stay those of the input while the output changes.
  induction fields generalizing shelf with
  | nil => exact fun output => rfl
  | cons f rest ih =>
      intro output
      rw [List.foldlM_cons, run_bind_ok (substitute_run values uploadId output f shelf), ih,
        attachments_cons f rest, withReferences_append, Shelf.place_append]

theorem get?_withReferences {fields : List Field} {f : Field} (hf : f ∈ fields) {values : Dict Json}
    {v : Json} (h : attachment? values f = some v) (uploadId : String) :
    (withReferences values (attachments fields values uploadId)).get? f.name
      = some (.string (attachmentReference uploadId f.name)) := by
  have hmem : ⟨uploadId, f.name, v⟩ ∈ attachments fields values uploadId :=
    List.mem_filterMap.mpr ⟨f, hf, by rw [h]; rfl⟩
  refine Attachment.get?_foldl_insert_of_mem Attachment.field hmem ?_ values
  intro b hb hname
  obtain ⟨g, -, hg⟩ := List.mem_filterMap.mp hb
  obtain ⟨w, -, rfl⟩ := Option.map_eq_some_iff.mp hg
  exact congrArg (fun name => Json.string (attachmentReference uploadId name)) hname

end Uploader

/-! ## Runs -/

/-- What is done with the uploaders of a depot. -/
inductive Command where
  | addShelf
  | share (handle : Nat)
  | put (handle : Nat) (value : Json) (uploadId field : String)
  | upload (handle : Nat) (fields : List Field) (values : Dict Json) (uploadId : String)

namespace Depot

variable {α : Type}

/-- The depot after something was done with the shelf of a handle. A handle without a shelf
changes nothing. -/
def after (d : Depot) (handle : Nat) (action : StateM Shelf α) : Depot :=
  match d.onShelf handle action with
  | none => d
  | some result => result.2

def step (d : Depot) : Command → Depot
  | .addShelf => d.addShelf
  | .share handle => d.share handle
  | .put handle value uploadId field => d.after handle (Shelf.uploader value uploadId field).run
  | .upload handle fields values uploadId =>
    d.after handle (Shelf.uploader.upload fields values uploadId).run

def run (d : Depot) (commands : List Command) : Depot := commands.foldl step d

/-- What a command stores on the shelf `i`. -/
def storedBy (d : Depot) (i : Nat) : Command → List Attachment
  | .addShelf | .share _ => []
  | .put handle value uploadId field =>
    if d.handles[handle]? = some i then [⟨uploadId, field, value⟩] else []
  | .upload handle fields values uploadId =>
    if d.handles[handle]? = some i then Uploader.attachments fields values uploadId else []

def storedOn (d : Depot) (i : Nat) : List Command → List Attachment
  | [] => []
  | c :: rest => d.storedBy i c ++ (d.step c).storedOn i rest

/-- What is done through a handle is done to its shelf, and to no other. -/
theorem shelves_after {d : Depot} {i : Nat} {shelf : Shelf} (hshelf : d.shelves[i]? = some shelf)
    (handle : Nat) (action : StateM Shelf α) :
    (d.after handle action).shelves[i]?
      = some (if d.handles[handle]? = some i then (action.run shelf).2 else shelf) := by
  unfold after onShelf
  cases hhandle : d.handles[handle]? with
  | none => simpa using hshelf
  | some j =>
      cases hj : d.shelves[j]? with
      | none =>
          -- The handle has no shelf, so it is not the handle of shelf `i`.
          have hne : j ≠ i := by
            rintro rfl
            cases hj.symm.trans hshelf
          simpa [hj, hne] using hshelf
      | some other =>
          simp only [hj, Option.map_some, Option.some.injEq]
          by_cases hij : j = i
          · subst hij
            obtain rfl := Option.some.inj (hj.symm.trans hshelf)
            obtain ⟨hlt, -⟩ := List.getElem?_eq_some_iff.mp hj
            simp [hlt]
          · simp [List.getElem?_set_ne hij, hij, hshelf]

theorem shelves_step {d : Depot} {i : Nat} {shelf : Shelf} (hshelf : d.shelves[i]? = some shelf)
    (c : Command) : (d.step c).shelves[i]? = some (shelf.place (d.storedBy i c)) := by
  cases c with
  | addShelf =>
      obtain ⟨hlt, -⟩ := List.getElem?_eq_some_iff.mp hshelf
      exact (List.getElem?_append_left hlt).trans hshelf
  | share handle => exact hshelf
  | put handle value uploadId field =>
      rw [step, shelves_after hshelf, storedBy]
      split <;> rfl
  | upload handle fields values uploadId =>
      rw [step, shelves_after hshelf, storedBy, Uploader.upload_run]
      split <;> rfl

theorem shelves_run {d : Depot} {i : Nat} {shelf : Shelf} (hshelf : d.shelves[i]? = some shelf)
    (commands : List Command) :
    (d.run commands).shelves[i]? = some (shelf.place (d.storedOn i commands)) := by
  induction commands generalizing d shelf with
  | nil => exact hshelf
  | cons c rest ih =>
      rw [storedOn, Shelf.place_append]
      exact ih (shelves_step hshelf c)

theorem get?_run {d : Depot} {i : Nat} {shelf : Shelf} (hshelf : d.shelves[i]? = some shelf)
    {commands : List Command} {handle : Nat} (hhandle : (d.run commands).handles[handle]? = some i)
    (reference : String) :
    (d.run commands).get? handle reference
      = (shelf.place (d.storedOn i commands)).get? reference := by
  rw [get?, shelf?, hhandle, Option.bind_some, shelves_run hshelf commands, Option.bind_some]

/-- An upload gives the reference of its pair, and through each handle to the shelf that
reference resolves to the last value of the pair, until something is stored for a pair that
collides with it. Pairs that do not collide have different references. -/
theorem reference_resolves (d : Depot) (i : Nat) (shelf : Shelf)
    (hshelf : d.shelves[i]? = some shelf) (commands : List Command) (handle : Nat)
    (hhandle : (d.run commands).handles[handle]? = some i) :
    (∀ value uploadId field shelf,
        ((Shelf.uploader value uploadId field).run.run shelf).1
          = .ok (attachmentReference uploadId field))
      ∧ (∀ fields values uploadId shelf, ∃ output,
          ((Shelf.uploader.upload fields values uploadId).run.run shelf).1 = .ok output
            ∧ ∀ f ∈ fields, ∀ v, Uploader.attachment? values f = some v →
                output.get? f.name = some (.string (attachmentReference uploadId f.name)))
      ∧ (∀ uploadId field uploadId' field',
          attachmentReference uploadId field = attachmentReference uploadId' field'
            ↔ (uploadId = uploadId' ∧ field = field') ∨ Collide uploadId field uploadId' field')
      ∧ (∀ before a after, d.storedOn i commands = before ++ a :: after →
          (∀ other ∈ after, ¬(a.uploadId = other.uploadId ∧ a.field = other.field)
            ∧ ¬Collide a.uploadId a.field other.uploadId other.field) →
          (d.run commands).get? handle (attachmentReference a.uploadId a.field) = some a.value)
      ∧ ∀ uploadId field,
          (∀ other ∈ d.storedOn i commands, ¬(uploadId = other.uploadId ∧ field = other.field)
            ∧ ¬Collide uploadId field other.uploadId other.field) →
          (d.run commands).get? handle (attachmentReference uploadId field)
            = shelf.get? (attachmentReference uploadId field) := by
  refine ⟨fun value uploadId field shelf => rfl, ?_, fun _ _ _ _ => attachmentReference_eq_iff,
    ?_, ?_⟩
  · intro fields values uploadId shelf
    rw [Uploader.upload_run]
    exact ⟨_, rfl, fun f hf v hv => Uploader.get?_withReferences hf hv uploadId⟩
  · intro before a after hstored hafter
    rw [get?_run hshelf hhandle]
    exact Shelf.get?_place_of_append hstored fun other h =>
      Attachment.reference_ne (hafter other h)
  · intro uploadId field hnone
    have hfind : (d.storedOn i commands).reverse.find?
        (fun a => a.reference == attachmentReference uploadId field) = none := by
      rw [List.find?_eq_none]
      intro other h
      simpa using Attachment.reference_ne (hnone other (List.mem_reverse.mp h))
    rw [get?_run hshelf hhandle, Shelf.get?_place, hfind]
    rfl

/-- The copy of an uploader finds what was stored through the first one, after an upload that
does not collide with it. -/
theorem reference_resolves_shared :
    start.shelves[0]? = some Dict.empty
      ∧ (start.run [.share 0, .put 0 (.string "first") "u" "a-b",
          .put 1 (.string "second") "u-a" "c"]).handles[1]? = some 0
      ∧ (start.run [.share 0, .put 0 (.string "first") "u" "a-b",
          .put 1 (.string "second") "u-a" "c"]).get? 1 "u-a-b" = some (.string "first") := by
  obtain ⟨-, -, -, hlast, -⟩ := reference_resolves start 0 Dict.empty rfl
    [.share 0, .put 0 (.string "first") "u" "a-b", .put 1 (.string "second") "u-a" "c"] 1 rfl
  refine ⟨rfl, rfl, hlast [] ⟨"u", "a-b", .string "first"⟩ [⟨"u-a", "c", .string "second"⟩] rfl ?_⟩
  intro other hother
  obtain rfl := List.mem_singleton.mp hother
  have hne : attachmentReference "u" "a-b" ≠ attachmentReference "u-a" "c" := by decide
  exact not_or.mp (mt attachmentReference_eq_iff.mpr hne)

/-- An upload that collides replaces the value of another one, under valid field names. -/
theorem reference_overwritten :
    Name.isFieldName "a-b" = true ∧ Name.isFieldName "b" = true
      ∧ start.storedOn 0 [.put 0 (.string "first") "u" "a-b", .put 0 (.string "second") "u-a" "b"]
          = [⟨"u", "a-b", .string "first"⟩, ⟨"u-a", "b", .string "second"⟩]
      ∧ (start.run [.put 0 (.string "first") "u" "a-b", .put 0 (.string "second") "u-a" "b"]).get? 0
          (attachmentReference "u" "a-b") ≠ some (.string "first") := by
  refine ⟨by decide, by decide, rfl, ?_⟩
  have hget : (start.run [.put 0 (.string "first") "u" "a-b",
      .put 0 (.string "second") "u-a" "b"]).get? 0 (attachmentReference "u" "a-b")
        = some (.string "second") := rfl
  rw [hget]
  simp

end Depot

end Intake
