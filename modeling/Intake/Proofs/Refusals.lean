import Intake.Proofs.Attachments

/-!
# Uploads that are refused

An uploader may refuse the attachments of some fields and store all others
(`Uploader.StoresUnless`). As long as nothing is refused it does what a shelf does
(`Uploader.upload_run_of_accepted`), and at the first attachment that is refused the upload
ends. So a failed upload leaves on the shelf the attachments that come before that one, each
under its reference.

To store these again changes nothing (`Shelf.place_place_append`). A failed upload can
therefore be run again as it stands, and once nothing is refused its output and its shelf are
those of an upload that has never failed.
-/

namespace Intake

/-- Attachments that are stored once more, before others, are where they are. -/
theorem Shelf.place_place_append (shelf : Shelf) (stored later : List Attachment) :
    (shelf.place stored).place (stored ++ later) = shelf.place (stored ++ later) := by
  have hlast : ∀ v w x : Option Json, (v.or w).or (w.or x) = (v.or w).or x := by
    intro v w x
    cases v <;> cases w <;> rfl
  apply Dict.ext_get?
  intro reference
  rw [get?_place, get?_place, get?_place, List.reverse_append, List.find?_append, Option.map_or,
    hlast]

namespace Uploader

/-- The uploader fails for the fields that have an error, and then stores nothing. Whatever
else it is given it stores as a shelf does. -/
def StoresUnless (u : Uploader Shelf) (error? : String → Option AttachmentError) : Prop :=
  ∀ value uploadId field shelf,
    (u value uploadId field).run.run shelf
      = match error? field with
        | some e => (.error e, shelf)
        | none => (Shelf.uploader value uploadId field).run.run shelf

/-- A shelf whose uploads are refused for the named fields is such an uploader. -/
theorem storesUnless_refusing (names : List String) (reason : String) :
    (Shelf.uploader.refusing names reason).StoresUnless
      fun field => if names.contains field then some ⟨field, reason⟩ else none := by
  intro value uploadId field shelf
  by_cases h : names.contains field = true
  · simp only [refusing, h, if_true]
    rfl
  · simp only [refusing, h, if_false, Bool.false_eq_true]

/-- Nothing is refused for the field: it has no attachment, or there is no error for it. -/
def Accepts (error? : String → Option AttachmentError) (values : Dict Json) (f : Field) : Prop :=
  (attachment? values f).isSome = true → error? f.name = none

theorem run_bind_error {α β : Type} {x : ExceptT AttachmentError (StateM Shelf) α}
    {g : α → ExceptT AttachmentError (StateM Shelf) β} {shelf shelf' : Shelf} {e : AttachmentError}
    (h : x.run.run shelf = (.error e, shelf')) : (x >>= g).run.run shelf = (.error e, shelf') := by
  rw [ExceptT.run_bind, StateT.run_bind, h]
  rfl

variable {u : Uploader Shelf} {error? : String → Option AttachmentError}

theorem substitute_run_of_accepts (hu : u.StoresUnless error?) {values : Dict Json} {f : Field}
    (hf : Accepts error? values f) (uploadId : String) (output : Dict Json) (shelf : Shelf) :
    (u.substitute values uploadId output f).run.run shelf
      = (Shelf.uploader.substitute values uploadId output f).run.run shelf := by
  cases h : attachment? values f with
  | none => simp only [substitute, h]
  | some v =>
      have hstore := hu v uploadId f.name shelf
      rw [hf (by rw [h]; rfl)] at hstore
      simp only [substitute, h]
      exact run_bind_ok hstore

theorem substitute_run_of_refused (hu : u.StoresUnless error?) {values : Dict Json} {f : Field}
    (hf : (attachment? values f).isSome = true) {e : AttachmentError} (he : error? f.name = some e)
    (uploadId : String) (output : Dict Json) (shelf : Shelf) :
    (u.substitute values uploadId output f).run.run shelf = (.error e, shelf) := by
  obtain ⟨v, h⟩ := Option.isSome_iff_exists.mp hf
  have hstore := hu v uploadId f.name shelf
  rw [he] at hstore
  simp only [substitute, h]
  exact run_bind_error hstore

/-- An upload of which nothing is refused is an upload to the shelf. -/
theorem upload_run_of_accepted (hu : u.StoresUnless error?) {fields : List Field}
    {values : Dict Json} (h : ∀ f ∈ fields, Accepts error? values f) (uploadId : String)
    (shelf : Shelf) :
    (u.upload fields values uploadId).run.run shelf
      = (Shelf.uploader.upload fields values uploadId).run.run shelf := by
  suffices hfold : ∀ output,
      (fields.foldlM (u.substitute values uploadId) output).run.run shelf
        = (fields.foldlM (Shelf.uploader.substitute values uploadId) output).run.run shelf from
    hfold values
  induction fields generalizing shelf with
  | nil => exact fun output => rfl
  | cons f rest ih =>
      intro output
      have hshelf := substitute_run values uploadId output f shelf
      have hsame := substitute_run_of_accepts hu (h f List.mem_cons_self) uploadId output shelf
      rw [List.foldlM_cons, List.foldlM_cons, run_bind_ok hshelf, run_bind_ok (hsame.trans hshelf)]
      exact ih (fun g hg => h g (List.mem_cons_of_mem f hg)) _ _

/-- An upload ends at the first attachment that is refused. Those before it have been stored. -/
theorem upload_run_of_refused (hu : u.StoresUnless error?) {before after : List Field} {f : Field}
    {values : Dict Json} {e : AttachmentError} (hbefore : ∀ g ∈ before, Accepts error? values g)
    (hf : (attachment? values f).isSome = true) (he : error? f.name = some e) (uploadId : String)
    (shelf : Shelf) :
    (u.upload (before ++ f :: after) values uploadId).run.run shelf
      = (.error e, shelf.place (attachments before values uploadId)) := by
  have hstored := upload_run_of_accepted hu hbefore uploadId shelf
  rw [upload_run, upload] at hstored
  rw [upload, List.foldlM_append, run_bind_ok hstored, List.foldlM_cons]
  exact run_bind_error (substitute_run_of_refused hu hf he uploadId _ _)

/-- Either nothing is refused, or there is a first field for which something is. -/
theorem accepted_or_refused (error? : String → Option AttachmentError) (values : Dict Json)
    (fields : List Field) :
    (∀ f ∈ fields, Accepts error? values f)
      ∨ ∃ before f after e, fields = before ++ f :: after
        ∧ (∀ g ∈ before, Accepts error? values g)
        ∧ (attachment? values f).isSome = true ∧ error? f.name = some e := by
  induction fields with
  | nil => exact Or.inl fun f hf => absurd hf List.not_mem_nil
  | cons f rest ih =>
      by_cases hf : Accepts error? values f
      · rcases ih with hall | ⟨before, g, after, e, rfl, hbefore, hg, he⟩
        · exact Or.inl (List.forall_mem_cons.mpr ⟨hf, hall⟩)
        · have haccepted := List.forall_mem_cons.mpr ⟨hf, hbefore⟩
          exact Or.inr ⟨f :: before, g, after, e, rfl, haccepted, hg, he⟩
      · obtain ⟨hattached, hsome⟩ := Classical.not_imp.mp hf
        obtain ⟨e, he⟩ := Option.ne_none_iff_exists'.mp hsome
        exact Or.inr ⟨[], f, rest, e, rfl, fun g hg => absurd hg List.not_mem_nil, hattached, he⟩

/-- Whatever an upload has left on the shelf, one that is not refused goes on from there as
from the first shelf. -/
theorem upload_run_again (hu : u.StoresUnless error?) (fields : List Field) (values : Dict Json)
    (uploadId : String) (shelf : Shelf) :
    (Shelf.uploader.upload fields values uploadId).run.run
        ((u.upload fields values uploadId).run.run shelf).2
      = (Shelf.uploader.upload fields values uploadId).run.run shelf := by
  rcases accepted_or_refused error? values fields with
    hall | ⟨before, f, after, e, rfl, hbefore, hf, he⟩
  · have hagain := shelf.place_place_append (attachments fields values uploadId) []
    rw [List.append_nil] at hagain
    rw [upload_run_of_accepted hu hall, upload_run, upload_run, hagain]
  · have hattachments : attachments (before ++ f :: after) values uploadId
        = attachments before values uploadId ++ attachments (f :: after) values uploadId :=
      List.filterMap_append
    rw [upload_run_of_refused hu hbefore hf he, upload_run, upload_run, hattachments,
      Shelf.place_place_append]

/-- An upload fails exactly if the attachment of some field is refused. It then ends with the
error of the first such field, and the shelf has the attachments of the fields before that one
and nothing else that is new. If none is refused it is an upload to the shelf. In either case it
can be run again: without refusals, that gives the output and the shelf of one upload without
refusals from the first shelf. -/
theorem failed_upload_can_be_retried (u : Uploader Shelf)
    (error? : String → Option AttachmentError) (hu : u.StoresUnless error?) (fields : List Field)
    (values : Dict Json) (uploadId : String) (shelf : Shelf) :
    ((∃ e shelf', (u.upload fields values uploadId).run.run shelf = (.error e, shelf'))
        ↔ ∃ f ∈ fields, (attachment? values f).isSome = true ∧ ∃ e, error? f.name = some e)
      ∧ (∀ before f after e, fields = before ++ f :: after →
          (∀ g ∈ before, (attachment? values g).isSome = true → error? g.name = none) →
          (attachment? values f).isSome = true → error? f.name = some e →
          (u.upload fields values uploadId).run.run shelf
            = (.error e, shelf.place (attachments before values uploadId)))
      ∧ ((∀ f ∈ fields, (attachment? values f).isSome = true → error? f.name = none) →
          (u.upload fields values uploadId).run.run shelf
            = (Shelf.uploader.upload fields values uploadId).run.run shelf)
      ∧ ∀ result shelf', (u.upload fields values uploadId).run.run shelf = (result, shelf') →
          (Shelf.uploader.upload fields values uploadId).run.run shelf'
            = (Shelf.uploader.upload fields values uploadId).run.run shelf := by
  refine ⟨⟨?_, ?_⟩, ?_, fun h => upload_run_of_accepted hu h uploadId shelf, ?_⟩
  · rintro ⟨e, shelf', hfailed⟩
    rcases accepted_or_refused error? values fields with
      hall | ⟨before, f, after, e', rfl, -, hf, he⟩
    · rw [upload_run_of_accepted hu hall, upload_run] at hfailed
      cases hfailed
    · exact ⟨f, by simp, hf, e', he⟩
  · rintro ⟨f, hmem, hf, e, he⟩
    rcases accepted_or_refused error? values fields with
      hall | ⟨before, g, after, e', rfl, hbefore, hg, he'⟩
    · cases (hall f hmem hf).symm.trans he
    · exact ⟨e', _, upload_run_of_refused hu hbefore hg he' uploadId shelf⟩
  · rintro before f after e rfl hbefore hf he
    exact upload_run_of_refused hu hbefore hf he uploadId shelf
  · intro result shelf' hrun
    have hagain := upload_run_again hu fields values uploadId shelf
    rwa [hrun] at hagain

/-- The scan is refused, so the photo is stored and the note is not, although it would have been
accepted. -/
theorem failed_upload_can_be_retried_scan :
    ∃ shelf',
      ((Shelf.uploader.refusing ["scan"] "bucket unavailable").upload
          [{ name := "photo", type := some .attachmentV2 },
            { name := "scan", type := some .attachmentBlob },
            { name := "note", type := some .largeTextAttachment }]
          (Dict.ofList [("note", .string "n"), ("photo", .string "p"), ("scan", .string "s")])
          "u").run.run Dict.empty
        = (.error ⟨"scan", "bucket unavailable"⟩, shelf')
      ∧ shelf' = Dict.ofList [("u-photo", .string "p")]
      ∧ ((Shelf.uploader.upload
          [{ name := "photo", type := some .attachmentV2 },
            { name := "scan", type := some .attachmentBlob },
            { name := "note", type := some .largeTextAttachment }]
          (Dict.ofList [("note", .string "n"), ("photo", .string "p"), ("scan", .string "s")])
          "u").run.run shelf').2
        = Dict.ofList [("u-note", .string "n"), ("u-photo", .string "p"), ("u-scan", .string "s")]
      := by
  obtain ⟨-, hprefix, -, hagain⟩ := failed_upload_can_be_retried
    (Shelf.uploader.refusing ["scan"] "bucket unavailable") _
    (storesUnless_refusing ["scan"] "bucket unavailable")
    [{ name := "photo", type := some .attachmentV2 },
      { name := "scan", type := some .attachmentBlob },
      { name := "note", type := some .largeTextAttachment }]
    (Dict.ofList [("note", .string "n"), ("photo", .string "p"), ("scan", .string "s")])
    "u" Dict.empty
  have hfailed := hprefix [{ name := "photo", type := some .attachmentV2 }] _ _
    ⟨"scan", "bucket unavailable"⟩ rfl (by simp) rfl rfl
  refine ⟨_, hfailed, rfl, ?_⟩
  rw [hagain _ _ hfailed]
  rfl

end Uploader

end Intake
