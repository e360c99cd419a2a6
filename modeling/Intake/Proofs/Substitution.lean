import Intake.Proofs.Attachments
import Intake.Proofs.Dictionaries
import Intake.Proofs.Records

/-!
# Attachments can be put back

An upload takes the attachments out of a record and leaves a reference to each. Nothing is
lost by that: the record keeps its keys, a key of an attachment field with a value holds the
reference, and the reference resolves to the value. So whoever has the shelf and the schema
can put the values back (`Shelf.restore`).

A name may be declared more than once, as an attachment and as something else. What counts is
that one field of the name is an attachment (`Uploader.namesAttachment`); its value is then
uploaded once for each such field, under one reference.
-/

namespace Intake

/-! ## Which values are replaced -/

namespace Uploader

/-- A field of the name is an attachment. -/
def namesAttachment (fields : List Field) (name : String) : Bool :=
  fields.any fun f => f.name == name && f.type.any FieldType.isAttachment

theorem attachment?_eq_some_iff {values : Dict Json} {f : Field} {v : Json} :
    attachment? values f = some v
      ↔ f.type.any FieldType.isAttachment = true ∧ values.get? f.name = some v ∧ v ≠ .null := by
  unfold attachment?
  split
  · next h => rw [Field.filter_isNull_eq_some_iff, h, eq_self, true_and]
  · next h => simp [h]

theorem mem_attachments {fields : List Field} {values : Dict Json} {uploadId : String}
    {a : Attachment} :
    a ∈ attachments fields values uploadId
      ↔ a.uploadId = uploadId ∧ namesAttachment fields a.field = true
        ∧ values.get? a.field = some a.value ∧ a.value ≠ .null := by
  simp only [attachments, List.mem_filterMap, Option.map_eq_some_iff, attachment?_eq_some_iff,
    namesAttachment, List.any_eq_true, Bool.and_eq_true, beq_iff_eq]
  constructor
  · rintro ⟨f, hf, v, ⟨htype, hget, hv⟩, rfl⟩
    exact ⟨rfl, ⟨f, hf, rfl, htype⟩, hget, hv⟩
  · rintro ⟨rfl, ⟨f, hf, hname, htype⟩, hget, hv⟩
    refine ⟨f, hf, a.value, ⟨htype, hname ▸ hget, hv⟩, ?_⟩
    rw [hname]

end Uploader

/-! ## What an upload leaves -/

theorem attachmentReference_right_inj {uploadId field field' : String} :
    attachmentReference uploadId field = attachmentReference uploadId field' ↔ field = field' := by
  simp [attachmentReference]

namespace Uploader

variable {fields : List Field} {values : Dict Json} {uploadId k : String} {v : Json}

/-- A key holds the reference to its attachment, if it has one. -/
theorem get?_withReferences_attachment (hname : namesAttachment fields k = true)
    (hget : values.get? k = some v) (hv : v ≠ .null) :
    (withReferences values (attachments fields values uploadId)).get? k
      = some (.string (attachmentReference uploadId k)) := by
  obtain ⟨f, hf, hfield⟩ := List.any_eq_true.mp hname
  rw [Bool.and_eq_true, beq_iff_eq] at hfield
  obtain ⟨rfl, htype⟩ := hfield
  exact get?_withReferences hf (attachment?_eq_some_iff.mpr ⟨htype, hget, hv⟩) uploadId

theorem get?_withReferences_other
    (h : namesAttachment fields k = false ∨ values.get? k = none ∨ values.get? k = some .null) :
    (withReferences values (attachments fields values uploadId)).get? k = values.get? k := by
  refine Attachment.get?_foldl_insert_of_not_mem Attachment.field ?_ values
  rintro b hb rfl
  obtain ⟨-, hname, hget, hv⟩ := mem_attachments.mp hb
  rcases h with h | h | h
  · cases h.symm.trans hname
  · cases h.symm.trans hget
  · exact hv (Option.some.inj (hget.symm.trans h))

theorem keys_withReferences {stored : List Attachment}
    (h : ∀ a ∈ stored, ∃ w, values.get? a.field = some w) :
    (withReferences values stored).keys = values.keys := by
  induction stored generalizing values with
  | nil => rfl
  | cons a rest ih =>
      obtain ⟨w, hw⟩ := h a List.mem_cons_self
      rw [withReferences, List.foldl_cons]
      refine (ih fun b hb => ?_).trans (Dict.keys_insert hw _)
      rw [Dict.get?_insert]
      split
      · exact ⟨_, rfl⟩
      · exact h b (List.mem_cons_of_mem a hb)

end Uploader

namespace Shelf

variable {fields : List Field} {values : Dict Json} {uploadId k : String} {v : Json}

theorem get?_place_attachment (hname : Uploader.namesAttachment fields k = true)
    (hget : values.get? k = some v) (hv : v ≠ .null) (shelf : Shelf) :
    (shelf.place (Uploader.attachments fields values uploadId)).get?
      (attachmentReference uploadId k) = some v := by
  have hmem : ⟨uploadId, k, v⟩ ∈ Uploader.attachments fields values uploadId :=
    Uploader.mem_attachments.mpr ⟨rfl, hname, hget, hv⟩
  refine Attachment.get?_foldl_insert_of_mem Attachment.reference hmem ?_ shelf
  intro b hb href
  obtain ⟨hid, -, hb, -⟩ := Uploader.mem_attachments.mp hb
  -- Both references are of one upload, so they are of one field, which has one value.
  rw [Attachment.reference, Attachment.reference, hid, attachmentReference_right_inj] at href
  rw [href, hget] at hb
  exact (Option.some.inj hb).symm

theorem get?_place_other {reference : String}
    (h : ∀ k v, Uploader.namesAttachment fields k = true → values.get? k = some v → v ≠ .null →
      attachmentReference uploadId k ≠ reference) (shelf : Shelf) :
    (shelf.place (Uploader.attachments fields values uploadId)).get? reference
      = shelf.get? reference := by
  refine Attachment.get?_foldl_insert_of_not_mem Attachment.reference ?_ shelf
  intro b hb
  obtain ⟨hid, hname, hget, hv⟩ := Uploader.mem_attachments.mp hb
  rw [Attachment.reference, hid]
  exact h b.field b.value hname hget hv

/-! ## Putting the values back -/

/-- What a reference resolves to. Whatever is not a reference to something on the shelf is
itself. -/
def resolve (shelf : Shelf) : Json → Json
  | .string reference => (shelf.get? reference).getD (.string reference)
  | v => v

/-- A record with the attachments in the place of their references. -/
def restore (shelf : Shelf) (fields : List Field) (output : Dict Json) : Dict Json :=
  output.mapEntries fun k v => if Uploader.namesAttachment fields k then shelf.resolve v else v

theorem restore_withReferences (fields : List Field) (values : Dict Json) (uploadId : String)
    (shelf : Shelf) :
    (shelf.place (Uploader.attachments fields values uploadId)).restore fields
        (Uploader.withReferences values (Uploader.attachments fields values uploadId))
      = values := by
  apply Dict.ext_get?
  intro k
  rw [restore, Dict.get?_mapEntries]
  cases hname : Uploader.namesAttachment fields k with
  | false =>
      rw [Uploader.get?_withReferences_other (Or.inl hname)]
      simp
  | true =>
      cases hget : values.get? k with
      | none => rw [Uploader.get?_withReferences_other (Or.inr (Or.inl hget)), hget, Option.map_none]
      | some v =>
          by_cases hv : v = .null
          · subst hv
            rw [Uploader.get?_withReferences_other (Or.inr (Or.inr hget)), hget]
            rfl
          · rw [Uploader.get?_withReferences_attachment hname hget hv, Option.map_some, if_pos rfl,
              resolve, get?_place_attachment hname hget hv, Option.getD_some]

end Shelf

namespace Uploader

/-- An upload to a shelf succeeds and keeps the keys of the record. A key of an attachment field
with a value holds the reference, which resolves to the value; nothing else changes, neither in
the record nor on the shelf, and the record can be restored. -/
theorem substitution_is_lossless (fields : List Field) (values : Dict Json) (uploadId : String)
    (shelf : Shelf) :
    ∃ output shelf',
      (Shelf.uploader.upload fields values uploadId).run.run shelf = (.ok output, shelf')
        ∧ output.keys = values.keys
        ∧ (∀ k v, namesAttachment fields k = true → values.get? k = some v → v ≠ .null →
            output.get? k = some (.string (attachmentReference uploadId k))
              ∧ shelf'.get? (attachmentReference uploadId k) = some v)
        ∧ (∀ k, namesAttachment fields k = false ∨ values.get? k = none
              ∨ values.get? k = some .null →
            output.get? k = values.get? k)
        ∧ shelf'.restore fields output = values
        ∧ ∀ reference,
            (∀ k v, namesAttachment fields k = true → values.get? k = some v → v ≠ .null →
              attachmentReference uploadId k ≠ reference) →
            shelf'.get? reference = shelf.get? reference := by
  refine ⟨_, _, upload_run fields values uploadId shelf, keys_withReferences ?_, ?_, ?_,
    Shelf.restore_withReferences fields values uploadId shelf, ?_⟩
  · intro a ha
    obtain ⟨-, -, hget, -⟩ := mem_attachments.mp ha
    exact ⟨a.value, hget⟩
  · intro k v hname hget hv
    exact ⟨get?_withReferences_attachment hname hget hv,
      Shelf.get?_place_attachment hname hget hv shelf⟩
  · intro k h
    exact get?_withReferences_other h
  · intro reference h
    exact Shelf.get?_place_other h shelf

/-- The name is declared twice, and the attachment is a text that reads like its own reference. -/
theorem substitution_of_reference_text :
    namesAttachment [{ name := "scan", type := some .string },
          { name := "scan", type := some .attachmentBlob }] "scan" = true
      ∧ (Dict.ofList [("note", Json.null), ("scan", .string "u-scan")]).get? "scan"
          = some (Json.string "u-scan")
      ∧ ∃ output shelf',
          (Shelf.uploader.upload [{ name := "scan", type := some .string },
              { name := "scan", type := some .attachmentBlob }]
              (Dict.ofList [("note", .null), ("scan", .string "u-scan")]) "u").run.run
              (Dict.ofList [("u-note", .bool true), ("u-scan", .bool false)])
            = (.ok output, shelf')
          ∧ output.get? "scan" = some (.string (attachmentReference "u" "scan"))
          ∧ shelf'.get? (attachmentReference "u" "scan") = some (.string "u-scan")
          ∧ output.get? "note" = some .null
          ∧ shelf'.get? "u-note" = some (.bool true) := by
  obtain ⟨output, shelf', hrun, -, hattached, hother, -, hshelf⟩ := substitution_is_lossless
    [{ name := "scan", type := some .string }, { name := "scan", type := some .attachmentBlob }]
    (Dict.ofList [("note", .null), ("scan", .string "u-scan")]) "u"
    (Dict.ofList [("u-note", .bool true), ("u-scan", .bool false)])
  have hname : namesAttachment [{ name := "scan", type := some .string },
      { name := "scan", type := some .attachmentBlob }] "scan" = true := rfl
  have hget : (Dict.ofList [("note", Json.null), ("scan", .string "u-scan")]).get? "scan"
      = some (.string "u-scan") := rfl
  obtain ⟨houtput, hstored⟩ := hattached "scan" _ hname hget (by simp)
  refine ⟨hname, hget, output, shelf', hrun, houtput, hstored, hother "note" (Or.inl rfl), ?_⟩
  refine (hshelf "u-note" ?_).trans rfl
  intro k v hk _ _ href
  have hne : attachmentReference "u" k = attachmentReference "u" "note" := href
  rw [attachmentReference_right_inj.mp hne] at hk
  cases hk

end Uploader

end Intake
