import Mathlib.Data.List.Forall2
import Intake.Proofs.Dictionaries
import Intake.Proofs.Records

/-!
# Each field has an outcome of its own

What becomes of a field depends on the field and on one value of the record, the value under
the greatest of the keys that sanitize to its name (`Record.raw?`). `Field.FailsWith` and
`Field.Yields` say which fields fail and which have a value.

From there the whole result is determined. The errors are one for each field that fails, in
the order of the schema, and a name has the value of the last of its fields that yields one.
Neither the other fields nor the other keys of the record play a part.
-/

namespace Intake

/-! ## The outcome of a field -/

namespace Field

/-- Why a field fails for the value that the record has for it. -/
inductive FailsWith (f : Field) (raw : Option Json) : FieldFault → Prop where
  | missing (hrequired : f.required = true) (hraw : raw = none ∨ raw = some .null) :
      FailsWith f raw .missing
  | untyped {v : Json} (hraw : raw = some v) (hv : v ≠ .null) (htype : f.type = none) :
      FailsWith f raw .untyped
  | rejected {v : Json} {t : FieldType} {r : Rejection} (hraw : raw = some v) (hv : v ≠ .null)
      (htype : f.type = some t) (hcanonical : t.canonical v = .error r) :
      FailsWith f raw (.rejected r)

/-- The value that the record has for a field is not `null`, and `w` is its canonical form. -/
def Yields (f : Field) (raw : Option Json) (w : Json) : Prop :=
  ∃ v t, raw = some v ∧ v ≠ .null ∧ f.type = some t ∧ t.canonical v = .ok w

theorem outcome_eq_failed_iff {f : Field} {raw : Option Json} {fault : FieldFault} :
    f.outcome raw = .failed fault ↔ f.FailsWith raw fault := by
  constructor
  · intro h
    unfold outcome at h
    split at h
    · next hraw =>
        split at h
        · next hrequired =>
            obtain rfl := Outcome.failed.inj h
            exact .missing hrequired (filter_isNull_eq_none_iff.mp hraw)
        · cases h
    · next v hraw =>
        obtain ⟨hraw, hv⟩ := filter_isNull_eq_some_iff.mp hraw
        split at h
        · next htype =>
            obtain rfl := Outcome.failed.inj h
            exact .untyped hraw hv htype
        · next t htype =>
            split at h
            · cases h
            · next r hr =>
                obtain rfl := Outcome.failed.inj h
                exact .rejected hraw hv htype hr
  · intro h
    cases h with
    | missing hrequired hraw => rw [outcome_blank f hraw, if_pos hrequired]
    | untyped hraw hv htype =>
        rw [outcome, filter_isNull_eq_some_iff.mpr ⟨hraw, hv⟩, htype]
    | rejected hraw hv htype hr =>
        rw [outcome, filter_isNull_eq_some_iff.mpr ⟨hraw, hv⟩, htype]
        simp only [hr]

theorem outcome_eq_value_iff {f : Field} {raw : Option Json} {w : Json} :
    f.outcome raw = .value w ↔ f.Yields raw w := by
  constructor
  · intro h
    obtain ⟨t, v, htype, rfl, hcanonical⟩ := outcome_eq_value h
    refine ⟨v, t, rfl, ?_, htype, hcanonical⟩
    rintro rfl
    rw [outcome_blank f (Or.inr rfl)] at h
    split at h <;> cases h
  · rintro ⟨v, t, rfl, hv, htype, hcanonical⟩
    exact outcome_some htype hv hcanonical

theorem fault?_outcome_isSome_iff {f : Field} {raw : Option Json} :
    (f.outcome raw).fault?.isSome = true ↔ ∃ fault, f.FailsWith raw fault := by
  simp only [← outcome_eq_failed_iff]
  cases f.outcome raw <;> simp [Outcome.fault?]

instance (f : Field) (raw : Option Json) : Decidable (∃ fault, f.FailsWith raw fault) :=
  decidable_of_iff _ fault?_outcome_isSome_iff

end Field

namespace Record

/-! ## The value that counts -/

/-- The value under the greatest of the keys that sanitize to a name. -/
def raw? (record : Dict Json) (name : String) : Option Json :=
  (record.entries.reverse.find? fun e => Name.sanitizeKey e.1 == name).map Prod.snd

theorem get?_sanitizeKeys (record : Dict Json) (name : String) :
    (sanitizeKeys record).get? name = raw? record name := by
  rw [sanitizeKeys, Dict.mapKeys, Dict.get?_ofList, ← List.map_reverse, raw?]
  induction record.entries.reverse with
  | nil => rfl
  | cons e rest ih =>
      rw [List.map_cons, List.lookup_cons, List.find?_cons, Bool.beq_comm]
      cases Name.sanitizeKey e.1 == name with
      | true => rfl
      | false => exact ih

theorem outcome_eq (record : Dict Json) (f : Field) :
    outcome (sanitizeKeys record) f = f.outcome (raw? record f.name) := by
  rw [outcome, get?_sanitizeKeys]

/-- The entry that is found has the greatest of the keys that sanitize to the name. -/
theorem le_of_find? {record : Dict Json} {name : String} {e other : String × Json}
    (h : (record.entries.reverse.find? fun e => Name.sanitizeKey e.1 == name) = some e)
    (hother : other ∈ record.entries) (hname : Name.sanitizeKey other.1 = name) :
    other.1 ≤ e.1 := by
  obtain ⟨-, after, before, hreverse, hafter⟩ := List.find?_eq_some_iff_append.mp h
  have hentries : record.entries = before.reverse ++ e :: after.reverse := by
    rw [← List.reverse_reverse record.entries, hreverse]
    simp
  have hascending := record.ascending
  rw [hentries] at hother hascending
  rcases List.mem_append.mp hother with hbefore | hother
  · have hlt := (List.pairwise_append.mp hascending).2.2 _ hbefore _ List.mem_cons_self
    exact String.not_lt.mp (String.lt_asymm hlt)
  · rcases List.mem_cons.mp hother with rfl | hmem
    · exact String.le_refl _
    · have hne := hafter other (List.mem_reverse.mp hmem)
      simp [hname] at hne

theorem raw?_eq_some_iff {record : Dict Json} {name : String} {v : Json} :
    raw? record name = some v
      ↔ ∃ key, record.get? key = some v ∧ Name.sanitizeKey key = name
        ∧ ∀ other w, record.get? other = some w → Name.sanitizeKey other = name →
            other ≤ key := by
  simp only [← Dict.mem_entries_iff]
  rw [raw?, Option.map_eq_some_iff]
  constructor
  · rintro ⟨⟨key, v'⟩, hfind, rfl⟩
    refine ⟨key, List.mem_reverse.mp (List.mem_of_find?_eq_some hfind), ?_, ?_⟩
    · simpa using List.find?_some hfind
    · intro other w hother hname
      exact le_of_find? hfind hother hname
  · rintro ⟨key, hkey, hname, hgreatest⟩
    cases hfind : record.entries.reverse.find? fun e => Name.sanitizeKey e.1 == name with
    | none =>
        have hne := List.find?_eq_none.mp hfind (key, v) (List.mem_reverse.mpr hkey)
        simp [hname] at hne
    | some e =>
        -- Each of the two keys is the greatest, so they are one, and it has one value.
        have he := List.mem_reverse.mp (List.mem_of_find?_eq_some hfind)
        have hle := hgreatest e.1 e.2 he (by simpa using List.find?_some hfind)
        have heq := String.le_antisymm hle (le_of_find? hfind hkey hname)
        refine ⟨e, rfl, Option.some.inj ?_⟩
        rw [← Dict.mem_entries_iff.mp he, ← Dict.mem_entries_iff.mp hkey, heq]

/-- Only the values under keys that sanitize to the name count. -/
theorem raw?_congr {record record' : Dict Json} {name : String}
    (h : ∀ key, Name.sanitizeKey key = name → record.get? key = record'.get? key) :
    raw? record name = raw? record' name := by
  apply Option.ext
  intro v
  simp only [raw?_eq_some_iff]
  refine exists_congr fun key => ?_
  constructor
  · rintro ⟨hget, hname, hgreatest⟩
    refine ⟨h key hname ▸ hget, hname, fun other w hother hkey => ?_⟩
    exact hgreatest other w ((h other hkey).trans hother) hkey
  · rintro ⟨hget, hname, hgreatest⟩
    refine ⟨(h key hname).trans hget, hname, fun other w hother hkey => ?_⟩
    exact hgreatest other w (h other hkey ▸ hother) hkey

/-! ## The result -/

theorem errors_forall₂ (fields : List Field) (record : Dict Json) :
    List.Forall₂ (fun f e => e.field = f.name ∧ f.FailsWith (raw? record f.name) e.fault)
      (fields.filter fun f => decide (∃ fault, f.FailsWith (raw? record f.name) fault))
      (errors fields record) := by
  induction fields with
  | nil => exact .nil
  | cons f rest ih =>
      rw [errors, List.filterMap_cons, outcome_eq]
      cases houtcome : f.outcome (raw? record f.name) with
      | failed fault =>
          have hfails := Field.outcome_eq_failed_iff.mp houtcome
          rw [List.filter_cons_of_pos (by simpa using ⟨fault, hfails⟩)]
          exact .cons ⟨rfl, hfails⟩ ih
      | absent | value w =>
          rw [List.filter_cons_of_neg]
          · exact ih
          · simp [← Field.outcome_eq_failed_iff, houtcome]

theorem value?_eq_some_iff {record : Dict Json} {f : Field} {k : String} {w : Json} :
    (if f.name = k then (outcome (sanitizeKeys record) f).value? else none) = some w
      ↔ f.name = k ∧ f.Yields (raw? record k) w := by
  rw [Option.ite_none_right_eq_some, outcome_eq]
  refine and_congr_right ?_
  rintro rfl
  rw [← Field.outcome_eq_value_iff]
  cases f.outcome (raw? record f.name) <;> simp [Outcome.value?]

/-- A name has the value of the last of its fields that yields one. -/
theorem get?_values_eq_some_iff {fields : List Field} {record : Dict Json} {k : String} {w : Json} :
    (values fields record).get? k = some w
      ↔ ∃ before f after, fields = before ++ f :: after ∧ f.name = k
        ∧ f.Yields (raw? record k) w
        ∧ ∀ g ∈ after, g.name = k → ∀ w', ¬g.Yields (raw? record k) w' := by
  rw [get?_values_eq, List.findSome?_eq_some_iff]
  simp only [value?_eq_some_iff, Option.eq_none_iff_forall_ne_some, ne_eq, not_and]
  constructor
  · rintro ⟨after, f, before, hreverse, ⟨hname, hyields⟩, hafter⟩
    refine ⟨before.reverse, f, after.reverse, ?_, hname, hyields, ?_⟩
    · rw [← List.reverse_reverse fields, hreverse]
      simp
    · intro g hg hgname w'
      exact hafter g (List.mem_reverse.mp hg) w' hgname
  · rintro ⟨before, f, after, rfl, hname, hyields, hafter⟩
    refine ⟨after.reverse, f, before.reverse, by simp, ⟨hname, hyields⟩, ?_⟩
    intro g hg w' hgname
    exact hafter g (List.mem_reverse.mp hg) hgname w'

/-- Where no name is declared twice, any field of a name decides its value. -/
theorem get?_values_iff {fields : List Field} (hnodup : (fields.map Field.name).Nodup)
    {record : Dict Json} {k : String} {w : Json} :
    (values fields record).get? k = some w
      ↔ ∃ f ∈ fields, f.name = k ∧ outcome (sanitizeKeys record) f = .value w := by
  constructor
  · exact exists_of_get?_values
  · rintro ⟨f, hf, rfl, h⟩
    exact get?_values hnodup hf h

theorem values_perm {fields fields' : List Field} (hperm : fields'.Perm fields)
    (hnodup : (fields.map Field.name).Nodup) (record : Dict Json) :
    values fields' record = values fields record := by
  have hnodup' : (fields'.map Field.name).Nodup := (hperm.map Field.name).nodup_iff.mpr hnodup
  apply Dict.ext_get?
  intro k
  apply Option.ext
  intro w
  rw [get?_values_iff hnodup, get?_values_iff hnodup']
  exact exists_congr fun f => and_congr_left fun _ => hperm.mem_iff

/-- Where no name is declared twice, a field that has a value does not fail. -/
theorem not_error_of_value {fields : List Field} (hnodup : (fields.map Field.name).Nodup)
    {record : Dict Json} {k : String} {w : Json} (h : (values fields record).get? k = some w)
    {e : FieldError} (he : e ∈ errors fields record) : e.field ≠ k := by
  rintro rfl
  obtain ⟨f, hf, hname, hvalue⟩ := exists_of_get?_values h
  obtain ⟨g, hg, hname', hfailed⟩ := mem_errors he
  obtain rfl := List.inj_on_of_nodup_map hnodup hf hg (hname.trans hname')
  cases hvalue.symm.trans hfailed

/-! ## Locality -/

theorem get?_values_filter (fields : List Field) (record : Dict Json) (k : String) :
    (values fields record).get? k
      = ((fields.filter fun f => f.name == k).reverse.findSome? fun f =>
          (f.outcome (raw? record k)).value?) := by
  rw [get?_values_eq, ← List.filter_reverse]
  induction fields.reverse with
  | nil => rfl
  | cons f rest ih =>
      rw [List.findSome?_cons, ih]
      by_cases hname : f.name = k
      · rw [if_pos hname, List.filter_cons_of_pos (by simpa using hname), List.findSome?_cons,
          outcome_eq, hname]
      · rw [if_neg hname, List.filter_cons_of_neg (by simpa using hname)]

theorem errors_filter (fields : List Field) (record : Dict Json) (k : String) :
    (errors fields record).filter (fun e => e.field == k)
      = (fields.filter fun f => f.name == k).filterMap fun f =>
          (f.outcome (raw? record k)).fault?.map fun fault => ⟨k, fault⟩ := by
  rw [errors, List.filter_filterMap, List.filterMap_filter]
  congr 1
  funext f
  rw [outcome_eq]
  by_cases hname : f.name = k
  · rw [hname]
    cases (f.outcome (raw? record k)).fault? <;> simp [Option.filter]
  · cases (f.outcome (raw? record f.name)).fault? <;> simp [Option.filter, hname]

/-- What a result says about a name depends on the fields of that name and on the entries of
the record whose keys sanitize to it. -/
theorem result_congr {fields fields' : List Field} {record record' : Dict Json} {k : String}
    (hfields : (fields.filter fun f => f.name == k) = fields'.filter fun f => f.name == k)
    (hrecord : ∀ key, Name.sanitizeKey key = k → record.get? key = record'.get? key) :
    (values fields record).get? k = (values fields' record').get? k
      ∧ (errors fields record).filter (fun e => e.field == k)
          = (errors fields' record').filter (fun e => e.field == k) := by
  constructor
  · rw [get?_values_filter, get?_values_filter, hfields, raw?_congr hrecord]
  · rw [errors_filter, errors_filter, hfields, raw?_congr hrecord]

/-- A record has one value for each name, that under the greatest of the keys that sanitize to
it, and a field has its outcome from that value alone. The errors are one for each field that
fails, in order, and a name has the value of the last of its fields that yields one. Where no
name is declared twice, no field has both, and the order of the fields does not matter to the
values. What the result says about a name depends on nothing but the fields of that name and
the entries that sanitize to it. -/
theorem outcomes_are_independent (fields : List Field) (record : Dict Json) :
    (∀ name v, raw? record name = some v
        ↔ ∃ key, record.get? key = some v ∧ Name.sanitizeKey key = name
          ∧ ∀ other w, record.get? other = some w → Name.sanitizeKey other = name →
              other ≤ key)
      ∧ List.Forall₂ (fun f e => e.field = f.name ∧ f.FailsWith (raw? record f.name) e.fault)
          (fields.filter fun f => decide (∃ fault, f.FailsWith (raw? record f.name) fault))
          (errors fields record)
      ∧ (∀ k w, (values fields record).get? k = some w
          ↔ ∃ before f after, fields = before ++ f :: after ∧ f.name = k
            ∧ f.Yields (raw? record k) w
            ∧ ∀ g ∈ after, g.name = k → ∀ w', ¬g.Yields (raw? record k) w')
      ∧ ((fields.map Field.name).Nodup →
          ∀ k w, (values fields record).get? k = some w → ∀ e ∈ errors fields record, e.field ≠ k)
      ∧ (∀ fields' : List Field, fields'.Perm fields →
          (errors fields' record).Perm (errors fields record)
            ∧ ((fields.map Field.name).Nodup → values fields' record = values fields record))
      ∧ ∀ (fields' : List Field) (record' : Dict Json) (k : String),
          (fields.filter fun f => f.name == k) = (fields'.filter fun f => f.name == k) →
          (∀ key, Name.sanitizeKey key = k → record.get? key = record'.get? key) →
          (values fields record).get? k = (values fields' record').get? k
            ∧ (errors fields record).filter (fun e => e.field == k)
                = (errors fields' record').filter (fun e => e.field == k) := by
  refine ⟨fun name v => raw?_eq_some_iff, errors_forall₂ fields record,
    fun k w => get?_values_eq_some_iff, ?_, ?_, ?_⟩
  · intro hnodup k w h e he
    exact not_error_of_value hnodup h he
  · intro fields' hperm
    exact ⟨hperm.filterMap _, fun hnodup => values_perm hperm hnodup record⟩
  · intro fields' record' k hfields hrecord
    exact result_congr hfields hrecord

/-- Two keys collide, and the greater one holds `null`; the other field is not touched by that. -/
theorem outcomes_of_colliding_keys :
    raw? (Dict.ofList [("a!b", .bool true), ("a?b", .null), ("c", .bool true)]) "a_b" = some .null
      ∧ ["a_b", "c"].Nodup
      ∧ (values [{ name := "a_b", type := some .boolean }, { name := "c", type := some .boolean }]
          (Dict.ofList [("a!b", .bool true), ("a?b", .null), ("c", .bool true)])).get? "c"
          = some (.bool true)
      ∧ (∀ e ∈ errors
            [{ name := "a_b", type := some .boolean }, { name := "c", type := some .boolean }]
            (Dict.ofList [("a!b", .bool true), ("a?b", .null), ("c", .bool true)]), e.field ≠ "c")
      ∧ (values [{ name := "a_b", type := some .boolean }, { name := "c", type := some .boolean }]
          (Dict.ofList [("a!b", .bool true), ("a?b", .null), ("c", .bool true)])).get? "c"
          = (values [{ name := "c", type := some .boolean }]
              ((Dict.ofList [("a!b", .bool true), ("a?b", .null), ("c", .bool true)]).insert
                "c?" .null)).get? "c" := by
  obtain ⟨-, -, -, hdisjoint, -, hlocal⟩ := outcomes_are_independent
    [{ name := "a_b", type := some .boolean }, { name := "c", type := some .boolean }]
    (Dict.ofList [("a!b", .bool true), ("a?b", .null), ("c", .bool true)])
  have hnodup : ["a_b", "c"].Nodup := by decide
  refine ⟨rfl, hnodup, rfl, hdisjoint hnodup "c" _ rfl, ?_⟩
  refine (hlocal [{ name := "c", type := some .boolean }] (Dict.insert _ "c?" .null) "c" rfl ?_).1
  intro key hkey
  refine (Dict.get?_insert_of_ne _ _ ?_).symm
  rintro rfl
  exact absurd hkey (by decide)

end Record

end Intake
