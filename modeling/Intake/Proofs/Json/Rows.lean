import Mathlib.Data.List.Nodup
import Intake.Json.Row
import Intake.Proofs.Dictionaries

/-!
# Structures are read back

A structure is written as an object with a member for every key that has a value (`Json.ofRow`).
What `Written.row?` finds there for the keys is what was written for them, so whether the
structure is read back is a matter of its fields, one by one: each must be recovered by the
function that reads it (`Written.Recovers`), and so is then a field that may be absent.
-/

namespace Intake

namespace Json

/-- The members for a row of keys, some of which have no value. -/
def filled (row : List (String × Option Json)) : List (String × Json) :=
  row.flatMap fun c => member? c.1 id c.2

theorem member?_map {α : Type} (key : String) (write : α → Json) (a : Option α) :
    member? key id (a.map write) = member? key write a := by
  cases a <;> rfl

/-- The object of the values that there are for the keys. -/
def ofRow (keys : List String) (values : List (Option Json)) : Json :=
  object (filled (keys.zip values))

variable {row : List (String × Option Json)}

theorem mem_filled {m : String × Json} : m ∈ filled row ↔ (m.1, some m.2) ∈ row := by
  simp only [filled, List.mem_flatMap]
  constructor
  · rintro ⟨⟨key, v⟩, hc, hm⟩
    cases v with
    | none => cases hm
    | some v =>
        obtain rfl := List.mem_singleton.mp hm
        exact hc
  · intro h
    exact ⟨(m.1, some m.2), h, List.mem_singleton_self m⟩

theorem keys_filled_sublist (row : List (String × Option Json)) :
    ((filled row).map Prod.fst).Sublist (row.map Prod.fst) := by
  induction row with
  | nil => exact List.Sublist.refl _
  | cons c rest ih =>
      obtain ⟨key, v⟩ := c
      cases v with
      | none => exact ih.cons key
      | some v => exact ih.cons_cons key

theorem lookup_filled (h : (row.map Prod.fst).Nodup) {c : String × Option Json} (hc : c ∈ row) :
    (filled row).lookup c.1 = c.2 := by
  cases hv : c.2 with
  | some v =>
      have hm : (c.1, v) ∈ filled row := mem_filled.mpr (by rwa [← hv])
      exact Dict.lookup_of_mem (h.sublist (keys_filled_sublist row)) hm
  | none =>
      refine List.lookup_eq_none_iff.mpr fun m hm => ?_
      have hne : c.1 ≠ m.1 := by
        intro hkey
        have hcell := List.inj_on_of_nodup_map h hc (mem_filled.mp hm) hkey
        rw [hcell] at hv
        cases hv
      simpa using hne

end Json

namespace Written

open Json (filled ofRow)

/-! ## Rows -/

/-- The members of an object as it is written, under the texts of their keys. -/
theorem named?_writtenMembers (members : List (String × Json)) :
    named? (Json.writtenMembers members) = some (members.map fun m => (m.1, m.2.written)) := by
  induction members with
  | nil => rfl
  | cons m rest ih =>
      unfold named? at ih
      simp [named?, Json.writtenMembers, ih]

variable {row : List (String × Option Json)}

theorem length_filter_filled_le (h : (row.map Prod.fst).Nodup) (key : String) :
    (((filled row).map fun m => (m.1, m.2.written)).filter fun m => m.1 == key).length ≤ 1 := by
  have hcount := List.nodup_iff_count_le_one.mp (h.sublist (Json.keys_filled_sublist row)) key
  rw [List.count_eq_length_filter, List.filter_map, List.length_map] at hcount
  rw [List.filter_map, List.length_map]
  exact hcount

theorem map_lookup_filled (h : (row.map Prod.fst).Nodup) :
    (row.map Prod.fst).map (fun key => ((filled row).map fun m => (m.1, m.2.written)).lookup key)
      = (row.map Prod.snd).map (Option.map Json.written) := by
  rw [List.map_map, List.map_map]
  refine List.map_congr_left fun c hc => ?_
  rw [Function.comp_apply, Dict.lookup_map_values fun _ => Json.written, Json.lookup_filled h hc]
  rfl

/-- Distinct keys find their values, whatever the structure needs as an array. -/
theorem row?_ofRow {keys : List String} (values : List (Option Json)) (hkeys : keys.Nodup)
    (hlength : keys.length = values.length) (least : Nat) :
    row? keys least (ofRow keys values).written = some (values.map (Option.map Json.written)) := by
  have hfst : (keys.zip values).map Prod.fst = keys :=
    List.map_fst_zip (Nat.le_of_eq hlength)
  have hsnd : (keys.zip values).map Prod.snd = values :=
    List.map_snd_zip (Nat.le_of_eq hlength.symm)
  have hnodup : ((keys.zip values).map Prod.fst).Nodup := hfst.symm ▸ hkeys
  have hsingle : keys.all fun key =>
      (((filled (keys.zip values)).map fun m => (m.1, m.2.written)).filter
        fun m => m.1 == key).length ≤ 1 :=
    List.all_eq_true.mpr fun key _ => decide_eq_true (length_filter_filled_le hnodup key)
  have hvalues := map_lookup_filled hnodup
  rw [hfst, hsnd] at hvalues
  rw [ofRow, Json.written, row?, named?_writtenMembers, Option.bind_eq_bind, Option.bind_some,
    if_pos hsingle, hvalues]

/-! ## Fields -/

/-- What is written for a value is read back, and `null` is not read. -/
structure Recovers {α : Type} (item? : Written → Option α) (write : α → Json) : Prop where
  refuses_null : item? null = none
  reads : ∀ a, item? (write a).written = some a

variable {α : Type} {item? : Written → Option α} {write : α → Json}

theorem Recovers.optional (h : Recovers item? write) (a : Option α) :
    optional item? ((a.map write).map Json.written) = some a := by
  cases a with
  | none => rfl
  | some a =>
      have hreads := h.reads a
      show Written.optional item? (some (write a).written) = some (some a)
      cases hv : (write a).written with
      | null =>
          rw [hv, h.refuses_null] at hreads
          cases hreads
      | _ =>
          rw [hv] at hreads
          simp [Written.optional, hreads]

theorem Recovers.text : Recovers text? .string := by
  refine ⟨rfl, fun s => ?_⟩
  rw [Json.written, text?, Piece.text?_ofText]

theorem Recovers.bool : Recovers bool? .bool := ⟨rfl, fun _ => rfl⟩

theorem Recovers.count : Recovers count? Json.ofCount := by
  refine ⟨rfl, fun n => ?_⟩
  have hnatural : (Numeral.ofInt n.val).natural? = some n.val := by
    simp [Numeral.natural?, Numeral.isIntegral, Numeral.ofInt]
  rw [Json.ofCount, Json.written, count?, hnatural]
  exact dif_pos n.le_max

theorem Recovers.list (h : Recovers item? write) :
    Recovers (list? item?) fun as => .array (as.map write) := by
  refine ⟨rfl, fun as => ?_⟩
  show (Json.writtenItems (as.map write)).mapM item? = some as
  induction as with
  | nil => rfl
  | cons a rest ih => simp [Json.writtenItems, h.reads, ih]

theorem Recovers.texts : Recovers (list? text?) Json.ofTexts := Recovers.text.list

end Written

end Intake
