import Intake.Dict

/-!
# More on dictionaries

A dictionary has each of its entries as a look-up (`mem_entries_iff`), and its keys stay as
they are when a value is put in the place of another one (`keys_insert`) or when each value is
replaced by one that depends on it and on its key (`mapEntries`).
-/

namespace Intake

namespace Dict

variable {α β : Type}

theorem lookup_of_mem {l : List (String × α)} (h : (l.map Prod.fst).Nodup) {e : String × α}
    (he : e ∈ l) : l.lookup e.1 = some e.2 := by
  obtain ⟨before, after, rfl⟩ := List.append_of_mem he
  rw [List.map_append, List.map_cons, List.nodup_append] at h
  obtain ⟨-, -, hdisjoint⟩ := h
  refine List.lookup_eq_some_iff.mpr ⟨before, after, rfl, fun other hother => ?_⟩
  have hne := hdisjoint other.1 (List.mem_map_of_mem hother) e.1 List.mem_cons_self
  simpa using hne.symm

theorem lookup_map_values (f : String → α → β) (l : List (String × α)) (k : String) :
    (l.map fun e => (e.1, f e.1 e.2)).lookup k = (l.lookup k).map (f k) := by
  induction l with
  | nil => rfl
  | cons e rest ih =>
      rw [List.map_cons, List.lookup_cons, List.lookup_cons]
      by_cases hk : k = e.1
      · simp [hk]
      · simp [beq_false_of_ne hk, ih]

theorem mem_entries_iff {d : Dict α} {k : String} {v : α} :
    (k, v) ∈ d.entries ↔ d.get? k = some v := by
  have hne : ∀ {a b : String × α}, a.1 < b.1 → a.1 ≠ b.1 := by
    intro a b hlt heq
    exact String.lt_irrefl b.1 (heq ▸ hlt)
  have hnodup : (d.entries.map Prod.fst).Nodup := List.pairwise_map.mpr (d.ascending.imp hne)
  constructor
  · exact lookup_of_mem hnodup
  · intro h
    obtain ⟨before, after, hl, -⟩ := List.lookup_eq_some_iff.mp h
    exact hl ▸ List.mem_append_right before List.mem_cons_self

theorem keys_insertEntry {k : String} {v w : α} {l : List (String × α)}
    (hl : l.Pairwise fun a b => a.1 < b.1) (h : l.lookup k = some w) :
    (insertEntry k v l).map Prod.fst = l.map Prod.fst := by
  induction l with
  | nil => cases h
  | cons e rest ih =>
      obtain ⟨hhead, hrest⟩ := List.pairwise_cons.mp hl
      simp only [insertEntry]
      split
      · next hlt =>
          -- All keys of the list are greater, so the key is not among them.
          have hnone : (e :: rest).lookup k = none := lookup_eq_none_of_lt fun other hother => by
            rcases List.mem_cons.mp hother with rfl | hother
            · exact hlt
            · exact String.lt_trans hlt (hhead other hother)
          cases hnone.symm.trans h
      · split
        · next heq => rw [List.map_cons, List.map_cons, heq]
        · next hne =>
            rw [List.lookup_cons, beq_false_of_ne hne] at h
            rw [List.map_cons, List.map_cons, ih hrest h]

/-- A value put in the place of another one leaves the keys as they are. -/
theorem keys_insert {d : Dict α} {k : String} {w : α} (h : d.get? k = some w) (v : α) :
    (d.insert k v).keys = d.keys :=
  keys_insertEntry d.ascending h

/-- The dictionary with other values under the same keys. -/
def mapEntries (f : String → α → β) (d : Dict α) : Dict β :=
  ⟨d.entries.map fun e => (e.1, f e.1 e.2), d.ascending.map _ fun _ _ h => h⟩

theorem get?_mapEntries (f : String → α → β) (d : Dict α) (k : String) :
    (d.mapEntries f).get? k = (d.get? k).map (f k) :=
  lookup_map_values f d.entries k

end Dict

end Intake
