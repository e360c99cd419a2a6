/-!
# Dictionaries in key order

Records, value maps and attachment stores are finite maps from text to
values, listed in the order of their keys by code point. The order is part of
the type, so two dictionaries with the same look-ups are equal (`ext_get?`)
and a fold over the entries visits the keys in ascending order.
-/

namespace Intake

universe u v

/-- A finite map from text, its entries in ascending order of their keys. -/
structure Dict (α : Type u) where
  entries : List (String × α)
  ascending : entries.Pairwise fun a b => a.1 < b.1

namespace Dict

variable {α : Type u} {β : Type v}

/-! ## Entries -/

/-- Puts `v` at `k` in an ascending list of entries, in place of any value
that is there. -/
def insertEntry (k : String) (v : α) : List (String × α) → List (String × α)
  | [] => [(k, v)]
  | (k', v') :: rest =>
    if k < k' then (k, v) :: (k', v') :: rest
    else if k = k' then (k, v) :: rest
    else (k', v') :: insertEntry k v rest

theorem mem_insertEntry {k : String} {v : α} {e : String × α} :
    ∀ {l : List (String × α)}, e ∈ insertEntry k v l → e = (k, v) ∨ e ∈ l
  | [], h => by simpa [insertEntry] using h
  | (k', v') :: rest, h => by
      simp only [insertEntry] at h
      split at h
      · simpa using h
      · split at h
        · rcases List.mem_cons.mp h with h | h
          · exact Or.inl h
          · exact Or.inr (List.mem_cons_of_mem _ h)
        · rcases List.mem_cons.mp h with h | h
          · exact Or.inr (h ▸ List.mem_cons_self)
          · rcases mem_insertEntry h with h | h
            · exact Or.inl h
            · exact Or.inr (List.mem_cons_of_mem _ h)

theorem lt_of_not_lt_of_ne {a b : String} (h : ¬a < b) (hne : a ≠ b) : b < a := by
  rcases String.le_total b a with hle | hle
  · by_cases hlt : b < a
    · exact hlt
    · exact absurd (String.le_antisymm hlt hle) hne
  · exact absurd (String.le_antisymm hle h) hne

theorem ascending_insertEntry (k : String) (v : α) :
    ∀ {l : List (String × α)}, l.Pairwise (fun a b => a.1 < b.1) →
      (insertEntry k v l).Pairwise fun a b => a.1 < b.1
  | [], _ => by simp [insertEntry]
  | (k', v') :: rest, h => by
      obtain ⟨hhead, hrest⟩ := List.pairwise_cons.mp h
      simp only [insertEntry]
      split
      · next hlt =>
          refine List.pairwise_cons.mpr ⟨fun e he => ?_, h⟩
          rcases List.mem_cons.mp he with rfl | he
          · exact hlt
          · exact String.lt_trans hlt (hhead e he)
      · next hlt =>
          split
          · next heq =>
              subst heq
              exact List.pairwise_cons.mpr ⟨hhead, hrest⟩
          · next hne =>
              refine List.pairwise_cons.mpr ⟨fun e he => ?_, ascending_insertEntry k v hrest⟩
              rcases mem_insertEntry he with rfl | he
              · exact lt_of_not_lt_of_ne hlt hne
              · exact hhead e he

/-! ## Operations -/

def empty : Dict α := ⟨[], List.Pairwise.nil⟩

instance : Inhabited (Dict α) := ⟨empty⟩

/-- The dictionary with `v` at `k`, whatever was there before. -/
def insert (d : Dict α) (k : String) (v : α) : Dict α :=
  ⟨insertEntry k v d.entries, ascending_insertEntry k v d.ascending⟩

def get? (d : Dict α) (k : String) : Option α := d.entries.lookup k

def keys (d : Dict α) : List String := d.entries.map Prod.fst

def size (d : Dict α) : Nat := d.entries.length

/-- The dictionary of a list of entries; of two with one key the later counts. -/
def ofList (l : List (String × α)) : Dict α :=
  l.foldl (fun d e => d.insert e.1 e.2) empty

/-- The entries under new keys, visited in the order of the old ones; of two
that take one new key the later counts. -/
def mapKeys (f : String → String) (d : Dict α) : Dict α :=
  ofList (d.entries.map fun e => (f e.1, e.2))

/-! ## Look-ups -/

@[simp] theorem get?_empty (k : String) : (empty : Dict α).get? k = none := rfl

theorem lookup_insertEntry (k k' : String) (v : α) :
    ∀ {l : List (String × α)}, l.Pairwise (fun a b => a.1 < b.1) →
      (insertEntry k v l).lookup k' = if k' = k then some v else l.lookup k'
  | [], _ => by
      by_cases h : k' = k
      · simp [insertEntry, h]
      · simp [insertEntry, List.lookup_cons, h, beq_false_of_ne h]
  | (j, w) :: rest, hl => by
      obtain ⟨_, hrest⟩ := List.pairwise_cons.mp hl
      simp only [insertEntry]
      split
      · by_cases h : k' = k
        · simp [h]
        · simp [List.lookup_cons, h, beq_false_of_ne h]
      · split
        · next heq =>
            subst heq
            by_cases h : k' = k
            · simp [h]
            · simp [List.lookup_cons, h, beq_false_of_ne h]
        · next hne =>
            by_cases h : k' = j
            · subst h
              simp [Ne.symm hne]
            · rw [List.lookup_cons, List.lookup_cons, beq_false_of_ne h]
              exact lookup_insertEntry k k' v hrest

theorem get?_insert (d : Dict α) (k k' : String) (v : α) :
    (d.insert k v).get? k' = if k' = k then some v else d.get? k' :=
  lookup_insertEntry k k' v d.ascending

@[simp] theorem get?_insert_self (d : Dict α) (k : String) (v : α) :
    (d.insert k v).get? k = some v := by
  simp [get?_insert]

theorem get?_insert_of_ne (d : Dict α) {k k' : String} (v : α) (h : k' ≠ k) :
    (d.insert k v).get? k' = d.get? k' := by
  simp [get?_insert, h]

/-! ## Equality -/

theorem lookup_eq_none_of_lt {k : String} {l : List (String × α)} (h : ∀ e ∈ l, k < e.1) :
    l.lookup k = none :=
  List.lookup_eq_none_iff.mpr fun e he => by
    simpa using fun heq : k = e.1 => String.lt_irrefl e.1 (heq ▸ h e he)

/-- Ascending lists of entries with the same look-ups are equal. -/
theorem entries_ext : ∀ {l m : List (String × α)},
    l.Pairwise (fun a b => a.1 < b.1) → m.Pairwise (fun a b => a.1 < b.1) →
      (∀ k, l.lookup k = m.lookup k) → l = m
  | [], [], _, _, _ => rfl
  | [], (k, v) :: _, _, _, h => by simpa using h k
  | (k, v) :: _, [], _, _, h => by simpa using h k
  | (k, v) :: l, (k', v') :: m, hl, hm, h => by
      obtain ⟨hk, hltail⟩ := List.pairwise_cons.mp hl
      obtain ⟨hk', hmtail⟩ := List.pairwise_cons.mp hm
      have hkey : k = k' := by
        by_cases hne : k = k'
        · exact hne
        · rcases Decidable.em (k < k') with hlt | hlt
          · have hnone := lookup_eq_none_of_lt fun e he => String.lt_trans hlt (hk' e he)
            simpa [List.lookup_cons, beq_false_of_ne hne, hnone] using h k
          · have hgt := lt_of_not_lt_of_ne hlt hne
            have hnone := lookup_eq_none_of_lt fun e he => String.lt_trans hgt (hk e he)
            simpa [List.lookup_cons, beq_false_of_ne (Ne.symm hne), hnone] using h k'
      subst hkey
      have hval : v = v' := by simpa using h k
      subst hval
      have hrest : l = m := entries_ext hltail hmtail fun j => by
        by_cases hj : j = k
        · subst hj
          rw [lookup_eq_none_of_lt hk, lookup_eq_none_of_lt hk']
        · simpa [List.lookup_cons, beq_false_of_ne hj] using h j
      rw [hrest]

/-- Dictionaries with the same look-ups are equal. -/
theorem ext_get? {d e : Dict α} (h : ∀ k, d.get? k = e.get? k) : d = e := by
  obtain ⟨l, hl⟩ := d
  obtain ⟨m, hm⟩ := e
  obtain rfl := entries_ext hl hm h
  rfl

/-! ## Lists of entries -/

theorem get?_foldl_insert (k : String) (l : List (String × α)) (d : Dict α) :
    (l.foldl (fun d e => d.insert e.1 e.2) d).get? k = (l.reverse.lookup k).or (d.get? k) := by
  induction l generalizing d with
  | nil => simp
  | cons e rest ih =>
      rw [List.foldl_cons, ih, get?_insert, List.reverse_cons, List.lookup_append,
        Option.or_assoc, List.lookup_cons]
      by_cases h : k = e.1
      · simp [h]
      · simp [h, beq_false_of_ne h]

/-- The last entry of a key is the one that counts. -/
theorem get?_ofList (l : List (String × α)) (k : String) :
    (ofList l).get? k = l.reverse.lookup k := by
  rw [ofList, get?_foldl_insert, get?_empty, Option.or_none]

theorem mem_of_get?_ofList {l : List (String × α)} {k : String} {v : α}
    (h : (ofList l).get? k = some v) : (k, v) ∈ l := by
  rw [get?_ofList] at h
  obtain ⟨before, after, hl, -⟩ := List.lookup_eq_some_iff.mp h
  exact List.mem_reverse.mp (hl ▸ List.mem_append_right before List.mem_cons_self)

theorem lookup_reverse (k : String) {l : List (String × α)}
    (h : l.Pairwise fun a b => a.1 < b.1) : l.reverse.lookup k = l.lookup k := by
  induction l with
  | nil => rfl
  | cons e rest ih =>
      obtain ⟨j, w⟩ := e
      obtain ⟨hhead, hrest⟩ := List.pairwise_cons.mp h
      rw [List.reverse_cons, List.lookup_append, ih hrest]
      by_cases hk : k = j
      · subst hk
        simp [lookup_eq_none_of_lt hhead]
      · simp [List.lookup_cons, beq_false_of_ne hk]

theorem ofList_entries (d : Dict α) : ofList d.entries = d :=
  ext_get? fun k => (get?_ofList d.entries k).trans (lookup_reverse k d.ascending)

theorem get?_of_mem {d : Dict α} {k : String} {v : α} (h : (k, v) ∈ d.entries) :
    ∃ v', d.get? k = some v' := by
  cases hget : d.get? k with
  | some v' => exact ⟨v', rfl⟩
  | none =>
      have hne := List.lookup_eq_none_iff.mp hget (k, v) h
      simp at hne

/-- Keys that all stay as they are leave the dictionary as it is. -/
theorem mapKeys_eq_self {f : String → String} {d : Dict α}
    (h : ∀ k v, d.get? k = some v → f k = k) : d.mapKeys f = d := by
  have hentries : d.entries.map (fun e => (f e.1, e.2)) = d.entries := by
    refine (List.map_congr_left fun e he => ?_).trans (List.map_id d.entries)
    obtain ⟨v, hv⟩ := get?_of_mem (d := d) (k := e.1) (v := e.2) he
    rw [h e.1 v hv]
    rfl
  rw [mapKeys, hentries, ofList_entries]

end Dict

end Intake
