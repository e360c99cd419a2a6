import Intake.Proofs.Json.Parsing

/-!
# Values are read back

The text of a value determines the value (`Json.text_inj`). Reading the text gives the value back
exactly if it is in normal form, its nesting is not too deep, and none of its objects begins with
the key that is set aside for numbers (`Json.value?_text_iff`): such an object is taken for the
long form of a number, if it is read at all.
-/

namespace Intake

namespace Json

mutual

/-- No object lists the key that is set aside for numbers first. -/
def KeepsObjects : Json → Prop
  | array items => ItemsKeepObjects items
  | object members =>
    members.head?.map Prod.fst ≠ some Written.numberKey ∧ MembersKeepObjects members
  | _ => True

def ItemsKeepObjects : List Json → Prop
  | [] => True
  | v :: rest => v.KeepsObjects ∧ ItemsKeepObjects rest

def MembersKeepObjects : List (String × Json) → Prop
  | [] => True
  | (_, v) :: rest => v.KeepsObjects ∧ MembersKeepObjects rest

end

/-! ## Different values are written differently -/

theorem ofText_inj {s t : String} (h : Piece.ofText s = Piece.ofText t) : s = t := by
  have htext := congrArg Piece.text? h
  rw [Piece.text?_ofText, Piece.text?_ofText] at htext
  exact Option.some.inj htext

mutual

theorem written_inj : ∀ {v w : Json}, v.written = w.written → v = w := by
  intro v w h
  cases v with
  | null => cases w with
    | null => rfl
    | _ => cases h
  | bool b => cases w with
    | bool c => rw [Written.bool.inj h]
    | _ => cases h
  | number n => cases w with
    | number m => rw [Written.number.inj h]
    | _ => cases h
  | string s => cases w with
    | string t => rw [ofText_inj (Written.string.inj h)]
    | _ => cases h
  | array vs => cases w with
    | array ws => rw [writtenItems_inj (Written.array.inj h)]
    | _ => cases h
  | object ms => cases w with
    | object ns => rw [writtenMembers_inj (Written.object.inj h)]
    | _ => cases h

theorem writtenItems_inj : ∀ {vs ws : List Json}, writtenItems vs = writtenItems ws → vs = ws := by
  intro vs ws h
  cases vs with
  | nil => cases ws with
    | nil => rfl
    | cons w ws => cases h
  | cons v vs => cases ws with
    | nil => cases h
    | cons w ws =>
      obtain ⟨hv, hvs⟩ := List.cons.inj h
      rw [written_inj hv, writtenItems_inj hvs]

theorem writtenMembers_inj : ∀ {ms ns : List (String × Json)},
    writtenMembers ms = writtenMembers ns → ms = ns := by
  intro ms ns h
  cases ms with
  | nil => cases ns with
    | nil => rfl
    | cons n ns => cases h
  | cons m ms => cases ns with
    | nil => cases h
    | cons n ns =>
      obtain ⟨k, v⟩ := m
      obtain ⟨l, w⟩ := n
      obtain ⟨hm, hms⟩ := List.cons.inj h
      obtain ⟨hk, hv⟩ := Prod.mk.inj hm
      rw [ofText_inj hk, written_inj hv, writtenMembers_inj hms]

end

end Json

namespace Written

open Json (written writtenItems writtenMembers)

/-! ## Items and members -/

theorem itemValues?_cons_iff {room : Nat} {w : Written} {ws : List Written} {v : Json}
    {vs : List Json} :
    itemValues? room (w :: ws) = some (v :: vs)
      ↔ value? room w = some v ∧ itemValues? room ws = some vs := by
  rw [itemValues?]
  cases value? room w <;> cases itemValues? room ws <;> simp

theorem memberValues?_cons {room : Nat} (k : String) (w : Written)
    (ws : List (List Piece × Written)) :
    memberValues? room ((Piece.ofText k, w) :: ws)
      = (value? room w).bind fun v => (memberValues? room ws).map ((k, v) :: ·) := by
  rw [memberValues?, Piece.text?_ofText]
  cases value? room w <;> cases memberValues? room ws <;> rfl

theorem memberValues?_cons_iff {room : Nat} {k : String} {w : Written}
    {ws : List (List Piece × Written)} {v : Json} {vs : List (String × Json)} :
    memberValues? room ((Piece.ofText k, w) :: ws) = some ((k, v) :: vs)
      ↔ value? room w = some v ∧ memberValues? room ws = some vs := by
  rw [memberValues?_cons]
  cases value? room w <;> cases memberValues? room ws <;> simp

theorem keys_of_memberValues? {room : Nat} {members ms : List (String × Json)}
    (h : memberValues? room (writtenMembers members) = some ms) :
    ms.map Prod.fst = members.map Prod.fst := by
  induction members generalizing ms with
  | nil =>
      obtain rfl := Option.some.inj h
      rfl
  | cons m rest ih =>
      rw [writtenMembers, memberValues?_cons] at h
      obtain ⟨v, -, h⟩ := Option.bind_eq_some_iff.mp h
      obtain ⟨vs, hvs, rfl⟩ := Option.map_eq_some_iff.mp h
      rw [List.map_cons, List.map_cons, ih hvs]

theorem isLongNumber_writtenMembers (members : List (String × Json)) :
    isLongNumber (writtenMembers members) = true
      ↔ members.head?.map Prod.fst = some numberKey := by
  cases members with
  | nil => simp [writtenMembers, isLongNumber]
  | cons m rest => simp [writtenMembers, isLongNumber]

/-- A list of entries is that of its dictionary exactly if it is in the order of its keys. -/
theorem entries_ofList_eq_iff {ms members : List (String × Json)}
    (hkeys : ms.map Prod.fst = members.map Prod.fst) :
    (Dict.ofList ms).entries = members
      ↔ ms = members ∧ members.Pairwise fun a b => a.1 < b.1 := by
  have hself : ∀ {l : List (String × Json)}, l.Pairwise (fun a b => a.1 < b.1) →
      (Dict.ofList l).entries = l := fun h => congrArg Dict.entries (Dict.ofList_entries ⟨_, h⟩)
  constructor
  · intro h
    have hmembers : members.Pairwise fun a b => a.1 < b.1 := h ▸ (Dict.ofList ms).ascending
    have hms : ms.Pairwise fun a b => a.1 < b.1 := by
      rw [← List.pairwise_map] at hmembers ⊢
      rwa [hkeys]
    exact ⟨(hself hms).symm.trans h, hmembers⟩
  · rintro ⟨rfl, hmembers⟩
    exact hself hmembers

theorem map_object_eq_some_iff {room : Nat} {members : List (String × Json)} :
    (memberValues? room (writtenMembers members)).map
        (fun ms => Json.object (Dict.ofList ms).entries) = some (.object members)
      ↔ memberValues? room (writtenMembers members) = some members
        ∧ members.Pairwise fun a b => a.1 < b.1 := by
  constructor
  · intro h
    obtain ⟨ms, hms, hobject⟩ := Option.map_eq_some_iff.mp h
    have hkeys := keys_of_memberValues? hms
    obtain ⟨rfl, hmembers⟩ := (entries_ofList_eq_iff hkeys).mp (Json.object.inj hobject)
    exact ⟨hms, hmembers⟩
  · rintro ⟨hms, hmembers⟩
    rw [hms, Option.map_some, (entries_ofList_eq_iff rfl).mpr ⟨rfl, hmembers⟩]

/-! ## Values -/

mutual

/-- The written form of a value denotes the value exactly if it is in normal form, has room for its
nesting, and takes none of its objects for a number. -/
theorem value?_written_iff (room : Nat) : ∀ v : Json,
    value? room v.written = some v ↔ v.WellFormed ∧ v.depth ≤ room ∧ v.KeepsObjects
  | .null | .bool _ | .number _ | .string _ => by
      simp [written, value?, Json.WellFormed, Json.depth, Json.KeepsObjects]
  | .array items => by
      cases room with
      | zero => simp [written, value?, Json.depth]
      | succ room =>
          have hitems := itemValues?_written_iff room items
          rw [written, value?, Json.WellFormed, Json.depth, Json.KeepsObjects,
            Nat.add_le_add_iff_right, ← hitems]
          simp
  | .object members => by
      cases room with
      | zero => simp [written, value?, Json.depth]
      | succ room =>
          have hmembers := memberValues?_written_iff room members
          rw [written, value?, Json.WellFormed, Json.depth, Json.KeepsObjects,
            Nat.add_le_add_iff_right, ne_eq, ← isLongNumber_writtenMembers]
          by_cases hlong : isLongNumber (writtenMembers members) = true
          · simp [hlong]
          · rw [if_neg hlong, map_object_eq_some_iff, hmembers]
            tauto

theorem itemValues?_written_iff (room : Nat) : ∀ items : List Json,
    itemValues? room (writtenItems items) = some items
      ↔ Json.ItemsWellFormed items ∧ Json.itemsDepth items ≤ room ∧ Json.ItemsKeepObjects items
  | [] => by
      simp [writtenItems, itemValues?, Json.ItemsWellFormed, Json.itemsDepth,
        Json.ItemsKeepObjects]
  | v :: rest => by
      have hv := value?_written_iff room v
      have hrest := itemValues?_written_iff room rest
      rw [writtenItems, itemValues?_cons_iff, hv, hrest, Json.ItemsWellFormed, Json.itemsDepth,
        Json.ItemsKeepObjects, Nat.max_le]
      tauto

theorem memberValues?_written_iff (room : Nat) : ∀ members : List (String × Json),
    memberValues? room (writtenMembers members) = some members
      ↔ Json.MembersWellFormed members ∧ Json.membersDepth members ≤ room
        ∧ Json.MembersKeepObjects members
  | [] => by
      simp [writtenMembers, memberValues?, Json.MembersWellFormed, Json.membersDepth,
        Json.MembersKeepObjects]
  | (k, v) :: rest => by
      have hv := value?_written_iff room v
      have hrest := memberValues?_written_iff room rest
      rw [writtenMembers, memberValues?_cons_iff, hv, hrest, Json.MembersWellFormed,
        Json.membersDepth, Json.MembersKeepObjects, Nat.max_le]
      tauto

end

end Written

namespace Json

/-- A value is read back from its text exactly if it is in normal form, is nested at most 127 deep,
and has no object that begins with the key that is set aside for numbers. -/
theorem value?_text_iff (v : Json) :
    value? v.text = some v ↔ v.WellFormed ∧ v.depth ≤ 127 ∧ v.KeepsObjects := by
  rw [value?, Written.read?_text, Option.bind_some, Written.value?_written_iff, maxDepth]

theorem text_inj {v w : Json} (h : v.text = w.text) : v = w := by
  have hread := congrArg Written.read? h
  rw [Written.read?_text, Written.read?_text] at hread
  exact written_inj (Option.some.inj hread)

end Json

end Intake
