import Intake.Json.Reader
import Intake.Proofs.Json.Lexing

/-!
# Written forms are read back

The reader takes the tokens of a written form from wherever a value is due to where that value
has ended, whatever is open around it (`Written.Reader.foldlM_tokens`). As the tokens of a
written form are separated, its text is cut into them, so `Written.read?` inverts
`Json.text`.
-/

namespace Intake

/-! ## Rows of tokens -/

namespace Token

/-- A separated row that may follow any other one: it does not begin with a word. -/
def MayFollow (tokens : List Token) : Prop :=
  Separated tokens ∧ ∀ t ∈ tokens.head?, t.isWord = false

theorem mayFollow_cons {t : Token} {rest : List Token} (ht : t.isWord = false)
    (h : Separated rest) : MayFollow (t :: rest) := by
  refine ⟨List.isChain_cons.mpr ⟨fun u _ hword => ?_, h⟩, fun u hu => ?_⟩
  · cases hword.symm.trans ht
  · obtain rfl := Option.some.inj hu
    exact ht

theorem Separated.append {tokens rest : List Token} (h : Separated tokens)
    (hrest : MayFollow rest) : Separated (tokens ++ rest) :=
  List.isChain_append.mpr ⟨h, hrest.1, fun _ _ u hu _ => hrest.2 u hu⟩

/-- The rows after the first one in brackets, each after a comma, and the closing bracket. -/
theorem mayFollow_rest {rows : List (List Token)} (h : ∀ row ∈ rows, Separated row) {close : Token}
    (hclose : close.isWord = false) : MayFollow (rows.flatMap (.comma :: ·) ++ [close]) := by
  induction rows with
  | nil => exact mayFollow_cons hclose List.isChain_nil
  | cons row rows ih =>
      obtain ⟨hrow, hrows⟩ := List.forall_mem_cons.mp h
      rw [List.flatMap_cons, List.cons_append, List.cons_append, List.append_assoc]
      exact mayFollow_cons rfl (hrow.append (ih hrows))

theorem separated_bracketed {opening close : Token} (hopening : opening.isWord = false)
    (hclose : close.isWord = false) {row : List Token} {rows : List (List Token)}
    (h : ∀ r ∈ row :: rows, Separated r) :
    Separated (opening :: (row ++ rows.flatMap (.comma :: ·)) ++ [close]) := by
  obtain ⟨hrow, hrows⟩ := List.forall_mem_cons.mp h
  rw [List.cons_append, List.append_assoc]
  exact (mayFollow_cons hopening (hrow.append (mayFollow_rest hrows hclose))).1

end Token

namespace Written

/-! ## Tokens of a written form -/

/-- What passes from the items or members of a written form to the form holds of every one. -/
@[elab_as_elim]
theorem induction {motive : Written → Prop} (null : motive .null)
    (bool : ∀ b, motive (.bool b)) (number : ∀ n, motive (.number n))
    (string : ∀ pieces, motive (.string pieces))
    (array : ∀ items, (∀ v ∈ items, motive v) → motive (.array items))
    (object : ∀ members, (∀ m ∈ members, motive m.2) → motive (.object members)) :
    ∀ v, motive v
  | .null => null
  | .bool b => bool b
  | .number n => number n
  | .string pieces => string pieces
  | .array items => array items fun v _ => induction null bool number string array object v
  | .object members =>
      object members fun m _ => induction null bool number string array object m.2
termination_by v => sizeOf v
decreasing_by
  all_goals
    have := List.sizeOf_lt_of_mem ‹_ ∈ _›
    grind

def pairTokens (m : List Piece × Written) : List Token := .string m.1 :: .colon :: m.2.tokens

theorem itemTokens_cons (v : Written) (rest : List Written) :
    itemTokens (v :: rest) = v.tokens ++ (rest.map tokens).flatMap (.comma :: ·) := by
  induction rest generalizing v with
  | nil => simp [itemTokens]
  | cons w rest ih => simp [itemTokens, ih]

theorem memberTokens_cons (m : List Piece × Written) (rest : List (List Piece × Written)) :
    memberTokens (m :: rest) = pairTokens m ++ (rest.map pairTokens).flatMap (.comma :: ·) := by
  induction rest generalizing m with
  | nil => simp [memberTokens, pairTokens]
  | cons n rest ih => simp [memberTokens, pairTokens, ih]

theorem separated_tokens (v : Written) : Token.Separated v.tokens := by
  induction v using induction with
  | null | bool _ | number _ | string _ => exact List.isChain_singleton _
  | array items ih =>
      cases items with
      | nil => exact (Token.mayFollow_cons rfl (List.isChain_singleton _)).1
      | cons v rest =>
          rw [tokens, itemTokens_cons]
          refine Token.separated_bracketed rfl rfl fun row hrow => ?_
          obtain ⟨w, hw, rfl⟩ : ∃ w ∈ v :: rest, w.tokens = row := List.mem_map.mp hrow
          exact ih w hw
  | object members ih =>
      cases members with
      | nil => exact (Token.mayFollow_cons rfl (List.isChain_singleton _)).1
      | cons m rest =>
          rw [tokens, memberTokens_cons]
          refine Token.separated_bracketed rfl rfl fun row hrow => ?_
          obtain ⟨n, hn, rfl⟩ : ∃ n ∈ m :: rest, pairTokens n = row := List.mem_map.mp hrow
          exact (Token.mayFollow_cons rfl (Token.mayFollow_cons rfl (ih n hn)).1).1

/-! ## Reading tokens -/

namespace Reader

/-- The reader takes the tokens of `v` from where a value is due to where it has ended. -/
def ReadsBack (v : Written) : Prop :=
  ∀ frames, v.tokens.foldlM step ⟨frames, .value⟩ = some ⟨frames, .after v⟩

theorem foldlM_first (v : Written) (frames : List Frame) :
    v.tokens.foldlM step ⟨.array [] :: frames, .first⟩
      = v.tokens.foldlM step ⟨.array [] :: frames, .value⟩ := by
  cases v <;> rfl

theorem foldlM_rest_items {rest : List Written} (h : ∀ w ∈ rest, ReadsBack w)
    (frames : List Frame) (done : List Written) (v : Written) :
    ((rest.map tokens).flatMap (Token.comma :: ·) ++ [Token.closeArray]).foldlM step
        ⟨.array done :: frames, .after v⟩
      = some ⟨frames, .after (.array (done.reverse ++ v :: rest))⟩ := by
  induction rest generalizing done v with
  | nil => simp [step]
  | cons w rest ih =>
      obtain ⟨hw, hrest⟩ := List.forall_mem_cons.mp h
      have hcomma : step ⟨.array done :: frames, .after v⟩ .comma
          = some ⟨.array (v :: done) :: frames, .value⟩ := rfl
      rw [List.map_cons, List.flatMap_cons, List.cons_append, List.cons_append, List.append_assoc,
        foldlM_cons_of hcomma, foldlM_append_of (hw _), ih hrest, List.reverse_cons,
        List.append_assoc]
      rfl

theorem foldlM_pair {m : List Piece × Written} (h : ReadsBack m.2) (frames : List Frame)
    (done : List (List Piece × Written)) {due : Due} (hdue : due = .key ∨ due = .first) :
    (pairTokens m).foldlM step ⟨.object done none :: frames, due⟩
      = some ⟨.object done (some m.1) :: frames, .after m.2⟩ := by
  have hkey : step ⟨.object done none :: frames, due⟩ (.string m.1)
      = some ⟨.object done (some m.1) :: frames, .colon⟩ := by
    rcases hdue with rfl | rfl <;> rfl
  have hcolon : step ⟨.object done (some m.1) :: frames, .colon⟩ .colon
      = some ⟨.object done (some m.1) :: frames, .value⟩ := rfl
  rw [pairTokens, foldlM_cons_of hkey, foldlM_cons_of hcolon, h]

theorem foldlM_rest_members {rest : List (List Piece × Written)} (h : ∀ n ∈ rest, ReadsBack n.2)
    (frames : List Frame) (done : List (List Piece × Written)) (m : List Piece × Written) :
    ((rest.map pairTokens).flatMap (Token.comma :: ·) ++ [Token.closeObject]).foldlM step
        ⟨.object done (some m.1) :: frames, .after m.2⟩
      = some ⟨frames, .after (.object (done.reverse ++ m :: rest))⟩ := by
  induction rest generalizing done m with
  | nil => simp [step]
  | cons n rest ih =>
      obtain ⟨hn, hrest⟩ := List.forall_mem_cons.mp h
      have hcomma : step ⟨.object done (some m.1) :: frames, .after m.2⟩ .comma
          = some ⟨.object (m :: done) none :: frames, .key⟩ := rfl
      rw [List.map_cons, List.flatMap_cons, List.cons_append, List.cons_append, List.append_assoc,
        foldlM_cons_of hcomma, foldlM_append_of (foldlM_pair hn frames _ (Or.inl rfl)), ih hrest,
        List.reverse_cons, List.append_assoc]
      rfl

theorem foldlM_tokens (v : Written) : ReadsBack v := by
  intro frames
  induction v using induction generalizing frames with
  | null | bool _ | number _ | string _ => rfl
  | array items ih =>
      have hopen : step ⟨frames, .value⟩ .openArray = some ⟨.array [] :: frames, .first⟩ := rfl
      cases items with
      | nil => rfl
      | cons v rest =>
          obtain ⟨hv, hrest⟩ := List.forall_mem_cons.mp ih
          have hfirst := (foldlM_first v frames).trans (hv (.array [] :: frames))
          rw [tokens, itemTokens_cons, List.cons_append, List.append_assoc, foldlM_cons_of hopen,
            foldlM_append_of hfirst, foldlM_rest_items hrest, List.reverse_nil, List.nil_append]
  | object members ih =>
      have hopen : step ⟨frames, .value⟩ .openObject = some ⟨.object [] none :: frames, .first⟩ :=
        rfl
      cases members with
      | nil => rfl
      | cons m rest =>
          obtain ⟨hm, hrest⟩ := List.forall_mem_cons.mp ih
          rw [tokens, memberTokens_cons, List.cons_append, List.append_assoc, foldlM_cons_of hopen,
            foldlM_append_of (foldlM_pair hm frames [] (Or.inr rfl)), foldlM_rest_members hrest,
            List.reverse_nil, List.nil_append]

end Reader

theorem ofTokens?_tokens (v : Written) : ofTokens? v.tokens = some v := by
  rw [ofTokens?, Reader.start, Reader.foldlM_tokens v]
  rfl

/-- The text of a value is read back as the value is written. -/
theorem read?_text (v : Json) : read? v.text = some v.written := by
  rw [read?, Json.text, String.toList_ofList, Json.chars,
    Token.lex?_chars v.written.separated_tokens, Option.bind_some, ofTokens?_tokens]

end Written

end Intake
