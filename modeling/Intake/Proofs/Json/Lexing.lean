import Mathlib.Data.List.Chain
import Intake.Json.Token
import Intake.Proofs.Json.Numerals

/-!
# Tokens are read back

A text that is made of tokens is cut into these tokens again, as long as no two words stand
next to each other (`Token.Separated`); a word is any token that is neither a string nor a
punctuation mark.

A token is read from any lexer that has just ended one (`Lexer.HasRead`). Where the last
token is a word the lexer does not know yet that it has ended, so only a character that ends
words may follow, and every token begins with one except for words.
-/

namespace Intake

/-! ## Machines that may get stuck -/

section

variable {σ τ : Type} {step : σ → τ → Option σ} {s s' : σ}

theorem foldlM_cons_of {t : τ} (h : step s t = some s') (rest : List τ) :
    (t :: rest).foldlM step s = rest.foldlM step s' := by
  rw [List.foldlM_cons, h]
  rfl

theorem foldlM_append_of {first : List τ} (h : first.foldlM step s = some s') (rest : List τ) :
    (first ++ rest).foldlM step s = rest.foldlM step s' := by
  rw [List.foldlM_append, h]
  rfl

end

/-! ## Strings -/

theorem hexValue?_hexDigit : ∀ n, n < 16 → hexValue? (hexDigit n) = some n := by
  decide

/-- A character is written after a backslash, as a unit, or as it is. -/
theorem escapeChar_cases (c : Char) :
    (∃ x, x ≠ 'u' ∧ unescape? x = some c ∧ escapeChar c = ['\\', x])
      ∨ (c.toNat < 0x20 ∧ escapeChar c = escapeUnit c.toNat)
      ∨ ((c ≠ '"' ∧ c ≠ '\\' ∧ ¬c.toNat < 0x20) ∧ escapeChar c = [c]) := by
  by_cases hshort : c ∈ ['"', '\\', '\x08', '\t', '\n', '\x0c', '\r']
  · simp only [List.mem_cons, List.not_mem_nil, or_false] at hshort
    rcases hshort with rfl | rfl | rfl | rfl | rfl | rfl | rfl
    all_goals exact Or.inl ⟨_, by decide, rfl, rfl⟩
  · simp only [List.mem_cons, List.not_mem_nil, or_false, not_or] at hshort
    obtain ⟨hquote, hbackslash, hothers⟩ := hshort
    by_cases hcontrol : c.toNat < 0x20
    · exact Or.inr (Or.inl ⟨hcontrol, by simp [escapeChar, hquote, hbackslash, hothers, hcontrol]⟩)
    · refine Or.inr (Or.inr ⟨⟨hquote, hbackslash, hcontrol⟩, ?_⟩)
      simp [escapeChar, hquote, hbackslash, hothers, hcontrol]

namespace Piece

theorem ofUnit_of_lt {unit : Nat} (h : unit < 0xD800) : ofUnit unit = char (Char.ofNat unit) := by
  rw [ofUnit, dif_neg (by omega), dif_neg (by omega)]

theorem ofUnit_leading (bits : Fin 0x400) : ofUnit (0xD800 + bits.val) = leading bits := by
  rw [ofUnit, dif_pos (by omega)]
  exact congrArg leading (Fin.ext (Nat.add_sub_cancel_left ..))

theorem ofUnit_trailing (bits : Fin 0x400) : ofUnit (0xDC00 + bits.val) = trailing bits := by
  rw [ofUnit, dif_neg (by omega), dif_pos (by omega)]
  exact congrArg trailing (Fin.ext (Nat.add_sub_cancel_left ..))

end Piece

namespace Token

namespace Lexer

/-- A lexer between two quotes, at a character of its own. -/
def inside (done : List Token) (read : List Piece) : Lexer := ⟨done, .quoted (.plain read)⟩

theorem foldlM_escape (done : List Token) (read : List Piece) {c x : Char}
    (hunit : c ≠ 'u') (h : unescape? c = some x) :
    ['\\', c].foldlM step (inside done read) = some (inside done (.char x :: read)) := by
  simp [step, inside, Quoted.step, hunit, h]

theorem foldlM_escapeUnit (done : List Token) (read : List Piece) {unit : Nat}
    (h : unit < 0x10000) :
    (escapeUnit unit).foldlM step (inside done read)
      = some (inside done (.ofUnit unit :: read)) := by
  have hdigits : ∀ n, hexValue? (hexDigit (n % 0x10)) = some (n % 0x10) := fun n =>
    hexValue?_hexDigit _ (Nat.mod_lt n (by decide))
  simp only [escapeUnit, List.foldlM_cons, List.foldlM_nil, step, inside, Quoted.step]
  simp [hdigits]
  congr 1
  omega

theorem foldlM_piece (done : List Token) (read : List Piece) (p : Piece) :
    p.written.foldlM step (inside done read) = some (inside done (p :: read)) := by
  cases p with
  | leading bits =>
      rw [Piece.written, foldlM_escapeUnit done read (by omega), Piece.ofUnit_leading]
  | trailing bits =>
      rw [Piece.written, foldlM_escapeUnit done read (by omega), Piece.ofUnit_trailing]
  | char c =>
      rw [Piece.written]
      rcases escapeChar_cases c with ⟨x, hunit, hx, hc⟩ | ⟨hcontrol, hc⟩ | ⟨hplain, hc⟩
      · rw [hc]
        exact foldlM_escape done read hunit hx
      · rw [hc, foldlM_escapeUnit done read (by omega), Piece.ofUnit_of_lt (by omega),
          Char.ofNat_toNat]
      · rw [hc]
        simp [step, inside, Quoted.step, hplain]

theorem foldlM_pieces (done : List Token) (read pieces : List Piece) :
    (pieces.flatMap Piece.written).foldlM step (inside done read)
      = some (inside done (pieces.reverse ++ read)) := by
  induction pieces generalizing read with
  | nil => rfl
  | cons p rest ih =>
      rw [List.flatMap_cons, foldlM_append_of (foldlM_piece done read p), ih, List.reverse_cons,
        List.append_assoc]
      rfl

end Lexer

/-! ## Words -/

/-- The tokens whose extent shows only when another one begins. -/
def isWord : Token → Bool
  | null | bool _ | number _ => true
  | _ => false

theorem number_chars_eq {n : Numeral} {cs : List Char} (h : Numeral.ofChars? cs = none) :
    n.chars ≠ cs := by
  rintro rfl
  rw [Numeral.ofChars?_chars] at h
  cases h

theorem ofWord?_chars {t : Token} (h : t.isWord = true) : ofWord? t.chars = some t := by
  cases t with
  | null => rfl
  | bool b => cases b <;> rfl
  | number n =>
      have hchars : (number n).chars = n.chars := rfl
      rw [ofWord?, hchars, if_neg (number_chars_eq rfl), if_neg (number_chars_eq rfl),
        if_neg (number_chars_eq rfl), Numeral.ofChars?_chars]
      rfl
  | _ => cases h

theorem endsWord_of_isDigit {c : Char} (h : c.isDigit = true) : Lexer.endsWord c = false := by
  have hmark : ofMark? c = none := by
    unfold ofMark?
    split <;> first | rfl | cases h
  have hquote : c ≠ '"' := by
    rintro rfl
    cases h
  have hspace : isSpace c = false := by
    simp only [isSpace, Bool.or_eq_false_iff, beq_eq_false_iff_ne]
    refine ⟨⟨⟨?_, ?_⟩, ?_⟩, ?_⟩ <;> (rintro rfl; cases h)
  simp [Lexer.endsWord, hmark, hquote, hspace]

theorem endsWord_of_mem_number {n : Numeral} {c : Char} (hc : c ∈ n.chars) :
    Lexer.endsWord c = false := by
  have hchars : n.chars = n.mantissaChars ++ Numeral.exponentChars n.exponent := rfl
  rw [hchars, List.mem_append] at hc
  rcases hc with hmantissa | hexponent
  · rcases Numeral.mem_mantissaChars hmantissa with rfl | rfl | hdigit
    · rfl
    · rfl
    · exact endsWord_of_isDigit hdigit
  · cases h : n.exponent with
    | none =>
        rw [h] at hexponent
        cases hexponent
    | some e =>
        obtain ⟨negative, digits⟩ := e
        have hdigits : digitsOK digits = true := by simpa [h] using n.exponent_ok
        rw [h] at hexponent
        rcases List.mem_cons.mp hexponent with rfl | hexponent
        · rfl
        · rcases List.mem_cons.mp hexponent with rfl | hdigit
          · cases negative <;> rfl
          · exact endsWord_of_isDigit (isDigit_of_digitsOK hdigits c hdigit)

theorem endsWord_of_mem {t : Token} (h : t.isWord = true) {c : Char} (hc : c ∈ t.chars) :
    Lexer.endsWord c = false := by
  cases t with
  | null =>
      simp only [chars, List.mem_cons, List.not_mem_nil, or_false] at hc
      rcases hc with rfl | rfl | rfl | rfl <;> rfl
  | bool b =>
      cases b with
      | true =>
          simp only [chars, List.mem_cons, List.not_mem_nil, or_false] at hc
          rcases hc with rfl | rfl | rfl | rfl <;> rfl
      | false =>
          simp only [chars, List.mem_cons, List.not_mem_nil, or_false] at hc
          rcases hc with rfl | rfl | rfl | rfl | rfl <;> rfl
  | number n => exact endsWord_of_mem_number hc
  | _ => cases h

/-! ## Tokens -/

namespace Lexer

/-- The lexer has just ended a token, or may have; these are the tokens if nothing follows. -/
def HasRead (l : Lexer) (tokens : List Token) : Prop := l.finish? = some tokens

/-- After a whole token comes the beginning of another one, where a word has an end. -/
theorem HasRead.step_eq {l : Lexer} {tokens : List Token} (h : l.HasRead tokens) {c : Char}
    (hc : l.mode = .between ∨ endsWord c = true) : l.step c = some (begin tokens.reverse c) := by
  obtain ⟨done, mode⟩ := l
  cases mode with
  | between =>
      obtain rfl := Option.some.inj h
      rw [List.reverse_reverse]
      rfl
  | word read =>
      have hends : endsWord c = true := hc.resolve_left nofun
      obtain ⟨t, ht, rfl⟩ := Option.map_eq_some_iff.mp h
      simp [step, hends, ht]
  | quoted q => cases h

theorem begin_word {c : Char} (h : endsWord c = false) (done : List Token) :
    begin done c = ⟨done, .word [c]⟩ := by
  simp only [endsWord, Bool.or_eq_false_iff, beq_eq_false_iff_ne] at h
  obtain ⟨⟨hspace, hquote⟩, hmark⟩ := h
  rw [Option.isSome_eq_false_iff, Option.isNone_iff_eq_none] at hmark
  rw [begin, if_neg (by simp [hspace]), if_neg hquote, hmark]

theorem foldlM_word {cs : List Char} (h : ∀ c ∈ cs, endsWord c = false) (done : List Token)
    (read : List Char) :
    cs.foldlM step ⟨done, .word read⟩ = some ⟨done, .word (cs.reverse ++ read)⟩ := by
  induction cs generalizing read with
  | nil => rfl
  | cons c rest ih =>
      have hstep : step ⟨done, .word read⟩ c = some ⟨done, .word (c :: read)⟩ := by
        simp [step, h c List.mem_cons_self]
      rw [foldlM_cons_of hstep, ih fun x hx => h x (List.mem_cons_of_mem c hx), List.reverse_cons,
        List.append_assoc]
      rfl

/-- The lexer has read `t` after the other tokens, and knows it unless `t` is a word. -/
def Reads (l : Lexer) (t : Token) (tokens : List Token) : Prop :=
  ∃ l', t.chars.foldlM step l = some l' ∧ l'.HasRead (tokens ++ [t])
    ∧ (t.isWord = false → l'.mode = .between)

theorem HasRead.mark {l : Lexer} {tokens : List Token} (h : l.HasRead tokens) {t : Token} {c : Char}
    (hchars : t.chars = [c]) (hends : endsWord c = true)
    (hbegin : ∀ done, begin done c = ⟨t :: done, .between⟩) : l.Reads t tokens := by
  refine ⟨⟨t :: tokens.reverse, .between⟩, ?_, ?_, fun _ => rfl⟩
  · rw [hchars, foldlM_cons_of (h.step_eq (Or.inr hends)), hbegin]
    rfl
  · simp [HasRead, finish?]

theorem HasRead.string {l : Lexer} {tokens : List Token} (h : l.HasRead tokens)
    (pieces : List Piece) : l.Reads (.string pieces) tokens := by
  refine ⟨⟨.string pieces :: tokens.reverse, .between⟩, ?_, ?_, fun _ => rfl⟩
  · have hopen : l.step '"' = some (inside tokens.reverse []) := h.step_eq (Or.inr rfl)
    have hclose : (inside tokens.reverse pieces.reverse).step '"'
        = some ⟨.string pieces :: tokens.reverse, .between⟩ := by
      simp [step, inside]
    have hpieces := foldlM_pieces tokens.reverse [] pieces
    rw [List.append_nil] at hpieces
    rw [chars, quote, List.cons_append, foldlM_cons_of hopen, foldlM_append_of hpieces,
      foldlM_cons_of hclose]
    rfl
  · simp [HasRead, finish?]

theorem HasRead.word {l : Lexer} {tokens : List Token} (h : l.HasRead tokens)
    (hmode : l.mode = .between) {t : Token} (ht : t.isWord = true) : l.Reads t tokens := by
  have hends : ∀ c ∈ t.chars, endsWord c = false := fun c => endsWord_of_mem ht
  have hword := ofWord?_chars ht
  cases hchars : t.chars with
  | nil =>
      rw [hchars] at hword
      cases hword
  | cons c rest =>
      rw [hchars] at hends hword
      refine ⟨⟨tokens.reverse, .word (rest.reverse ++ [c])⟩, ?_, ?_, ?_⟩
      · rw [hchars, foldlM_cons_of (h.step_eq (Or.inl hmode)),
          begin_word (hends c List.mem_cons_self),
          foldlM_word fun x hx => hends x (List.mem_cons_of_mem c hx)]
      · simp [HasRead, finish?, hword]
      · intro hnot
        cases ht.symm.trans hnot

theorem HasRead.token {l : Lexer} {tokens : List Token} (h : l.HasRead tokens) {t : Token}
    (hword : t.isWord = true → l.mode = .between) : l.Reads t tokens := by
  cases t with
  | openArray | closeArray | openObject | closeObject | comma | colon =>
      exact h.mark rfl rfl fun _ => rfl
  | string pieces => exact h.string pieces
  | null | bool _ | number _ => exact h.word (hword rfl) rfl

end Lexer

/-- No two words stand next to each other. -/
def Separated (tokens : List Token) : Prop :=
  tokens.IsChain fun a b => a.isWord = true → b.isWord = false

theorem Lexer.HasRead.tokens {l : Lexer} {before tokens : List Token} (h : l.HasRead before)
    (hhead : ∀ t ∈ tokens.head?, t.isWord = true → l.mode = .between)
    (hseparated : Separated tokens) :
    ∃ l', (tokens.flatMap chars).foldlM Lexer.step l = some l' ∧ l'.HasRead (before ++ tokens) := by
  induction tokens generalizing l before with
  | nil => exact ⟨l, rfl, by simpa using h⟩
  | cons t rest ih =>
      obtain ⟨l', hl', hread, hmode⟩ := h.token (hhead t rfl)
      obtain ⟨hnext, hrest⟩ := List.isChain_cons.mp hseparated
      have hhead' : ∀ u ∈ rest.head?, u.isWord = true → l'.mode = .between := by
        intro u hu huword
        cases ht : t.isWord with
        | false => exact hmode ht
        | true => cases huword.symm.trans (hnext u hu ht)
      obtain ⟨l'', hl'', hread'⟩ := ih hread hhead' hrest
      refine ⟨l'', ?_, by simpa using hread'⟩
      rw [List.flatMap_cons, foldlM_append_of hl', hl'']

/-- A text of separated tokens is cut into these tokens. -/
theorem lex?_chars {tokens : List Token} (h : Separated tokens) :
    lex? (tokens.flatMap chars) = some tokens := by
  have hstart : Lexer.start.HasRead [] := rfl
  obtain ⟨l, hl, hread⟩ := hstart.tokens (fun _ _ _ => rfl) h
  rw [lex?, hl]
  exact hread

end Token

end Intake
