/-!
# Blank characters

Input text is stripped of blanks before it is read as a type name, a date or
a time, and blanks may stand between the parts of a timestamp. Blank is meant
in the sense of Unicode: `isBlank` is the property `White_Space`, a table of
twenty-five characters, of which six are ASCII.
-/

namespace Intake

/-- The characters of the Unicode property `White_Space`. -/
def isBlank (c : Char) : Bool :=
  let n := c.toNat
  (0x09 ≤ n && n ≤ 0x0D) || n == 0x20 || n == 0x85 || n == 0xA0 || n == 0x1680
    || (0x2000 ≤ n && n ≤ 0x200A) || n == 0x2028 || n == 0x2029 || n == 0x202F
    || n == 0x205F || n == 0x3000

/-- The text from its first character that is not blank. -/
def skipBlanks (cs : List Char) : List Char := cs.dropWhile isBlank

/-- The text without the blanks at its two ends. -/
def trimBlanks (cs : List Char) : List Char :=
  (skipBlanks (skipBlanks cs).reverse).reverse

/-- Skipping blanks stops at a character that is not blank, or at the end. -/
theorem isBlank_head_skipBlanks {cs : List Char} {c : Char}
    (h : (skipBlanks cs).head? = some c) : isBlank c = false := by
  have := List.head?_dropWhile_not isBlank cs
  simp only [skipBlanks] at h
  rw [h] at this
  simpa using this

/-- A text is its first blanks and what is left without them. -/
theorem exists_blank_append (cs : List Char) :
    ∃ blank, (∀ c ∈ blank, isBlank c = true) ∧ cs = blank ++ skipBlanks cs :=
  ⟨cs.takeWhile isBlank, List.all_eq_true.mp List.all_takeWhile,
    List.takeWhile_append_dropWhile.symm⟩

theorem length_skipBlanks_le (cs : List Char) : (skipBlanks cs).length ≤ cs.length :=
  (List.dropWhile_sublist _).length_le

/-- Skipping blanks does nothing to a text that begins with another character. -/
theorem skipBlanks_eq_self {cs : List Char} (h : ∀ c ∈ cs.head?, isBlank c = false) :
    skipBlanks cs = cs := by
  cases cs with
  | nil => rfl
  | cons c rest => simp [skipBlanks, h c rfl]

theorem skipBlanks_blank_append {blank : List Char} (h : ∀ c ∈ blank, isBlank c = true)
    (cs : List Char) : skipBlanks (blank ++ cs) = skipBlanks cs :=
  List.dropWhile_append_of_pos h

/-- A trimmed text does not begin with a blank. -/
theorem isBlank_head_trimBlanks {cs : List Char} {c : Char}
    (h : (trimBlanks cs).head? = some c) : isBlank c = false := by
  have hsuffix : skipBlanks (skipBlanks cs).reverse <:+ (skipBlanks cs).reverse :=
    List.dropWhile_suffix isBlank
  obtain ⟨back, hback⟩ : trimBlanks cs <+: skipBlanks cs := by
    rwa [← List.reverse_prefix, List.reverse_reverse] at hsuffix
  have hhead : (skipBlanks cs).head? = some c := by
    rw [← hback, List.head?_append, h]
    rfl
  exact isBlank_head_skipBlanks hhead

/-- Where the front of a text neither begins nor ends with a blank, only what follows it is
trimmed. -/
theorem trimBlanks_front {front : List Char} (hne : front ≠ [])
    (hhead : ∀ c ∈ front.head?, isBlank c = false)
    (hlast : ∀ c ∈ front.getLast?, isBlank c = false) (back : List Char) :
    trimBlanks (front ++ back) = front ++ (skipBlanks back.reverse).reverse := by
  have hfront : skipBlanks (front ++ back) = front ++ back := by
    obtain ⟨c, tail, rfl⟩ := List.exists_cons_of_ne_nil hne
    exact skipBlanks_eq_self hhead
  have hstop : skipBlanks front.reverse = front.reverse :=
    skipBlanks_eq_self fun c hc => hlast c (by rwa [List.head?_reverse] at hc)
  have hback : skipBlanks (back.reverse ++ front.reverse)
      = skipBlanks back.reverse ++ front.reverse := by
    simp only [skipBlanks] at hstop ⊢
    rw [List.dropWhile_append]
    split
    · next hnone => rw [hstop, List.isEmpty_iff.mp hnone, List.nil_append]
    · rfl
  rw [trimBlanks, hfront, List.reverse_append, hback, List.reverse_append, List.reverse_reverse]

/-- Of a text that neither begins nor ends with a blank, trimming takes off the blanks after
it. -/
theorem trimBlanks_append {cs blank : List Char} (hne : cs ≠ [])
    (hhead : ∀ c ∈ cs.head?, isBlank c = false) (hlast : ∀ c ∈ cs.getLast?, isBlank c = false)
    (hblank : ∀ c ∈ blank, isBlank c = true) : trimBlanks (cs ++ blank) = cs := by
  have hskip : skipBlanks (blank.reverse ++ []) = [] :=
    skipBlanks_blank_append (fun c hc => hblank c (List.mem_reverse.mp hc)) []
  rw [List.append_nil] at hskip
  rw [trimBlanks_front hne hhead hlast, hskip, List.reverse_nil, List.append_nil]

theorem isBlank_of_isDigit {c : Char} (h : c.isDigit = true) : isBlank c = false := by
  simp only [Char.isDigit, Bool.and_eq_true, decide_eq_true_eq] at h
  have hlow : 48 ≤ c.toNat := h.1
  have hhigh : c.toNat ≤ 57 := h.2
  simp only [isBlank, Bool.or_eq_false_iff, Bool.and_eq_false_iff, decide_eq_false_iff_not,
    beq_eq_false_iff_ne]
  omega

end Intake
