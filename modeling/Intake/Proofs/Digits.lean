import Mathlib.Algebra.Group.Nat.Defs
import Intake.Text.Digits

/-!
# How many digits a number has

A number has at most as many digits as the power of ten that it stays below, so one
that fits into a width is padded to exactly that width. The other way round, a string
of digits writes a number below the power of ten of its length, and no other string of
that length writes the same number.
-/

namespace Intake

/-! ## Lengths -/

theorem length_digitsOf_le_iff {n width : Nat} (hwidth : 0 < width) :
    (digitsOf n).length ≤ width ↔ n < 10 ^ width :=
  Nat.length_toDigits_le_iff (by decide) hwidth

/-- A number that fits into the width is padded to exactly that width. -/
theorem length_padded {width n : Nat} (hwidth : 0 < width) (hn : n < 10 ^ width) :
    (padded width n).length = width := by
  have := (length_digitsOf_le_iff hwidth).mpr hn
  simp only [padded, List.length_append, List.length_replicate]
  omega

theorem length_padded_le {width bound n : Nat} (hbound : 0 < bound) (hwidth : width ≤ bound)
    (hn : n < 10 ^ bound) : (padded width n).length ≤ bound := by
  have := (length_digitsOf_le_iff hbound).mpr hn
  simp only [padded, List.length_append, List.length_replicate]
  omega

/-! ## Magnitude -/

/-- A power of ten has one digit more than its exponent. -/
theorem lt_length_digitsOf_pow (n : Nat) : n < (digitsOf (10 ^ n)).length := by
  rcases Nat.eq_zero_or_pos n with rfl | hn
  · decide
  · exact Nat.lt_of_not_le fun hle => Nat.lt_irrefl _ ((length_digitsOf_le_iff hn).mp hle)

theorem digitsValue_cons (c : Char) (cs : List Char) :
    digitsValue (c :: cs) = 10 ^ cs.length * (c.toNat - '0'.toNat) + digitsValue cs := by
  rw [digitsValue, Nat.ofDigitChars_cons, Nat.mul_zero, Nat.zero_add,
    Nat.ofDigitChars_eq_ofDigitChars_zero]
  rfl

/-- Zeros at the end multiply by a power of ten. -/
theorem digitsValue_append_zeros (cs : List Char) (n : Nat) :
    digitsValue (cs ++ List.replicate n '0') = 10 ^ n * digitsValue cs := by
  rw [digitsValue, Nat.ofDigitChars_append, Nat.ofDigitChars_replicate_zero]
  rfl

theorem digitsValue_append (cs ds : List Char) :
    digitsValue (cs ++ ds) = 10 ^ ds.length * digitsValue cs + digitsValue ds := by
  rw [digitsValue, Nat.ofDigitChars_append, Nat.ofDigitChars_eq_ofDigitChars_zero]
  rfl

theorem toNat_of_isDigit {c : Char} (h : c.isDigit = true) : 48 ≤ c.toNat ∧ c.toNat ≤ 57 := by
  simp only [Char.isDigit, Bool.and_eq_true, decide_eq_true_eq] at h
  exact h

/-- A digit string writes a number with no more digits than it has. -/
theorem digitsValue_lt {cs : List Char} (h : ∀ c ∈ cs, c.isDigit = true) :
    digitsValue cs < 10 ^ cs.length := by
  induction cs with
  | nil => decide
  | cons c rest ih =>
      have hrest := ih fun d hd => h d (List.mem_cons_of_mem _ hd)
      have hc : c.toNat - '0'.toNat ≤ 9 :=
        Nat.sub_le_of_le_add (toNat_of_isDigit (h c List.mem_cons_self)).2
      rw [digitsValue_cons, List.length_cons, Nat.pow_succ]
      have := Nat.mul_le_mul_left (10 ^ rest.length) hc
      omega

/-- The digits at the front write the number without its last digits. -/
theorem digitsValue_take {ds : List Char} (hds : ∀ d ∈ ds, d.isDigit = true) (n : Nat) :
    digitsValue (ds.take n) = digitsValue ds / 10 ^ (ds.length - n) := by
  have hlt : digitsValue (ds.drop n) < 10 ^ (ds.drop n).length :=
    digitsValue_lt fun d hd => hds d (List.mem_of_mem_drop hd)
  have hsplit := digitsValue_append (ds.take n) (ds.drop n)
  rw [List.take_append_drop] at hsplit
  rw [hsplit, ← List.length_drop, Nat.mul_add_div (Nat.zero_lt_of_lt hlt), Nat.div_eq_of_lt hlt,
    Nat.add_zero]

/-- Of the digit strings of one length no two write one number. -/
theorem digitsValue_inj : ∀ {cs ds : List Char}, cs.length = ds.length →
    (∀ c ∈ cs, c.isDigit = true) → (∀ d ∈ ds, d.isDigit = true) →
      digitsValue cs = digitsValue ds → cs = ds
  | [], [], _, _, _, _ => rfl
  | c :: cs, d :: ds, hlength, hcs, hds, h => by
      obtain ⟨hc, hctail⟩ := List.forall_mem_cons.mp hcs
      obtain ⟨hd, hdtail⟩ := List.forall_mem_cons.mp hds
      have hrest : cs.length = ds.length := Nat.succ.inj hlength
      have hcslt := digitsValue_lt hctail
      have hdslt := digitsValue_lt hdtail
      rw [hrest] at hcslt
      rw [digitsValue_cons, digitsValue_cons, hrest] at h
      have hfirst := congrArg (· / 10 ^ ds.length) h
      simp only [Nat.mul_add_div (Nat.zero_lt_of_lt hdslt), Nat.div_eq_of_lt hcslt,
        Nat.div_eq_of_lt hdslt, Nat.add_zero] at hfirst
      have hcd : c = d := by
        have hzero : '0'.toNat = 48 := rfl
        have := toNat_of_isDigit hc
        have := toNat_of_isDigit hd
        exact Char.toNat_inj.mp (by omega)
      subst hcd
      rw [digitsValue_inj hrest hctail hdtail (Nat.add_left_cancel h)]

end Intake
