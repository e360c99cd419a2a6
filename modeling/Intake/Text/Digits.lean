/-!
# Digits

Decimal digits are the ten ASCII ones, here and in every format the library
reads. A digit string is read with `digitsValue` and written with `padded`;
`takeSign` and `integer?` add the sign.
-/

namespace Intake

/-- One digit or more, and nothing else. -/
def digitsOK (cs : List Char) : Bool := !cs.isEmpty && cs.all Char.isDigit

/-- The number that a digit string writes. -/
def digitsValue (cs : List Char) : Nat := Nat.ofDigitChars 10 cs 0

/-- The digits of `n`, without leading zeros; zero has the one digit `0`. -/
def digitsOf (n : Nat) : List Char := Nat.toDigits 10 n

/-- The digits of `n`, filled up with leading zeros to at least `width`. -/
def padded (width n : Nat) : List Char :=
  List.replicate (width - (digitsOf n).length) '0' ++ digitsOf n

/-- Splits off one leading sign; `true` is a minus. -/
def takeSign : List Char → Bool × List Char
  | '-' :: rest => (true, rest)
  | '+' :: rest => (false, rest)
  | rest => (false, rest)

def signed (negative : Bool) (n : Nat) : Int := if negative then -(n : Int) else n

/-- Reads an optional sign and one digit or more. -/
def integer? (cs : List Char) : Option Int :=
  let (negative, digits) := takeSign cs
  if digitsOK digits then some (signed negative (digitsValue digits)) else none

/-- The number written as a one and `n` zeros. -/
def powerOfTen (n : Nat) : Nat := Nat.pow 10 n

/-- The digits of an integer, after a minus if it is negative. -/
def integerChars (i : Int) : List Char :=
  if i < 0 then '-' :: digitsOf i.natAbs else digitsOf i.natAbs

@[simp] theorem digitsValue_digitsOf (n : Nat) : digitsValue (digitsOf n) = n :=
  Nat.ofDigitChars_ten_toDigits

theorem digitsOK_digitsOf (n : Nat) : digitsOK (digitsOf n) = true := by
  simp only [digitsOK, digitsOf, Bool.and_eq_true, Bool.not_eq_true', List.isEmpty_eq_false_iff,
    List.all_eq_true]
  exact ⟨Nat.toDigits_ne_nil, fun c hc => Nat.isDigit_of_mem_toDigits (by decide) (by decide) hc⟩

theorem digitsOf_of_lt_ten {n : Nat} (h : n < 10) : digitsOf n = [Nat.digitChar n] :=
  Nat.toDigits_of_lt_base h

theorem digitsOf_append_digit {n d : Nat} (hn : 0 < n) (hd : d < 10) :
    digitsOf (10 * n + d) = digitsOf n ++ [Nat.digitChar d] := by
  rw [← digitsOf_of_lt_ten hd]
  exact (Nat.toDigits_append_toDigits (by decide) hn hd).symm

theorem digitChar_ne_zero : ∀ {n : Nat}, 0 < n → n < 10 → Nat.digitChar n ≠ '0' := by
  intro n hpos hlt
  have : ∀ m : Fin 10, 0 < m.val → Nat.digitChar m.val ≠ '0' := by decide
  exact this ⟨n, hlt⟩ hpos

/-- The digits of a positive number do not begin with a zero. -/
theorem head?_digitsOf_ne_zero {n : Nat} (hn : 0 < n) : (digitsOf n).head? ≠ some '0' := by
  induction n using Nat.strongRecOn with
  | _ n ih =>
      by_cases h : n < 10
      · rw [digitsOf_of_lt_ten h]
        simpa using digitChar_ne_zero hn h
      · have hpos : 0 < n / 10 := by omega
        have hsplit : digitsOf n = digitsOf (n / 10) ++ [Nat.digitChar (n % 10)] := by
          rw [← digitsOf_append_digit hpos (Nat.mod_lt n (by decide))]
          congr 1
          omega
        rw [hsplit, List.head?_append]
        cases hd : (digitsOf (n / 10)).head? with
        | none => exact absurd (List.head?_eq_none_iff.mp hd) Nat.toDigits_ne_nil
        | some c =>
            have := ih (n / 10) (by omega) hpos
            rw [hd] at this
            simpa using this

theorem natAbs_signed (negative : Bool) (n : Nat) : (signed negative n).natAbs = n := by
  cases negative <;> simp [signed]

theorem signed_natAbs (i : Int) : signed (decide (i < 0)) i.natAbs = i := by
  by_cases h : i < 0
  · simp only [signed, h, decide_true, if_true]
    omega
  · simp only [signed, h, decide_false, Bool.false_eq_true, if_false]
    omega

/-! ## Padding -/

@[simp] theorem digitsValue_padded (width n : Nat) : digitsValue (padded width n) = n := by
  rw [digitsValue, padded, Nat.ofDigitChars_append, Nat.ofDigitChars_replicate_zero, Nat.mul_zero]
  exact digitsValue_digitsOf n

theorem isDigit_of_mem_padded {width n : Nat} {c : Char} (h : c ∈ padded width n) :
    c.isDigit = true := by
  rcases List.mem_append.mp h with hzero | hdigit
  · obtain ⟨-, rfl⟩ := List.mem_replicate.mp hzero
    rfl
  · exact Nat.isDigit_of_mem_toDigits (by decide) (by decide) hdigit

theorem digitsOK_padded (width n : Nat) : digitsOK (padded width n) = true := by
  simp only [digitsOK, Bool.and_eq_true, Bool.not_eq_true', List.isEmpty_eq_false_iff,
    List.all_eq_true]
  exact ⟨fun h => Nat.toDigits_ne_nil (List.append_eq_nil_iff.mp h).2,
    fun c hc => isDigit_of_mem_padded hc⟩

end Intake
