import Mathlib.Data.Nat.Digits.Lemmas

/-!
# Numerals

A numeral of a number in a radix is a list of digits, the highest first, with no
zero in front but in the numeral of zero itself.  There is exactly one.
-/

namespace CompE.Library

/-- The digits `ds` write `value` in `radix`. -/
structure Numeral (radix value : Nat) (ds : List Nat) : Prop where
  digits : ∀ d ∈ ds, d < radix
  value_eq : Nat.ofDigits radix ds.reverse = value
  nonempty : ds ≠ []
  noLeadingZero : ds.head? = some 0 → ds = [0]

/-- The numeral of a number. -/
def numeral (radix value : Nat) : List Nat :=
  if value = 0 then [0] else (Nat.digits radix value).reverse

theorem numeral_isNumeral {radix : Nat} (h : 1 < radix) (value : Nat) :
    Numeral radix value (numeral radix value) := by
  by_cases hZero : value = 0
  · rw [numeral, if_pos hZero, hZero]
    refine ⟨?_, rfl, List.cons_ne_nil _ _, fun _ => rfl⟩
    intro d hd
    rw [List.mem_singleton.mp hd]
    omega
  · rw [numeral, if_neg hZero]
    refine ⟨?_, ?_, ?_, ?_⟩
    · intro d hd
      exact Nat.digits_lt_base h (List.mem_reverse.mp hd)
    · rw [List.reverse_reverse, Nat.ofDigits_digits]
    · rw [ne_eq, List.reverse_eq_nil_iff]
      exact Nat.digits_ne_nil_iff_ne_zero.mpr hZero
    · intro hHead
      rw [List.head?_reverse,
        List.getLast?_eq_some_getLast (Nat.digits_ne_nil_iff_ne_zero.mpr hZero),
        Option.some.injEq] at hHead
      exact absurd hHead (Nat.getLast_digit_ne_zero radix hZero)

theorem Numeral.eq_numeral {radix value : Nat} {ds : List Nat} (hRadix : 1 < radix)
    (h : Numeral radix value ds) : ds = numeral radix value := by
  cases ds with
  | nil => exact absurd rfl h.nonempty
  | cons d ds =>
      by_cases hd : d = 0
      · have hOne : d :: ds = [0] := h.noLeadingZero (by rw [hd, List.head?_cons])
        have hValue := h.value_eq
        rw [hOne] at hValue
        rw [hOne, ← hValue]
        rfl
      · have hDigits : Nat.digits radix value = (d :: ds).reverse := by
          rw [← h.value_eq]
          apply Nat.digits_ofDigits radix hRadix
          · intro e he
            exact h.digits e (List.mem_reverse.mp he)
          · intro _
            rw [List.getLast_reverse]
            exact hd
        have hNe : value ≠ 0 := by
          rw [← Nat.digits_ne_nil_iff_ne_zero (b := radix), hDigits, ne_eq,
            List.reverse_eq_nil_iff]
          exact List.cons_ne_nil d ds
        rw [numeral, if_neg hNe, hDigits, List.reverse_reverse]

/-- There is exactly one. -/
theorem numeral_iff {radix value : Nat} (hRadix : 1 < radix) (ds : List Nat) :
    Numeral radix value ds ↔ ds = numeral radix value := by
  constructor
  · exact Numeral.eq_numeral hRadix
  · rintro rfl
    exact numeral_isNumeral hRadix value

theorem numeral_length_le {radix value n : Nat} (hRadix : 1 < radix) (hn : 0 < n)
    (h : value < radix ^ n) : (numeral radix value).length ≤ n := by
  rw [numeral]
  split
  · exact hn
  · rw [List.length_reverse, Nat.digits_length_le_iff hRadix]
    exact h

end CompE.Library
