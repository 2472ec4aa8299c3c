import Statechart.Time.Text
import Mathlib.Data.Nat.Digits.Defs

/-!
# Decimal numerals

A natural number is read back from its decimal digits, whether they are padded with zeros or not,
and a bound on the number bounds its digits.  No number but zero starts with a zero.

Scanners take the longest run of digits, so a numeral is read to its end and not beyond where no
digit follows it.
-/
namespace Statechart

/-- The text does not go on with a digit. -/
def EndsDigits (cs : List Char) : Prop := ∀ c ∈ cs.head?, c.isDigit = false

variable {digits rest : List Char} {width n : Nat} {c : Char}

theorem EndsDigits.takeWhile_eq (h : EndsDigits rest) : rest.takeWhile Char.isDigit = [] := by
  cases rest with
  | nil => rfl
  | cons c cs => rw [List.takeWhile_cons_of_neg (by simp [h c rfl])]

theorem EndsDigits.dropWhile_eq (h : EndsDigits rest) : rest.dropWhile Char.isDigit = rest := by
  cases rest with
  | nil => rfl
  | cons c cs => rw [List.dropWhile_cons_of_neg (by simp [h c rfl])]

theorem EndsDigits.take (h : EndsDigits rest) (k : Nat) : EndsDigits (rest.take k) := by
  intro c first
  rw [List.head?_take] at first
  split at first
  · cases first
  · exact h c first

theorem endsDigits_cons (h : c.isDigit = false) : EndsDigits (c :: rest) := by
  simpa [EndsDigits] using h

theorem takeWhile_digits (h : ∀ c ∈ digits, c.isDigit = true) (ends : EndsDigits rest) :
    (digits ++ rest).takeWhile Char.isDigit = digits := by
  rw [List.takeWhile_append_of_pos h, ends.takeWhile_eq, List.append_nil]

theorem dropWhile_digits (h : ∀ c ∈ digits, c.isDigit = true) (ends : EndsDigits rest) :
    (digits ++ rest).dropWhile Char.isDigit = rest := by
  rw [List.dropWhile_append_of_pos h, ends.dropWhile_eq]

theorem digits_eq_cons (ne : digits ≠ []) (h : ∀ c ∈ digits, c.isDigit = true) :
    ∃ c cs, digits = c :: cs ∧ c.isDigit = true := by
  cases digits with
  | nil => exact absurd rfl ne
  | cons c cs => exact ⟨c, cs, rfl, h c List.mem_cons_self⟩

/-- What starts with digits starts with no other mark. -/
theorem digits_append_ne (ne : digits ≠ []) (h : ∀ c ∈ digits, c.isDigit = true) {cs : List Char}
    (mark : c.isDigit = false) : digits ++ rest ≠ c :: cs := by
  obtain ⟨first, more, rfl, digit⟩ := digits_eq_cons ne h
  intro start
  rw [(List.cons.inj start).1, mark] at digit
  cases digit

/-! ### Numbers without padding -/

theorem isDigit_of_mem_toDigits (h : c ∈ Nat.toDigits 10 n) : c.isDigit = true :=
  Nat.isDigit_of_mem_toDigits (by decide) (by decide) h

theorem head?_toDigits_ne_zero (pos : 0 < n) : (Nat.toDigits 10 n).head? ≠ some '0' := by
  induction n using Nat.strongRecOn with
  | ind n ih =>
    rw [Nat.toDigits_eq_if (by decide)]
    split
    case isTrue h =>
      have digits : ∀ k < 10, 0 < k → Nat.digitChar k ≠ '0' := by decide
      simpa using digits n h pos
    case isFalse h =>
      rw [List.head?_append, Option.or_of_isSome (by simp [Nat.toDigits_ne_nil])]
      exact ih (n / 10) (by omega) (by omega)

theorem toDigits_eq_cons (n : Nat) : ∃ c cs, Nat.toDigits 10 n = c :: cs ∧ c.isDigit = true :=
  digits_eq_cons Nat.toDigits_ne_nil fun _ => isDigit_of_mem_toDigits

theorem toDigits_append_ne (mark : c.isDigit = false) (n : Nat) {cs : List Char} :
    Nat.toDigits 10 n ++ rest ≠ c :: cs :=
  digits_append_ne Nat.toDigits_ne_nil (fun _ => isDigit_of_mem_toDigits) mark

/-- The digits of a number: a zero alone, or a first digit that is none. -/
theorem toDigits_cases (n : Nat) :
    Nat.toDigits 10 n = ['0'] ∨
      ∃ c cs, Nat.toDigits 10 n = c :: cs ∧ c.isDigit = true ∧ c ≠ '0' := by
  obtain rfl | pos := Nat.eq_zero_or_pos n
  · exact .inl rfl
  · refine .inr ?_
    obtain ⟨c, cs, digits, digit⟩ := toDigits_eq_cons n
    refine ⟨c, cs, digits, digit, fun zero => ?_⟩
    exact head?_toDigits_ne_zero pos (by rw [digits, zero, List.head?_cons])

/-! ### Padded numbers -/

theorem padded_eq (width n : Nat) :
    padded width n =
      List.replicate (width - (Nat.toDigits 10 n).length) '0' ++ Nat.toDigits 10 n := rfl

theorem isDigit_of_mem_padded (h : c ∈ padded width n) : c.isDigit = true := by
  rw [padded_eq, List.mem_append] at h
  rcases h with zero | digit
  · rw [List.eq_of_mem_replicate zero]; rfl
  · exact isDigit_of_mem_toDigits digit

@[simp] theorem padded_ne_nil : padded width n ≠ [] := by
  simp [padded_eq, Nat.toDigits_ne_nil]

@[simp] theorem ofDigitChars_padded : Nat.ofDigitChars 10 (padded width n) 0 = n := by
  rw [padded_eq, Nat.ofDigitChars_append, Nat.ofDigitChars_replicate_zero, Nat.mul_zero,
    Nat.ofDigitChars_toDigits (by decide) (by decide)]

theorem length_padded (pos : 0 < width) (h : n < 10 ^ width) : (padded width n).length = width := by
  have few := (Nat.length_toDigits_le_iff (b := 10) (by decide) pos).2 h
  rw [padded, List.length_leftpad]
  omega

theorem length_padded_le {bound : Nat} (pos : 0 < bound) (h : n < 10 ^ bound) :
    (padded width n).length ≤ max width bound := by
  have few := (Nat.length_toDigits_le_iff (b := 10) (by decide) pos).2 h
  rw [padded, List.length_leftpad]
  omega

theorem padded_append_ne (mark : c.isDigit = false) {cs : List Char} :
    padded width n ++ rest ≠ c :: cs :=
  digits_append_ne padded_ne_nil (fun _ => isDigit_of_mem_padded) mark

end Statechart
