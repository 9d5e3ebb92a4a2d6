import FlukeTesting.Lib.Scanf
import Mathlib.Tactic.FieldSimp
import Mathlib.Tactic.Ring

/-!
# Decimal numbers of fixed width

A number written with leading zeros is read back by the conversions of `sscanf`, whatever follows
it, as long as that does not look like more of the number.
-/

namespace Scanf

/-- The digit of a number below ten. -/
def digit (n : ℕ) : Char := Char.ofNat ('0'.toNat + n)

/-- A number with the given number of decimal digits. -/
def decimal : ℕ → ℕ → List Char
  | 0, _ => []
  | width + 1, n => decimal width (n / 10) ++ [digit (n % 10)]

@[simp] theorem decimal_length (width n : ℕ) : (decimal width n).length = width := by
  induction width generalizing n with
  | zero => rfl
  | succ width ih => rw [decimal, List.length_append, ih, List.length_singleton]

/-- A number of at least one digit is not empty. -/
theorem decimal_ne_nil {width : ℕ} (h : 0 < width) (n : ℕ) : decimal width n ≠ [] := by
  rw [← List.length_pos_iff, decimal_length]
  exact h

/-- The characters of a number are digits. -/
theorem mem_decimal {width n : ℕ} {c : Char} (h : c ∈ decimal width n) : ∃ k < 10, c = digit k := by
  induction width generalizing n with
  | zero => simp [decimal] at h
  | succ width ih =>
    rw [decimal, List.mem_append, List.mem_singleton] at h
    rcases h with hfront | hlast
    · exact ih hfront
    · exact ⟨n % 10, Nat.mod_lt _ (by decide), hlast⟩

/-- What the conversions see in a digit. -/
theorem digit_spec : ∀ k < 10, (digit k).isDigit = true ∧ isSpace (digit k) = false ∧
    digit k ≠ '-' ∧ digit k ≠ '+' ∧ (digit k).toNat - '0'.toNat = k := by
  decide

/-- The value of a string of digits that ends with a number of fixed width. -/
theorem digitsValue_append_decimal (front : List Char) (width n : ℕ) :
    digitsValue (front ++ decimal width n) = digitsValue front * 10 ^ width + n % 10 ^ width := by
  induction width generalizing n with
  | zero => simp [decimal, Nat.mod_one]
  | succ width ih =>
    have hlast (text : List Char) (c : Char) :
        digitsValue (text ++ [c]) = 10 * digitsValue text + (c.toNat - '0'.toNat) := by
      rw [digitsValue, List.foldl_append]
      rfl
    obtain ⟨-, -, -, -, hvalue⟩ := digit_spec (n % 10) (Nat.mod_lt _ (by decide))
    rw [decimal, ← List.append_assoc, hlast, ih, hvalue, pow_succ', Nat.mod_mul]
    ring

/-- A number that fits its width is the value of its digits. -/
theorem digitsValue_decimal {width n : ℕ} (h : n < 10 ^ width) :
    digitsValue (decimal width n) = n := by
  have hnil : digitsValue [] = 0 := rfl
  have hvalue := digitsValue_append_decimal [] width n
  rwa [List.nil_append, Nat.mod_eq_of_lt h, hnil, Nat.zero_mul, Nat.zero_add] at hvalue

section

variable {width : ℕ} (n : ℕ) (rest : List Char)

/-- No blank and no sign is in front of a number. -/
theorem scanSign_decimal (h : 0 < width) :
    scanSign ((decimal width n ++ rest).dropWhile isSpace) = (false, decimal width n ++ rest) := by
  obtain ⟨c, text, htext⟩ := List.exists_cons_of_ne_nil (decimal_ne_nil h n)
  obtain ⟨k, hk, rfl⟩ := mem_decimal (htext ▸ List.mem_cons_self : c ∈ decimal width n)
  obtain ⟨-, hspace, hminus, hplus, -⟩ := digit_spec k hk
  rw [htext, List.cons_append, List.dropWhile_cons_of_neg (by simp [hspace])]
  unfold scanSign
  split
  · simp_all
  · simp_all
  · rfl

/-- The digits of a number in front of something else. -/
theorem takeWhile_decimal (width : ℕ) (hrest : ∀ c ∈ rest.head?, c.isDigit = false) :
    (decimal width n ++ rest).takeWhile Char.isDigit = decimal width n ∧
      (decimal width n ++ rest).dropWhile Char.isDigit = rest := by
  have hall : ∀ c ∈ decimal width n, c.isDigit = true := fun c hc => by
    obtain ⟨k, hk, rfl⟩ := mem_decimal hc
    exact (digit_spec k hk).1
  rw [List.takeWhile_append_of_pos hall, List.dropWhile_append_of_pos hall]
  cases rest with
  | nil => simp
  | cons c rest => simp [hrest c rfl]

/-- `%d` reads a number back. -/
theorem scanInt_decimal (hwidth : 0 < width) (hn : n < 10 ^ width)
    (hrest : ∀ c ∈ rest.head?, c.isDigit = false) :
    scanInt (decimal width n ++ rest) = some ((n : ℤ), rest) := by
  obtain ⟨htake, hdrop⟩ := takeWhile_decimal n rest width hrest
  unfold scanInt
  rw [scanSign_decimal n rest hwidth]
  dsimp only
  rw [htake, hdrop, if_neg (decimal_ne_nil hwidth n), digitsValue_decimal hn]
  rfl

/-- A blank is neither a digit nor the start of an exponent. -/
theorem isSpace_spec {c : Char} (h : isSpace c = true) :
    c.isDigit = false ∧ c ≠ 'e' ∧ c ≠ 'E' := by
  have hval : c = ' ' ∨ c.val ≤ 13 := by
    rw [isSpace, Bool.or_eq_true, decide_eq_true_iff, Bool.and_eq_true, decide_eq_true_iff,
      decide_eq_true_iff] at h
    exact h.imp_right fun h => h.2
  rcases hval with rfl | hval
  · decide
  · have hle : c.val.toNat ≤ 13 := hval
    refine ⟨?_, ?_, ?_⟩
    · rw [Char.isDigit, Bool.and_eq_false_iff, decide_eq_false_iff_not]
      apply Or.inl
      intro hge
      have : (48 : ℕ) ≤ c.val.toNat := hge
      omega
    · rintro rfl
      exact absurd hle (by decide)
    · rintro rfl
      exact absurd hle (by decide)

/-- The second character tells whether a number is hexadecimal. -/
theorem hexBody?_of_ne (c : Char) {c' : Char} (hx : c' ≠ 'x') (hX : c' ≠ 'X')
    (text : List Char) : hexBody? (c :: c' :: text) = none := by
  unfold hexBody?
  split
  · rename_i heq
    obtain ⟨-, htail⟩ := List.cons.inj heq
    obtain ⟨rfl, -⟩ := List.cons.inj htail
    rw [if_neg (by simp [hx, hX])]
  · rfl

/-- A number with a point is not hexadecimal. -/
theorem hexBody?_decimal (text : List Char) :
    hexBody? (decimal width n ++ '.' :: text) = none := by
  have hletter : ∀ k < 10, digit k ≠ 'x' ∧ digit k ≠ 'X' := by decide
  match hdigits : decimal width n with
  | [] => rfl
  | [c] => exact hexBody?_of_ne c (by decide) (by decide) text
  | c :: c' :: rest =>
    obtain ⟨k, hk, rfl⟩ := mem_decimal
      (hdigits ▸ List.mem_cons_of_mem _ List.mem_cons_self : c' ∈ decimal width n)
    exact hexBody?_of_ne c (hletter k hk).1 (hletter k hk).2 _

/-- The fraction of a number is read back. -/
theorem scanMagnitude_decimal {places : ℕ} (f : ℕ) (hwidth : 0 < width) (hn : n < 10 ^ width)
    (hf : f < 10 ^ places) (hrest : ∀ c ∈ rest.head?, isSpace c = true) :
    scanMagnitude decimalRadix (decimal width n ++ '.' :: (decimal places f ++ rest)) =
      some ((n : ℚ) + f / 10 ^ places, rest) := by
  obtain ⟨htake, hdrop⟩ := takeWhile_decimal n ('.' :: (decimal places f ++ rest)) width
    (by simp)
  obtain ⟨htake', hdrop'⟩ := takeWhile_decimal f rest places
    fun c hc => (isSpace_spec (hrest c hc)).1
  have hdigit : Char.isDigit = decimalRadix.isDigit := rfl
  rw [hdigit] at htake hdrop htake' hdrop'
  have hexponent : scanExponent decimalRadix.isExponent rest = (0, rest) := by
    cases rest with
    | nil => rfl
    | cons c rest =>
      obtain ⟨-, he, hE⟩ := isSpace_spec (hrest c rfl)
      simp [scanExponent, decimalRadix, he, hE]
  have hvalue : decimalRadix.value (decimal width n ++ decimal places f) =
      n * 10 ^ places + f := by
    change digitsValue _ = _
    rw [digitsValue_append_decimal, digitsValue_decimal hn, Nat.mod_eq_of_lt hf]
  have hpow : (10 : ℚ) ^ places ≠ 0 := pow_ne_zero _ (by norm_num)
  unfold scanMagnitude
  rw [htake, hdrop, scanFraction, htake', hdrop']
  dsimp only
  rw [hexponent, if_neg (by simp [decimal_ne_nil hwidth n]), hvalue, decimal_length]
  simp only [decimalRadix, zpow_zero, mul_one, Option.some.injEq, Prod.mk.injEq, and_true]
  push_cast
  field_simp

/-- `%lf` reads a number with a fraction back. -/
theorem scanDouble_decimal {places : ℕ} (f : ℕ) (hwidth : 0 < width) (hn : n < 10 ^ width)
    (hf : f < 10 ^ places) (hrest : ∀ c ∈ rest.head?, isSpace c = true) :
    scanDouble (decimal width n ++ '.' :: (decimal places f ++ rest)) =
      some ((n : ℚ) + f / 10 ^ places, rest) := by
  unfold scanDouble
  rw [scanSign_decimal n _ hwidth]
  dsimp only
  rw [hexBody?_decimal, scanMagnitude_decimal n rest f hwidth hn hf hrest]
  rfl

end

end Scanf
