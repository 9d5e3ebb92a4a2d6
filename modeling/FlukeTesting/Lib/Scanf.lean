import FlukeTesting.Lib.Words
import Mathlib.Data.Rat.Defs
import Mathlib.Algebra.Order.Field.Rat
import Mathlib.Data.List.TakeWhile
import Mathlib.Tactic.Common

/-!
# The conversions of C's `sscanf`

Text is a list of characters without its terminating NUL. A format is a list of directives;
each successful conversion stores into a state, and the first directive that fails ends the
scan with whatever was stored before it. Numbers are exact: `%d` reads an unbounded integer
and `%lf` a decimal or hexadecimal fraction with an optional exponent. Infinities and NaNs are not
numbers here: texts that spell them are assumed not to be read by `%lf`, and do not convert.
-/

namespace Scanf

variable {S : Type*}

/-- The characters that C's `isspace` accepts in the default locale. -/
def isSpace (c : Char) : Bool := c = ' ' || ('\t' ≤ c && c ≤ '\r')

/-- A scan result: the converted value and the text after it. -/
abbrev Scanned (A : Type) := Option (A × List Char)

/-- An optional sign, with `true` for minus. -/
def scanSign : List Char → Bool × List Char
  | '-' :: rest => (true, rest)
  | '+' :: rest => (false, rest)
  | text => (false, text)

/-- The number written by a string of decimal digits. -/
def digitsValue (digits : List Char) : ℕ :=
  digits.foldl (fun value c => 10 * value + (c.toNat - '0'.toNat)) 0

/-- `%d`: blanks, an optional sign and at least one digit. -/
def scanInt (text : List Char) : Scanned ℤ :=
  let (negative, body) := scanSign (text.dropWhile isSpace)
  let digits := body.takeWhile Char.isDigit
  if digits = [] then none
  else
    let magnitude : ℤ := digitsValue digits
    some (if negative then -magnitude else magnitude, body.dropWhile Char.isDigit)

/-- How a fraction is written: the base and the value of its digits, and the letters and the base of
its exponent. -/
structure Radix where
  base : ℕ
  isDigit : Char → Bool
  value : List Char → ℕ
  isExponent : Char → Bool
  exponentBase : ℚ

/-- Decimal fractions. -/
def decimalRadix : Radix :=
  ⟨10, Char.isDigit, digitsValue, fun c => c = 'e' || c = 'E', 10⟩

/-- The value of a hexadecimal digit. -/
def hexDigit (c : Char) : Option ℕ :=
  if c.isDigit then some (c.toNat - '0'.toNat)
  else if 'a' ≤ c && c ≤ 'f' then some (c.toNat - 'a'.toNat + 10)
  else if 'A' ≤ c && c ≤ 'F' then some (c.toNat - 'A'.toNat + 10)
  else none

/-- The number written by a string of hexadecimal digits. -/
def hexValue (digits : List Char) : ℕ :=
  digits.foldl (fun value c => 16 * value + (hexDigit c).getD 0) 0

/-- Hexadecimal fractions, whose exponent is one of two. -/
def hexRadix : Radix :=
  ⟨16, fun c => (hexDigit c).isSome, hexValue, fun c => c = 'p' || c = 'P', 2⟩

/-- The digits after a point, if there is one. -/
def scanFraction (isDigit : Char → Bool) : List Char → List Char × List Char
  | '.' :: rest => (rest.takeWhile isDigit, rest.dropWhile isDigit)
  | text => ([], text)

/-- An exponent; a letter without digits after it is not part of the number. -/
def scanExponent (isExponent : Char → Bool) (text : List Char) : ℤ × List Char :=
  match text with
  | c :: rest =>
    if isExponent c then
      let (negative, body) := scanSign rest
      let digits := body.takeWhile Char.isDigit
      if digits = [] then (0, text)
      else
        let magnitude : ℤ := digitsValue digits
        (if negative then -magnitude else magnitude, body.dropWhile Char.isDigit)
    else (0, text)
  | [] => (0, [])

/-- Digits with an optional point and fraction, and an optional exponent. There must be a digit
before or after the point. -/
def scanMagnitude (radix : Radix) (body : List Char) : Scanned ℚ :=
  let whole := body.takeWhile radix.isDigit
  let (fraction, rest) := scanFraction radix.isDigit (body.dropWhile radix.isDigit)
  if whole ++ fraction = [] then none
  else
    let (exponent, rest) := scanExponent radix.isExponent rest
    let mantissa : ℚ := radix.value (whole ++ fraction) / radix.base ^ fraction.length
    some (mantissa * radix.exponentBase ^ exponent, rest)

/-- What follows the prefix of a hexadecimal number. -/
def hexBody? : List Char → Option (List Char)
  | '0' :: c :: rest => if c = 'x' || c = 'X' then some rest else none
  | _ => none

/-- `%lf`: blanks, an optional sign, and a fraction, which is hexadecimal behind `0x`. -/
def scanDouble (text : List Char) : Scanned ℚ :=
  let (negative, body) := scanSign (text.dropWhile isSpace)
  let scanned := match hexBody? body with
    | some rest => scanMagnitude hexRadix rest
    | none => scanMagnitude decimalRadix body
  scanned.map fun (magnitude, rest) => (if negative then -magnitude else magnitude, rest)

/-- `%s`: blanks, then the longest nonempty run of other characters. -/
def scanWord (text : List Char) : Scanned (List Char) :=
  let body := text.dropWhile isSpace
  let word := body.takeWhile fun c => !isSpace c
  if word = [] then none else some (word, body.dropWhile fun c => !isSpace c)

/-- One directive of a format, with the destination of its conversion. -/
inductive Directive (S : Type*)
  | literal (c : Char)
  | space
  | skipChar
  | int (store : ℤ → S → S)
  | double (store : ℚ → S → S)
  | word (store : List Char → S → S)

/-- Match the directives in order and stop at the first that fails. -/
def sscanf : List (Directive S) → List Char → S → S
  | [], _, s => s
  | .literal c :: format, text, s =>
    match text with
    | a :: rest => if a = c then sscanf format rest s else s
    | [] => s
  | .space :: format, text, s => sscanf format (text.dropWhile isSpace) s
  | .skipChar :: format, text, s =>
    match text with
    | _ :: rest => sscanf format rest s
    | [] => s
  | .int store :: format, text, s =>
    match scanInt text with
    | some (value, rest) => sscanf format rest (store value s)
    | none => s
  | .double store :: format, text, s =>
    match scanDouble text with
    | some (value, rest) => sscanf format rest (store value s)
    | none => s
  | .word store :: format, text, s =>
    match scanWord text with
    | some (value, rest) => sscanf format rest (store value s)
    | none => s

/-- A nonempty blank-free word in front of a blank or of the end converts to itself. -/
theorem scanWord_append {word rest : List Char} (hne : word ≠ [])
    (hword : ∀ c ∈ word, isSpace c = false) (hrest : ∀ c ∈ rest.head?, isSpace c = true) :
    scanWord (word ++ rest) = some (word, rest) := by
  have hskip : (word ++ rest).dropWhile isSpace = word ++ rest := by
    cases word with
    | nil => exact absurd rfl hne
    | cons a word => simp [hword a (by simp)]
  have htake : rest.takeWhile (fun c => !isSpace c) = [] := by
    cases rest with
    | nil => rfl
    | cons a rest => simp [hrest a (by simp)]
  have hdrop : rest.dropWhile (fun c => !isSpace c) = rest := by
    cases rest with
    | nil => rfl
    | cons a rest => simp [hrest a (by simp)]
  have hall : ∀ c ∈ word, (!isSpace c) = true := fun c hc => by simp [hword c hc]
  simp [scanWord, hskip, List.takeWhile_append_of_pos hall, List.dropWhile_append_of_pos hall,
    htake, hdrop, hne]

/-- A word that cannot be converted: there is none. -/
theorem words_of_scanWord_none {text : List Char} (h : scanWord text = none) :
    Words.words isSpace text = [] := by
  have hword : (text.dropWhile isSpace).takeWhile (fun c => !isSpace c) = [] := by
    by_contra hne
    simp [scanWord, hne] at h
  rw [← Words.words_dropWhile]
  cases hbody : text.dropWhile isSpace with
  | nil => rfl
  | cons c rest =>
    have hc : isSpace c = true := by simpa [hbody, List.takeWhile_cons] using hword
    have hhead := List.head_dropWhile_not isSpace (l := text) (by simp [hbody])
    simp [hbody, hc] at hhead

/-- A word that is converted is the first word of the text. -/
theorem words_of_scanWord_some {text word rest : List Char}
    (h : scanWord text = some (word, rest)) :
    Words.words isSpace text = word :: Words.words isSpace rest := by
  unfold scanWord at h
  dsimp only at h
  split at h
  · exact absurd h (by simp)
  · rename_i hne
    obtain ⟨hword, hrest⟩ := Prod.mk.inj (Option.some.inj h)
    have hbody : text.dropWhile isSpace = word ++ rest := by
      rw [← hword, ← hrest, List.takeWhile_append_dropWhile]
    have hsolid : ∀ c ∈ word, isSpace c = false := by
      intro c hc
      rw [← hword] at hc
      simpa using List.mem_takeWhile_imp hc
    let w : Words.Word isSpace := ⟨word, hword ▸ hne, hsolid⟩
    rw [← Words.words_dropWhile, hbody]
    cases rest with
    | nil => rw [List.append_nil]; exact Words.words_word w
    | cons c rest =>
      have hc : isSpace c = true := by
        have hhead := List.head_dropWhile_not (fun c => !isSpace c) (l := text.dropWhile isSpace)
          (by simp [hrest])
        simpa [hrest] using hhead
      rw [Words.words_cons_sep hc]
      exact Words.words_word_sep w hc rest

end Scanf
