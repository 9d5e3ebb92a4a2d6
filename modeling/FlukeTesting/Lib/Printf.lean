import FlukeTesting.Lib.Awk
import FlukeTesting.Lib.Decimal

/-!
# Numbers that `printf` puts into columns

A conversion turns a number into a word and fills it up with blanks on the left to the width of its
field. Reading the words of a printed line gives the numbers back as they were converted, whatever
the widths.
-/

namespace Printf

open Awk

/-- Fill a word up to the width of its field. -/
def pad (width : ℕ) (w : Word) : List Char :=
  blanks (width - w.chars.length) ++ w.chars

/-- Digits are a word. -/
theorem toDigits_solid (n : ℕ) : ∀ c ∈ Nat.toDigits 10 n, isBlank c = false := by
  intro c hc
  have hdigit : c.isDigit = true := Nat.isDigit_of_mem_toDigits (by decide) (by decide) hc
  rw [isBlank, Bool.or_eq_false_iff, Bool.or_eq_false_iff]
  refine ⟨⟨?_, ?_⟩, ?_⟩
  all_goals
    rw [decide_eq_false_iff_not]
    rintro rfl
    exact absurd hdigit (by decide)

/-- The sign of a number in front of the word of its magnitude. -/
def signed (negative : Bool) (w : Word) : Word where
  chars := if negative then '-' :: w.chars else w.chars
  ne_nil := by
    cases negative with
    | true => exact List.cons_ne_nil _ _
    | false => exact w.ne_nil
  solid := by
    cases negative with
    | true => exact List.forall_mem_cons.mpr ⟨rfl, w.solid⟩
    | false => exact w.solid

/-- `%d` -/
def decimal (n : ℤ) : Word :=
  signed (n < 0) ⟨Nat.toDigits 10 n.natAbs, Nat.toDigits_ne_nil, toDigits_solid n.natAbs⟩

/-- `%f`: the word of a number with so many digits behind the point. -/
abbrev FloatFormat (K : Type*) := ℕ → K → Word

/-- The quotient of two numbers, rounded to the nearest number, and to an even one in a tie. -/
def roundDiv (a d : ℕ) : ℕ :=
  let q := a / d
  let r := a % d
  if 2 * r < d then q else if d < 2 * r then q + 1 else q + q % 2

/-- The digits of a fraction are a word. -/
theorem point_solid (precision n : ℕ) : ∀ c ∈ '.' :: Scanf.decimal precision n,
    isBlank c = false := by
  rw [List.forall_mem_cons]
  refine ⟨rfl, fun c hc => ?_⟩
  obtain ⟨k, hk, rfl⟩ := Scanf.mem_decimal hc
  have hdigits : ∀ k < 10, isBlank (Scanf.digit k) = false := by decide
  exact hdigits k hk

/-- `%f` of a rational number. -/
def fixed : FloatFormat ℚ := fun precision x =>
  let n := roundDiv (x.num.natAbs * 10 ^ precision) x.den
  signed (x < 0) {
    chars := Nat.toDigits 10 (n / 10 ^ precision) ++
      if precision = 0 then [] else '.' :: Scanf.decimal precision (n % 10 ^ precision)
    ne_nil := List.append_ne_nil_of_left_ne_nil Nat.toDigits_ne_nil _
    solid := by
      intro c hc
      rcases List.mem_append.mp hc with hfront | hpoint
      · exact toDigits_solid _ c hfront
      · split at hpoint
        · exact absurd hpoint List.not_mem_nil
        · exact point_solid _ _ c hpoint }

example : pad 8 (fixed 4 (-5 / 32)) = " -0.1562".toList := by decide +kernel

/-- The blanks in front of a padded word do not count. -/
theorem fields_pad_append (width : ℕ) (w : Word) (rest : List Char) :
    fields (pad width w ++ rest) = fields (w.chars ++ rest) := by
  rw [pad, List.append_assoc, fields_blanks]

/-- A padded word alone is its only field. -/
theorem fields_pad (width : ℕ) (w : Word) : fields (pad width w) = [w.chars] := by
  rw [pad, fields_blanks, fields_word]

/-- A padded word in front of spaces is the first field. -/
theorem fields_pad_blanks (width : ℕ) (w : Word) {n : ℕ} (h : n ≠ 0) (rest : List Char) :
    fields (pad width w ++ (blanks n ++ rest)) = w.chars :: fields rest := by
  rw [fields_pad_append, fields_word_blanks w h]

/-- Padding puts only blanks in front of the word. -/
theorem mem_pad {width : ℕ} {w : Word} {c : Char} (h : c ∈ pad width w) :
    c = ' ' ∨ isBlank c = false := by
  rcases List.mem_append.mp h with hblank | hword
  · exact Or.inl (List.eq_of_mem_replicate hblank)
  · exact Or.inr (w.solid c hword)

/-- No tab and no newline is in a padded word. -/
theorem not_mem_pad {c : Char} (hspace : c ≠ ' ') (hblank : isBlank c = true) (width : ℕ)
    (w : Word) : c ∉ pad width w := by
  intro h
  rcases mem_pad h with rfl | hsolid
  · exact hspace rfl
  · exact Bool.false_ne_true (hsolid.symm.trans hblank)

/-- No newline is in a padded word. -/
@[simp] theorem newline_not_mem_pad (width : ℕ) (w : Word) : '\n' ∉ pad width w :=
  not_mem_pad (by decide) (by decide) width w

/-- No tab is in a padded word. -/
@[simp] theorem tab_not_mem_pad (width : ℕ) (w : Word) : '\t' ∉ pad width w :=
  not_mem_pad (by decide) (by decide) width w

/-- A blank that is not a space is not among spaces. -/
theorem not_mem_blanks {c : Char} (h : c ≠ ' ') (n : ℕ) : c ∉ blanks n :=
  fun hmem => h (List.eq_of_mem_replicate hmem)

/-! ## Lines -/

/-- Lines as they are printed, each with a newline behind it. -/
def unlines (ls : List (List Char)) : List Char := ls.flatMap fun l => l ++ ['\n']

/-- Lines are printed one after the other. -/
theorem unlines_append (ls ls' : List (List Char)) :
    unlines (ls ++ ls') = unlines ls ++ unlines ls' := List.flatMap_append

/-- A loop that prints lines. -/
theorem flatMap_unlines {A : Type*} (l : List A) (f : A → List (List Char)) :
    (l.flatMap fun a => unlines (f a)) = unlines (l.flatMap f) := List.flatMap_assoc.symm

/-- The lines of a text that are not blank. -/
def contentLines (text : List Char) : List (List Char) :=
  (text.splitOn '\n').filter fun l => l.any fun c => !isBlank c

/-- A line that is not blank. -/
structure IsLine (l : List Char) : Prop where
  noNewline : '\n' ∉ l
  content : ∃ c ∈ l, isBlank c = false

/-- A word at the start of a line. -/
theorem isLine_word_append (w : Word) {rest : List Char} (h : '\n' ∉ rest) :
    IsLine (w.chars ++ rest) := by
  obtain ⟨c, chars, hchars⟩ := List.exists_cons_of_ne_nil w.ne_nil
  have hc : c ∈ w.chars := hchars ▸ List.mem_cons_self
  refine ⟨fun hmem => ?_, c, List.mem_append_left rest hc, w.solid c hc⟩
  rcases List.mem_append.mp hmem with hword | hrest
  · exact Bool.false_ne_true ((w.solid _ hword).symm.trans rfl)
  · exact h hrest

/-- Lines that are not blank are found in the text that is printed from them. -/
theorem contentLines_unlines {ls : List (List Char)} (h : ∀ l ∈ ls, IsLine l) (rest : List Char) :
    contentLines (unlines ls ++ rest) = ls ++ contentLines rest := by
  induction ls with
  | nil => rfl
  | cons l ls ih =>
    obtain ⟨hnewline, c, hc, hsolid⟩ := h l List.mem_cons_self
    have hsplit : (unlines (l :: ls) ++ rest).splitOn '\n' =
        l :: (unlines ls ++ rest).splitOn '\n' := by
      rw [unlines, List.flatMap_cons, List.append_assoc, List.append_assoc, List.singleton_append]
      exact List.splitOn_append_cons_self_of_not_mem hnewline _
    have hcontent : (l.any fun c => !isBlank c) = true :=
      List.any_eq_true.mpr ⟨c, hc, by rw [hsolid]; rfl⟩
    rw [contentLines, hsplit, List.filter_cons, if_pos hcontent, List.cons_append]
    exact congrArg (l :: ·) (ih fun l' hl' => h l' (List.mem_cons_of_mem l hl'))

/-- Newlines alone are no lines. -/
theorem contentLines_newlines (n : ℕ) : contentLines (List.replicate n '\n') = [] := by
  induction n with
  | zero => rfl
  | succ n ih =>
    have hsplit : (List.replicate (n + 1) '\n').splitOn '\n' =
        [] :: (List.replicate n '\n').splitOn '\n' :=
      List.splitOn_append_cons_self_of_not_mem List.not_mem_nil _
    rw [contentLines, hsplit, List.filter_cons_of_neg (by simp)]
    exact ih

end Printf
