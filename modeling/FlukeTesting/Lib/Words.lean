import Mathlib.Data.Char
import Mathlib.Data.List.TakeWhile
import Mathlib.Tactic.Common

/-!
# The words of a text

The words of a text are its longest runs of characters that do not separate words. They are found
one by one from the front, each between two separators or at an end of the text.
-/

namespace Words

variable {sep : Char → Bool}

/-- A word: it is not empty, and no character in it separates words. -/
structure Word (sep : Char → Bool) where
  chars : List Char
  ne_nil : chars ≠ []
  solid : ∀ c ∈ chars, sep c = false

/-- The words of a text in their order. -/
def words (sep : Char → Bool) (text : List Char) : List (List Char) :=
  (text.splitOnP sep).filter fun w => w ≠ []

/-- A separator in front of a text does not count. -/
theorem words_cons_sep {c : Char} (hc : sep c = true) (rest : List Char) :
    words sep (c :: rest) = words sep rest := by
  have hsplit : (c :: rest).splitOnP sep = [] :: rest.splitOnP sep := by
    rw [List.splitOnP_cons_eq_if_modifyHead, if_pos hc]
  rw [words, hsplit, List.filter_cons_of_neg (by simp), words]

/-- A word is its only word. -/
theorem words_word (w : Word sep) : words sep w.chars = [w.chars] := by
  rw [words, List.splitOnP_eq_singleton w.solid]
  simp [w.ne_nil]

/-- A word in front of a separator is the first word. -/
theorem words_word_sep (w : Word sep) {c : Char} (hc : sep c = true) (rest : List Char) :
    words sep (w.chars ++ c :: rest) = w.chars :: words sep rest := by
  rw [words, List.splitOnP_append_cons_of_forall_mem w.solid c hc]
  simp [words, w.ne_nil]

/-- Separators in front of a text do not count. -/
theorem words_dropWhile (text : List Char) : words sep (text.dropWhile sep) = words sep text := by
  induction text with
  | nil => rfl
  | cons c text ih =>
    by_cases hc : sep c = true
    · rw [List.dropWhile_cons_of_pos hc, ih, words_cons_sep hc]
    · rw [List.dropWhile_cons_of_neg hc]

end Words
