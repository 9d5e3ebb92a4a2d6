import FlukeTesting.Lib.Lines
import FlukeTesting.Lib.Search

/-!
# Pipelines of a shell script

The filters work on the lines of a text and print lines. The shell takes what a pipeline prints as a
word, without the newlines at its end.
-/

namespace Shell

open Awk Lines Printf

/-- `grep pattern`: the lines in which a text without special characters occurs. -/
def grep (pattern : String) (text : List Char) : List (List Char) :=
  (records text).filter fun l => (Search.find pattern.toList l).isSome

/-- `cut -cN-`: every line from a column on, counted from one. -/
def cut (column : ℕ) (rows : List (List Char)) : List (List Char) :=
  rows.map (List.drop (column - 1))

/-- `awk '{print $n}'` -/
def printField (n : ℕ) (rows : List (List Char)) : List (List Char) :=
  rows.map fun row => (fields row).getD (n - 1) []

/-- `$(...)` -/
def capture (rows : List (List Char)) : List Char := (unlines rows).rdropWhile fun c => c = '\n'

/-- `seq n` -/
def seq (n : ℕ) : List ℕ := (List.range n).map (· + 1)

/-- What `grep` prints are lines. -/
theorem newline_not_mem_grep {pattern : String} {text row : List Char}
    (h : row ∈ grep pattern text) : '\n' ∉ row :=
  newline_not_mem_records (List.mem_filter.mp h).1

/-- A word taken from lines ends with the last one, if that is not empty. -/
theorem capture_concat (rows : List (List Char)) {row : List Char} (hne : row ≠ [])
    (hrow : '\n' ∉ row) : capture (rows ++ [row]) = unlines rows ++ row := by
  have hunlines : unlines (rows ++ [row]) = (unlines rows ++ row) ++ ['\n'] := by
    rw [unlines_append, List.append_assoc]
    exact congrArg _ (List.append_nil _)
  rw [capture, hunlines, List.rdropWhile_concat_pos _ _ _ (by simp), List.rdropWhile_eq_self_iff]
  intro hne' heq
  rw [List.getLast_append_of_ne_nil _ hne] at heq
  exact hrow (of_decide_eq_true heq ▸ List.getLast_mem hne)

/-- A word taken from a single line. -/
theorem capture_singleton {row : List Char} (hrow : '\n' ∉ row) : capture [row] = row := by
  by_cases hne : row = []
  · subst hne
    rfl
  · exact capture_concat [] hne hrow

/-- A blank separates fields. -/
theorem fields_append_blank (front back : List Char) :
    fields (front ++ ' ' :: back) = fields front ++ fields back := by
  unfold fields
  rw [List.splitOnP_append_cons _ _ (by decide), List.filter_append]

end Shell
