import FlukeTesting.Lib.Printf
import Mathlib.Data.List.DropRight

/-!
# Reading a text line by line

A line ends behind its newline, and text behind the last newline is a line. A reader that takes one
line at a time takes the lines of the text in their order, and then nothing.
-/

namespace Lines

/-- The lines of a text, with their newlines. -/
def lines : List Char → List (List Char)
  | [] => []
  | c :: text =>
    if c = '\n' then [c] :: lines text
    else
      match lines text with
      | [] => [[c]]
      | line :: rest => (c :: line) :: rest

/-- Take a line off a text. It is empty at the end of the text. -/
def readline : List Char → List Char × List Char
  | [] => ([], [])
  | c :: text => if c = '\n' then ([c], text) else (c :: (readline text).1, (readline text).2)

/-- A line is only empty at the end. -/
theorem readline_eq_nil_iff (text : List Char) : (readline text).1 = [] ↔ text = [] := by
  cases text with
  | nil => exact iff_of_true rfl rfl
  | cons c text =>
    rw [readline]
    split <;> exact iff_of_false (List.cons_ne_nil _ _) (List.cons_ne_nil _ _)

/-- The line that is taken is the first one. -/
theorem lines_readline {text : List Char} (h : text ≠ []) :
    lines text = (readline text).1 :: lines (readline text).2 := by
  induction text with
  | nil => exact absurd rfl h
  | cons c text ih =>
    rw [lines, readline]
    by_cases hc : c = '\n'
    · rw [if_pos hc, if_pos hc]
    · rw [if_neg hc, if_neg hc]
      by_cases htext : text = []
      · subst htext
        rfl
      · rw [ih htext]

/-- The first line of a text that starts with one. -/
theorem lines_append {body : List Char} (h : '\n' ∉ body) (rest : List Char) :
    lines (body ++ '\n' :: rest) = (body ++ ['\n']) :: lines rest := by
  induction body with
  | nil => rfl
  | cons c body ih =>
    have hc : c ≠ '\n' := fun heq => h (heq ▸ List.mem_cons_self)
    rw [List.cons_append, lines, if_neg hc, ih fun hmem => h (List.mem_cons_of_mem c hmem)]
    rfl

/-- The lines of a text that is printed line by line. -/
theorem lines_unlines {rows : List (List Char)} (h : ∀ row ∈ rows, '\n' ∉ row) :
    lines (Printf.unlines rows) = rows.map (· ++ ['\n']) := by
  induction rows with
  | nil => rfl
  | cons row rows ih =>
    rw [Printf.unlines, List.flatMap_cons, List.append_assoc, List.singleton_append,
      lines_append (h row List.mem_cons_self), List.map_cons]
    exact congrArg _ (ih fun row' hrow' => h row' (List.mem_cons_of_mem row hrow'))

/-- A line has no newline but its own. -/
theorem body_of_mem_lines {text line : List Char} (h : line ∈ lines text) :
    ∃ body, '\n' ∉ body ∧ (line = body ++ ['\n'] ∨ line = body) := by
  induction text generalizing line with
  | nil => cases h
  | cons c text ih =>
    rw [lines] at h
    split at h
    · rename_i hc
      rcases List.mem_cons.mp h with rfl | hrest
      · exact ⟨[], List.not_mem_nil, Or.inl (by rw [hc]; rfl)⟩
      · exact ih hrest
    · rename_i hc
      split at h
      · rw [List.mem_singleton.mp h]
        exact ⟨[c], by simpa using Ne.symm hc, Or.inr rfl⟩
      · rename_i first rest hlines
        rcases List.mem_cons.mp h with rfl | hrest
        · obtain ⟨body, hbody, hline⟩ := ih (hlines ▸ List.mem_cons_self)
          refine ⟨c :: body, by simpa [hbody] using Ne.symm hc, hline.imp ?_ ?_⟩
          · rintro rfl
            rfl
          · rintro rfl
            rfl
        · exact ih (hlines ▸ List.mem_cons_of_mem first hrest)

/-! ## Lines without their newlines -/

/-- A line without its newline. -/
def chomp (line : List Char) : List Char := line.rdropWhile fun c => c = '\n'

/-- The lines of a text, without their newlines. -/
def records (text : List Char) : List (List Char) := (lines text).map chomp

/-- Nothing goes without a newline. -/
theorem chomp_eq_self {body : List Char} (h : '\n' ∉ body) : chomp body = body := by
  rw [chomp, List.rdropWhile_eq_self_iff]
  intro hne heq
  exact h (of_decide_eq_true heq ▸ List.getLast_mem hne)

/-- The newline of a line goes. -/
theorem chomp_append {body : List Char} (h : '\n' ∉ body) : chomp (body ++ ['\n']) = body := by
  rw [chomp, List.rdropWhile_concat_pos _ _ _ (by simp)]
  exact chomp_eq_self h

/-- The records of a text that starts with whole lines. -/
theorem records_unlines_append {rows : List (List Char)} (h : ∀ row ∈ rows, '\n' ∉ row)
    (rest : List Char) : records (Printf.unlines rows ++ rest) = rows ++ records rest := by
  induction rows with
  | nil => rfl
  | cons row rows ih =>
    have hrow := h row List.mem_cons_self
    rw [Printf.unlines, List.flatMap_cons, List.append_assoc, List.append_assoc,
      List.singleton_append, records, lines_append hrow, List.map_cons, chomp_append hrow]
    exact congrArg _ (ih fun row' hrow' => h row' (List.mem_cons_of_mem row hrow'))

/-- No newline is in a record. -/
theorem newline_not_mem_records {text record : List Char} (h : record ∈ records text) :
    '\n' ∉ record := by
  obtain ⟨line, hline, rfl⟩ := List.mem_map.mp h
  obtain ⟨body, hbody, rfl | rfl⟩ := body_of_mem_lines hline
  · rwa [chomp_append hbody]
  · rwa [chomp_eq_self hbody]

end Lines
