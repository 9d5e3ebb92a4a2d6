import FlukeTesting.PowerstatMeasuring.Collation

/-!
# What the formulas of the output refer to

A block of the output is a release with its six rows and two formula lines. The lines are numbered
from one over the whole output, and a formula is meant for the five rows of results of its own
block, in its own column.

The count `l` starts again at every test, so that the averages are right in the first table only.
The standard deviations are computed after `Average:` has been counted, and are never right.
-/

namespace FlukeTesting.PowerstatMeasuring

open Awk

/-- A block in the output, with what is before it and behind it. -/
structure PrintedBlock (out : List Line) where
  before : List Line
  rel : Text
  heading : Text
  results : List Text
  average : List Reference
  stddev : List Reference
  behind : List Line
  results_length : results.length = 5
  out_eq : out = before ++ [.text rel, .text (',' :: heading)] ++
    results.map (fun row => .text (',' :: row)) ++
    [.formulas "Average:" "average" average, .formulas "Std.Dev.:" "stdev" stddev, .text []] ++
    behind

/-- The column of a formula, when the label of its line is in column `A`. -/
def cellColumn (j : ℕ) : Char := Char.ofNat ('B'.toNat + j)

/-- Formulas refer to the five rows of results of a block, each in its own column. -/
def PrintedBlock.Refers {out : List Line} (b : PrintedBlock out) (cells : List Reference) : Prop :=
  ∀ j cell, cells[j]? = some cell →
    cell = Reference.mk (cellColumn j) (b.before.length + 3) (b.before.length + 7)

/-- All formulas of all blocks refer to the results of their own block. -/
def FormulasRight (out : List Line) : Prop :=
  ∀ b : PrintedBlock out, b.Refers b.average ∧ b.Refers b.stddev

/-- Every formula is in the column that it refers to. -/
theorem columnLetter_eq : ∀ j < 19, columnLetter (j + 1) = cellColumn j := by decide

/-- The formulas of a line are right when the count is that of the last row of results. -/
theorem PrintedBlock.refers_iff {out : List Line} (b : PrintedBlock out) (l : ℤ) :
    b.Refers (formulaCells l) ↔ l = b.before.length + 7 := by
  constructor
  · intro h
    have hfirst := h 0 ⟨columnLetter 1, l - 4, l⟩ rfl
    exact congrArg Reference.last hfirst
  · rintro rfl j cell hcell
    obtain ⟨hj, hcell⟩ := List.getElem?_eq_some_iff.mp hcell
    rw [formulaCells, List.length_map, List.length_range] at hj
    rw [← hcell, ← columnLetter_eq j hj]
    simp only [formulaCells, List.getElem_map, List.getElem_range, Reference.mk.injEq, true_and,
      and_true]
    omega

/-! ## Where a block stands -/

/-- Releases are printed behind the releases before them. -/
theorem releasesLines_append (row : Text → ℕ → Text) (releases releases' : List Text) (l : ℤ) :
    releasesLines row (releases ++ releases') l =
      releasesLines row releases l ++ releasesLines row releases' (l + 10 * releases.length) := by
  induction releases generalizing l with
  | nil => simp [releasesLines]
  | cons rel rest ih =>
    have hcount : l + 10 + 10 * (rest.length : ℤ) = l + 10 * ((rel :: rest).length : ℤ) := by
      rw [List.length_cons]
      omega
    rw [List.cons_append, releasesLines, ih, hcount, releasesLines, List.append_assoc]

/-- A release is printed with ten lines. -/
theorem releasesLines_length (row : Text → ℕ → Text) (releases : List Text) (l : ℤ) :
    (releasesLines row releases l).length = 10 * releases.length := by
  induction releases generalizing l with
  | nil => rfl
  | cons rel rest ih =>
    rw [releasesLines, List.length_append, ih, List.length_cons]
    simp only [releaseLines, List.length_append, List.length_cons, List.length_map,
      List.length_range, List.length_nil]
    omega

/-- A test is printed with three lines beside those of its releases. -/
theorem testLines_length (row : Text → ℕ → Text) (releases : List Text) (t : Text) :
    (testLines row releases t).length = 10 * releases.length + 3 := by
  simp only [testLines, List.length_append, releasesLines_length, List.length_cons,
    List.length_nil]
  omega

/-- Tests are printed with as many lines each. -/
theorem tables_length (row : Text → Text → ℕ → Text) (tests releases : List Text) :
    (tests.flatMap fun t => testLines (row t) releases t).length =
      tests.length * (10 * releases.length + 3) := by
  induction tests with
  | nil => exact (Nat.zero_mul _).symm
  | cons t rest ih =>
    rw [List.flatMap_cons, List.length_append, ih, testLines_length, List.length_cons,
      Nat.succ_mul rest.length]
    exact Nat.add_comm _ _

/-- The lines around a release in the table of a test. -/
theorem testLines_split (row : Text → ℕ → Text) (newer older : List Text) (rel t : Text) :
    testLines row (newer ++ rel :: older) t =
      [.text ("Test:  ".toList ++ t), .text []] ++ releasesLines row newer 2 ++
        releaseLines (row rel) rel (2 + 10 * newer.length) ++
        (releasesLines row older (2 + 10 * newer.length + 10) ++ [.text []]) := by
  rw [testLines, releasesLines_append, releasesLines]
  simp only [List.append_assoc]

/-- The lines of a release are a block. -/
def PrintedBlock.ofRelease {out before behind : List Line} {row : ℕ → Text} {rel : Text} {l : ℤ}
    (h : out = before ++ releaseLines row rel l ++ behind) : PrintedBlock out where
  before := before
  rel := rel
  heading := row 0
  results := (List.range 5).map fun i => row (i + 1)
  average := formulaCells (l + 7)
  stddev := formulaCells (l + 8)
  behind := behind
  results_length := rfl
  out_eq := by
    rw [h, releaseLines]
    simp [List.range_succ]

/-- The row that is printed for a test and a release. -/
def State.row (s : State) (t rel : Text) (i : ℕ) : Text := s.data t rel (some i)

/-- The lines before a release: the tables of earlier tests, and the newer releases in its own. -/
def linesBefore (s : State) (earlier newer older : List Text) (t rel : Text) : List Line :=
  (earlier.flatMap fun t => testLines (s.row t) (newer ++ rel :: older) t) ++
    ([.text ("Test:  ".toList ++ t), .text []] ++ releasesLines (s.row t) newer 2)

/-- The lines before a release are counted test by test and release by release. -/
theorem linesBefore_length (s : State) (earlier newer older : List Text) (t rel : Text) :
    (linesBefore s earlier newer older t rel).length =
      earlier.length * (10 * (newer ++ rel :: older).length + 3) + (2 + 10 * newer.length) := by
  have hown : ([Line.text ("Test:  ".toList ++ t), .text []] ++
      releasesLines (s.row t) newer 2).length = 2 + 10 * newer.length := by
    rw [List.length_append, releasesLines_length]
    rfl
  rw [linesBefore, List.length_append, tables_length, hown]

section

variable (s : State) {earlier later newer older : List Text} {t rel : Text}
  (htests : asorti s.tests = earlier ++ t :: later)
  (hreleases : (asorti s.releases).reverse = newer ++ rel :: older)

include htests hreleases

/-- The lines around a release in the output. -/
theorem finish_split : ∃ behind, s.finish = linesBefore s earlier newer older t rel ++
    releaseLines (s.row t rel) rel (2 + 10 * newer.length) ++ behind := by
  refine ⟨releasesLines (s.row t) older (2 + 10 * newer.length + 10) ++ [.text []] ++
    later.flatMap fun t => testLines (s.row t) (newer ++ rel :: older) t, ?_⟩
  have hfinish : s.finish =
      (earlier.flatMap fun t => testLines (s.row t) (newer ++ rel :: older) t) ++
        (testLines (s.row t) (newer ++ rel :: older) t ++
          later.flatMap fun t => testLines (s.row t) (newer ++ rel :: older) t) := by
    rw [finish_eq, htests, hreleases, List.flatMap_append, List.flatMap_cons]
    rfl
  rw [hfinish, testLines_split, linesBefore]
  simp only [List.append_assoc]

/-- The block of a test and a release. Its averages are right if no test is printed before, and its
standard deviations are not right. -/
theorem finish_block : ∃ b : PrintedBlock s.finish, b.rel = rel ∧
    (∀ i < 6, (b.heading :: b.results)[i]? = some (s.row t rel i)) ∧
    (b.Refers b.average ↔ earlier = []) ∧ ¬ b.Refers b.stddev := by
  obtain ⟨behind, hsplit⟩ := finish_split s htests hreleases
  let b := PrintedBlock.ofRelease hsplit
  have hbefore : b.before.length = _ := linesBefore_length s earlier newer older t rel
  have hzero : earlier.length * (10 * (newer ++ rel :: older).length + 3) = 0 ↔ earlier = [] := by
    rw [Nat.mul_eq_zero, List.length_eq_zero_iff]
    exact or_iff_left (Nat.succ_ne_zero _)
  have hone : earlier.length * (10 * (newer ++ rel :: older).length + 3) ≠ 1 := fun h =>
    absurd (Nat.eq_one_of_mul_eq_one_left h) (by omega)
  refine ⟨b, rfl, fun i hi => ?_, ?_, ?_⟩
  · have hrows : b.heading :: b.results = (List.range 6).map (s.row t rel) := rfl
    rw [hrows, List.getElem?_map, List.getElem?_range hi]
    rfl
  · rw [← hzero]
    apply (b.refers_iff _).trans
    rw [hbefore]
    omega
  · apply mt (b.refers_iff _).mp
    rw [hbefore]
    omega

end

/-! ## When the formulas are right -/

/-- Something is listed: a test and a release. -/
def State.Listed (s : State) : Prop := s.tests ≠ [] ∧ s.releases ≠ []

/-- If something is listed, a standard deviation is not right. -/
theorem State.Listed.not_formulasRight {s : State} (h : s.Listed) : ¬ FormulasRight s.finish := by
  obtain ⟨t, ht⟩ := List.exists_mem_of_ne_nil _ h.1
  obtain ⟨rel, hrel⟩ := List.exists_mem_of_ne_nil _ h.2
  obtain ⟨earlier, later, htests⟩ := List.append_of_mem (mem_asorti.mpr ht)
  obtain ⟨newer, older, hreleases⟩ :=
    List.append_of_mem (List.mem_reverse.mpr (mem_asorti.mpr hrel))
  obtain ⟨b, -, -, -, hstddev⟩ := finish_block s htests hreleases
  exact fun hright => hstddev (hright b).2

/-- A `Release:` line lists its test and its release. -/
theorem State.listed_step (s : State) {line : List Text}
    (h : line.head? = some "Release:".toList) : (s.step line).Listed := by
  rw [s.step_release h]
  exact ⟨List.ne_nil_of_mem List.mem_insert_self, List.ne_nil_of_mem List.mem_insert_self⟩

/-- No line takes away what is listed. -/
theorem State.Listed.step {s : State} (h : s.Listed) (line : List Text) :
    (s.step line).Listed := by
  by_cases hline : line.head? = some "Release:".toList
  · exact s.listed_step hline
  · obtain ⟨n, hskip | hfile⟩ := s.step_other hline
    · rw [hskip]
      exact h
    · rw [hfile]
      exact h

/-- No lines take away what is listed. -/
theorem State.Listed.run {s : State} (h : s.Listed) (lines : List Text) : (s.run lines).Listed := by
  induction lines generalizing s with
  | nil => exact h
  | cons line rest ih => exact ih (h.step (fields line))

/-- A `Release:` line lists something. -/
theorem State.listed_run {lines : List Text} {line : Text} (hmem : line ∈ lines)
    (hline : (fields line).head? = some "Release:".toList) (s : State) :
    (s.run lines).Listed := by
  obtain ⟨front, back, rfl⟩ := List.append_of_mem hmem
  rw [State.run_append]
  exact ((s.run front).listed_step hline).run back

/-- Without a `Release:` line, no test is listed. -/
theorem State.run_tests {s : State} {lines : List Text}
    (h : ∀ line ∈ lines, (fields line).head? ≠ some "Release:".toList) :
    (s.run lines).tests = s.tests := by
  induction lines generalizing s with
  | nil => rfl
  | cons line rest ih =>
    have hstep : (s.step (fields line)).tests = s.tests := by
      obtain ⟨n, hskip | hfile⟩ := s.step_other (h line List.mem_cons_self)
      · rw [hskip]
      · rw [hfile]
        rfl
    exact (ih fun l hl => h l (List.mem_cons_of_mem line hl)).trans hstep

/-- The formulas are right exactly if no line of the input is a `Release:` line, so that there are
no formulas. -/
theorem formulasRight_iff (lines : List Text) :
    FormulasRight (parseLog lines) ↔
      ∀ line ∈ lines, (fields line).head? ≠ some "Release:".toList := by
  constructor
  · intro hright line hmem hline
    exact (State.listed_run hmem hline State.initial).not_formulasRight hright
  · intro hlines b
    have hempty : parseLog lines = [] := by
      have htests : asorti State.initial.tests = [] := asorti_nil
      rw [parseLog, finish_eq, State.run_tests hlines, htests, List.flatMap_nil]
    have hblock := hempty.symm.trans b.out_eq
    simp at hblock

/-- The lines of one test under one release. -/
def cpuLines : List Text :=
  ["Release: 4.15.0, Test: --cpu 0", " User  Nice   Sys Bogos/S", " User  Nice   Sys Bogos/S",
    "  1.4   0.0   0.1   651.8", "  1.5   0.0   0.1   652.3", "  1.4   0.0   0.2   650.9",
    "  1.6   0.0   0.1   651.1", "  1.4   0.0   0.1   652.0"].map String.toList

/-- For one test and one release, a standard deviation leaves out the first row of results. -/
theorem cpuLines_not_formulasRight : ¬ FormulasRight (parseLog cpuLines) := by
  have hmem : "Release: 4.15.0, Test: --cpu 0".toList ∈ cpuLines := List.mem_cons_self
  exact (State.listed_run hmem (by decide) State.initial).not_formulasRight

end FlukeTesting.PowerstatMeasuring
