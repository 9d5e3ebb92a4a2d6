import FlukeTesting.PowerstatMeasuring.ParseLog
import Mathlib.Data.List.GetD

/-!
# Blocks of measurement logs

A block of a log is a `Release:` line, two headings and five rows of results, with other lines in
front. The main rule files its second heading and its results under its test and its release, and
no other line of a log changes a row that is printed.
-/

namespace FlukeTesting.PowerstatMeasuring

open Awk

/-! ## Logs -/

/-- A field of a row of results: digits, points, signs and exponents. -/
def isNumeric (field : Text) : Bool :=
  field ≠ [] && field.all fun c => "0123456789.+-eE".toList.contains c

/-- A block of a log of the given release: lines about the runs, the `Release:` line, the heading
twice, and five rows of results. -/
structure Block (release : Text) where
  runs : List Text
  opening : Text
  words : List Text
  heading : Text
  heading' : Text
  results : List Text
  runs_test : ∀ l ∈ runs, (fields l).head? = some "Test".toList
  opening_fields : fields opening =
    "Release:".toList :: (release ++ [',']) :: "Test:".toList :: words
  heading_user : (fields heading).head? = some "User".toList
  heading_user' : (fields heading').head? = some "User".toList
  heading_end : (fields heading').getLast? = some "Bogos/S".toList
  results_length : results.length = 5
  results_numeric : ∀ l ∈ results, ∀ field ∈ fields l, isNumeric field = true

namespace Block

variable {release : Text}

/-- The lines of a block. -/
def lines (b : Block release) : List Text :=
  b.runs ++ b.opening :: b.heading :: b.heading' :: b.results

/-- The test of a block: its words with single blanks between them. -/
def test (b : Block release) : Text := [' '].intercalate b.words

/-- The rows of a block as they are to be printed: the second heading without the field `W` and with
the other ones renamed, and the results, with commas between the fields. -/
def row (b : Block release) : ℕ → Text
  | 0 => [','].intercalate (((fields b.heading').filter fun w => w ≠ "W".toList).map rename)
  | i + 1 => [','].intercalate (fields (b.results.getD i []))

end Block

/-- The log of one release: lines in front, blocks of different tests, and lines behind. -/
structure CompleteLog where
  release : Text
  preamble : List Text
  blocks : List (Block release)
  trailing : List Text
  release_ne_nil : release ≠ []
  release_noComma : ',' ∉ release
  preamble_other : ∀ l ∈ preamble, (fields l).head? ≠ some "Release:".toList
  tests_nodup : (blocks.map Block.test).Nodup
  trailing_other : ∀ l ∈ trailing, (fields l).head? ≠ some "Release:".toList

/-- The lines of a log. -/
def CompleteLog.lines (log : CompleteLog) : List Text :=
  log.preamble ++ log.blocks.flatMap Block.lines ++ log.trailing

/-- The rows of one release under one test. -/
structure Entry where
  test : Text
  release : Text
  row : ℕ → Text

/-- The entry of a block. -/
def Block.entry {release : Text} (b : Block release) : Entry := ⟨b.test, release, b.row⟩

/-- The entries of a log. -/
def CompleteLog.entries (log : CompleteLog) : List Entry := log.blocks.map Block.entry

/-- The row that the last entry for a test and a release has, or nothing. -/
def cell (entries : List Entry) (t r : Text) (i : ℕ) : Text :=
  ((entries.reverse.find? fun e => e.test = t ∧ e.release = r).map (Entry.row · i)).getD []

/-- Another entry has the row of its own test and release. -/
theorem cell_append (entries : List Entry) (e : Entry) (t r : Text) (i : ℕ) :
    cell (entries ++ [e]) t r i =
      if t = e.test ∧ r = e.release then e.row i else cell entries t r i := by
  unfold cell
  rw [List.reverse_append, List.reverse_singleton, List.singleton_append, List.find?_cons]
  by_cases h : t = e.test ∧ r = e.release
  · simp [h]
  · have hne : ¬ (e.test = t ∧ e.release = r) := fun heq => h ⟨heq.1.symm, heq.2.symm⟩
    rw [if_neg h]
    simp [hne]

/-! ## The loops over fields -/

/-- The words of a test are put together with blanks. -/
theorem joinWords_eq (words : List Text) : joinWords words = [' '].intercalate words := by
  induction words with
  | nil => rfl
  | cons w rest ih =>
    cases rest with
    | nil => simp [joinWords, List.intercalate]
    | cons w' rest =>
      rw [joinWords, if_neg (List.cons_ne_nil _ _), ih]
      simp [List.intercalate]

/-- The fields of a row whose last field stays are put together with commas. -/
theorem joinRow_eq {line : List Text} (h : ∀ w ∈ line.getLast?, w ≠ "W".toList) :
    joinRow line = [','].intercalate ((line.filter fun w => w ≠ "W".toList).map rename) := by
  induction line with
  | nil => rfl
  | cons w rest ih =>
    by_cases hend : rest = []
    · subst hend
      have hw : w ≠ "W".toList := h w rfl
      rw [joinRow, if_neg hw, List.filter_cons_of_pos (by simpa using hw)]
      simp [joinRow]
    · have hlast : (w :: rest).getLast? = rest.getLast? := by
        rw [List.getLast?_cons, List.getLast?_eq_some_getLast hend, Option.getD_some]
      have hrest := ih fun v hv => h v (hlast ▸ hv)
      by_cases hw : w = "W".toList
      · rw [joinRow, if_pos hw, hrest, List.filter_cons_of_neg (by simpa using hw)]
      · -- The last field stays, so that the row goes on after the comma.
        have hgetLast : rest.getLast hend ≠ "W".toList :=
          h _ (hlast ▸ List.getLast?_eq_some_getLast hend)
        have hstays : (rest.filter fun v => v ≠ "W".toList) ≠ [] :=
          List.ne_nil_of_mem (List.mem_filter.mpr ⟨List.getLast_mem hend, by simpa using hgetLast⟩)
        rw [joinRow, if_neg hw, if_neg hend, hrest, List.filter_cons_of_pos (by simpa using hw),
          List.map_cons, List.intercalate_cons_of_ne_nil (mt List.map_eq_nil_iff.mp hstays)]

/-- No heading is a number. -/
theorem renames_notNumeric : ∀ p ∈ renames, isNumeric p.1 = false := by decide

/-- A number is printed as it is. -/
theorem rename_numeric {field : Text} (h : isNumeric field = true) : rename field = field := by
  have hnone : renames.lookup field = none := by
    rw [List.lookup_eq_none_iff]
    intro p hp
    rw [bne_iff_ne]
    rintro rfl
    exact Bool.noConfusion (h.symm.trans (renames_notNumeric p hp))
  rw [rename, hnone, Option.getD_none]

/-- The fields of a row of numbers are put together with commas. -/
theorem joinRow_numeric {line : List Text} (h : ∀ field ∈ line, isNumeric field = true) :
    joinRow line = [','].intercalate line := by
  have hstays (field : Text) (hfield : field ∈ line) : field ≠ "W".toList := by
    rintro rfl
    exact Bool.noConfusion (h _ hfield)
  have hfilter : (line.filter fun w => w ≠ "W".toList) = line :=
    List.filter_eq_self.mpr fun field hfield => by simpa using hstays field hfield
  have hmap : line.map rename = line :=
    (List.map_congr_left fun field hfield => rename_numeric (h field hfield)).trans
      (List.map_id line)
  rw [joinRow_eq fun w hw => hstays w (List.mem_of_mem_getLast? hw), hfilter, hmap]

/-! ## The main rule, line by line -/

namespace State

/-- The lines of two files one after the other. -/
theorem run_append (s : State) (lines lines' : List Text) :
    s.run (lines ++ lines') = (s.run lines).run lines' := List.foldl_append

/-- A line that is no `Release:` line is skipped or filed. -/
theorem step_other (s : State) {line : List Text} (h : line.head? ≠ some "Release:".toList) :
    ∃ n, s.step line = { s with u := n } ∨ s.step line = { s with u := n }.file line := by
  have hdispatch (s : State) : s.dispatch line = s ∨ s.dispatch line = s.file line := by
    unfold dispatch
    split_ifs with htest hexit
    · exact .inl rfl
    · exact .inl rfl
    · exact .inr rfl
  unfold step
  split_ifs with huser
  · by_cases hfirst : s.u + 1 = 1
    · exact ⟨s.u + 1, .inl (if_pos hfirst)⟩
    · simp only [hfirst, if_false]
      exact ⟨s.u + 1, hdispatch _⟩
  · exact ⟨0, hdispatch _⟩

/-- A row of numbers is filed. -/
theorem step_numeric (s : State) {line : List Text}
    (h : ∀ field ∈ line, isNumeric field = true) : s.step line = { s with u := 0 }.file line := by
  have hhead (w : Text) (hw : isNumeric w = false) : line.head? ≠ some w := fun heq =>
    Bool.noConfusion (hw.symm.trans (h w (List.mem_of_mem_head? heq)))
  rw [step, if_neg (hhead _ (by decide)), dispatch, if_neg (hhead _ (by decide)),
    if_neg (hhead _ (by decide)), if_neg (hhead _ (by decide))]

/-- A heading behind another line that is no heading is skipped. -/
theorem step_heading {s : State} {line : List Text} (h : line.head? = some "User".toList)
    (hu : s.u = 0) : s.step line = { s with u := 1 } := by
  rw [step, if_pos h]
  simp [hu]

/-- The second of two headings is filed. -/
theorem step_heading' {s : State} {line : List Text} (h : line.head? = some "User".toList)
    (hu : s.u = 1) : s.step line = { s with u := 2 }.file line := by
  rw [step, if_pos h]
  simp only [hu, dispatch, h]
  rfl

/-- A `Release:` line is filed under. -/
theorem step_release (s : State) {line : List Text} (h : line.head? = some "Release:".toList) :
    s.step line = { s with u := 0 }.release line := by
  simp only [step, dispatch, h]
  rfl

/-- Rows are filed one behind the other, from a given index on. -/
structure Filed (k : ℕ) (rows : List Text) (s s' : State) : Prop where
  idx : s'.idx = some (k + rows.length)
  t : s'.t = s.t
  rel : s'.rel = s.rel
  releases : s'.releases = s.releases
  tests : s'.tests = s.tests
  data : ∀ t rel i, s'.data t rel (some i) =
    if t = s.t ∧ rel = s.rel ∧ k ≤ i ∧ i < k + rows.length then rows.getD (i - k) []
    else s.data t rel (some i)

/-- A line that is filed is one row. -/
theorem Filed.file {s : State} {k : ℕ} (hidx : s.idx = some k) (u : ℕ) (line : List Text) :
    Filed k [joinRow line] s ({ s with u := u }.file line) where
  idx := by simp [State.file, hidx]
  t := rfl
  rel := rfl
  releases := rfl
  tests := rfl
  data t rel i := by
    have hrow : (some i = s.idx) ↔ (k ≤ i ∧ i < k + [joinRow line].length) := by
      rw [hidx, Option.some_inj, List.length_singleton]
      omega
    by_cases h : t = s.t ∧ rel = s.rel ∧ some i = s.idx
    · have hi : i - k = 0 := by
        have := hrow.mp h.2.2
        rw [List.length_singleton] at this
        omega
      rw [if_pos ⟨h.1, h.2.1, hrow.mp h.2.2⟩, hi]
      simp only [State.file, if_pos h]
      rfl
    · rw [if_neg fun h' => h ⟨h'.1, h'.2.1, hrow.mpr h'.2.2⟩]
      simp only [State.file, if_neg h]

/-- More rows are filed behind. -/
theorem Filed.append {k : ℕ} {rows rows' : List Text} {s s' s'' : State} (h : Filed k rows s s')
    (h' : Filed (k + rows.length) rows' s' s'') : Filed k (rows ++ rows') s s'' where
  idx := by rw [h'.idx, List.length_append, Nat.add_assoc]
  t := h'.t.trans h.t
  rel := h'.rel.trans h.rel
  releases := h'.releases.trans h.releases
  tests := h'.tests.trans h.tests
  data t rel i := by
    rw [h'.data, h.data, h.t, h.rel, List.length_append]
    by_cases hplace : t = s.t ∧ rel = s.rel
    · by_cases hi : i < k + rows.length
      · have hnot : ¬ (k + rows.length ≤ i ∧ i < k + rows.length + rows'.length) := by omega
        rw [if_neg fun hc => hnot hc.2.2]
        by_cases hk : k ≤ i
        · rw [if_pos ⟨hplace.1, hplace.2, hk, hi⟩,
            if_pos ⟨hplace.1, hplace.2, hk, by omega⟩,
            List.getD_append _ _ _ _ (by omega)]
        · rw [if_neg fun hc => hk hc.2.2.1, if_neg fun hc => hk hc.2.2.1]
      · by_cases hi' : i < k + rows.length + rows'.length
        · rw [if_pos ⟨hplace.1, hplace.2, by omega, hi'⟩,
            if_pos ⟨hplace.1, hplace.2, by omega, by omega⟩,
            List.getD_append_right _ _ _ _ (by omega)]
          congr 1
          omega
        · rw [if_neg fun hc => hi' hc.2.2.2, if_neg fun hc => hi hc.2.2.2,
            if_neg fun hc => hi' (by have := hc.2.2.2; omega)]
    · rw [if_neg fun hc => hplace ⟨hc.1, hc.2.1⟩, if_neg fun hc => hplace ⟨hc.1, hc.2.1⟩,
        if_neg fun hc => hplace ⟨hc.1, hc.2.1⟩]

/-- Rows of numbers are filed one behind the other. -/
theorem filed_run {s : State} {k : ℕ} {lines : List Text} (hidx : s.idx = some k)
    (h : ∀ l ∈ lines, ∀ field ∈ fields l, isNumeric field = true) :
    Filed k (lines.map fun l => [','].intercalate (fields l)) s (s.run lines) := by
  induction lines generalizing s k with
  | nil =>
    refine ⟨hidx, rfl, rfl, rfl, rfl, fun t rel i => ?_⟩
    exact (if_neg fun hc => absurd hc.2.2.2 (by simpa using hc.2.2.1)).symm
  | cons l rest ih =>
    have hl := h l List.mem_cons_self
    have hfirst := Filed.file hidx 0 (fields l)
    rw [joinRow_numeric hl, ← step_numeric s hl] at hfirst
    exact hfirst.append (ih hfirst.idx fun l' hl' => h l' (List.mem_cons_of_mem l hl'))

end State

/-! ## Blocks -/

/-- What the arrays show of some entries: their tests, their releases and their rows. The next line
is no row of the last block any more. -/
structure Shows (entries : List Entry) (s : State) : Prop where
  settled : s.rel = [] ∨ ∃ i, s.idx = some i ∧ 6 ≤ i
  mem_tests : ∀ t, t ∈ s.tests ↔ ∃ e ∈ entries, e.test = t
  mem_releases : ∀ r, r ∈ s.releases ↔ ∃ e ∈ entries, e.release = r
  rows : ∀ t r i, r ≠ [] → i < 6 → s.data t r (some i) = cell entries t r i

/-- Before the first line, no entry is shown. -/
theorem shows_initial : Shows [] State.initial where
  settled := .inl rfl
  mem_tests _ := by simp [State.initial]
  mem_releases _ := by simp [State.initial]
  rows _ _ _ _ _ := rfl

/-- A line that is no `Release:` line changes nothing that is shown. -/
theorem Shows.step {entries : List Entry} {s : State} (h : Shows entries s) {line : List Text}
    (hline : line.head? ≠ some "Release:".toList) : Shows entries (s.step line) := by
  obtain ⟨n, hskip | hfile⟩ := s.step_other hline
  · rw [hskip]
    exact ⟨h.settled, h.mem_tests, h.mem_releases, h.rows⟩
  · rw [hfile]
    refine ⟨?_, h.mem_tests, h.mem_releases, fun t r i hr hi => ?_⟩
    · apply h.settled.imp id
      rintro ⟨i, hidx, hi⟩
      exact ⟨i + 1, by simp [State.file, hidx], by omega⟩
    · -- The line is filed under no release, or behind the six rows.
      have hplace : ¬ (t = s.t ∧ r = s.rel ∧ some i = s.idx) := by
        rintro ⟨-, hrel, hidx⟩
        obtain hnone | ⟨i', hidx', hi'⟩ := h.settled
        · exact hr (hrel.trans hnone)
        · have : i = i' := Option.some_inj.mp (hidx.trans hidx')
          omega
      rw [← h.rows t r i hr hi]
      exact if_neg hplace

/-- Lines that are no `Release:` lines change nothing that is shown. -/
theorem Shows.run {entries : List Entry} {s : State} (h : Shows entries s) {lines : List Text}
    (hlines : ∀ l ∈ lines, (fields l).head? ≠ some "Release:".toList) :
    Shows entries (s.run lines) := by
  induction lines generalizing s with
  | nil => exact h
  | cons l rest ih =>
    exact ih (h.step (hlines l List.mem_cons_self)) fun l' hl' =>
      hlines l' (List.mem_cons_of_mem l hl')

namespace Block

variable {release : Text}

/-- The state behind the first heading of a block. -/
def opened (b : Block release) (s : State) : State :=
  { s with
    u := 1
    rel := release
    t := b.test
    idx := some 0
    releases := s.releases.insert release
    tests := s.tests.insert b.test }

/-- The `Release:` line of a block leads to its test and its release, and its first heading is
skipped. -/
theorem step_opening (b : Block release) (hcomma : ',' ∉ release) (s : State) :
    (s.step (fields b.opening)).step (fields b.heading) = b.opened s := by
  have hopening : (fields b.opening).head? = some "Release:".toList := by
    rw [b.opening_fields]
    rfl
  obtain ⟨hindex, hleading⟩ := leading_index hcomma []
  rw [State.step_release s hopening, State.step_heading b.heading_user rfl]
  simp only [State.release, b.opening_fields, List.getD_cons_succ, List.getD_cons_zero,
    List.drop_succ_cons, List.drop_zero, if_pos hindex, hleading, joinWords_eq]
  rfl

/-- The rows that a block files. -/
def rows (b : Block release) : List Text :=
  joinRow (fields b.heading') :: b.results.map fun l => [','].intercalate (fields l)

/-- A block files six rows. -/
theorem rows_length (b : Block release) : b.rows.length = 6 := by
  rw [rows, List.length_cons, List.length_map, b.results_length]

/-- The rows that a block files are those to be printed. -/
theorem rows_getD (b : Block release) (i : ℕ) : b.rows.getD i [] = b.row i := by
  cases i with
  | zero =>
    rw [rows, List.getD_cons_zero, row, joinRow_eq]
    intro w hw
    have hend : w = "Bogos/S".toList := Option.some_inj.mp (hw.symm.trans b.heading_end)
    rw [hend]
    decide
  | succ i =>
    rw [rows, List.getD_cons_succ, row]
    exact List.getD_map b.results [] fun l => [','].intercalate (fields l)

/-- The rows of a block are filed under its test and its release. -/
theorem filed (b : Block release) (hcomma : ',' ∉ release) (s : State) :
    State.Filed 0 b.rows (b.opened s)
      (s.run (b.opening :: b.heading :: b.heading' :: b.results)) := by
  change State.Filed 0 b.rows (b.opened s)
    ((((s.step (fields b.opening)).step (fields b.heading)).step (fields b.heading')).run b.results)
  rw [b.step_opening hcomma, State.step_heading' b.heading_user' rfl]
  have hheading := State.Filed.file (s := b.opened s) rfl 2 (fields b.heading')
  exact hheading.append (State.filed_run hheading.idx b.results_numeric)

/-- Behind a block, its entry is shown as well. -/
theorem shows (b : Block release) (hcomma : ',' ∉ release) {entries : List Entry} {s : State}
    (h : Shows entries s) : Shows (entries ++ [b.entry]) (s.run b.lines) := by
  have hruns := h.run fun l hl => (b.runs_test l hl).trans_ne (by decide)
  have hfiled := b.filed hcomma (s.run b.runs)
  rw [lines, State.run_append]
  refine ⟨.inr ⟨6, ?_, le_rfl⟩, fun t => ?_, fun r => ?_, fun t r i hr hi => ?_⟩
  · rw [hfiled.idx, b.rows_length]
  · have hmem : t ∈ (s.run b.runs).tests.insert b.test ↔
        t = b.test ∨ ∃ e ∈ entries, e.test = t := by
      rw [List.mem_insert_iff, hruns.mem_tests]
    rw [hfiled.tests, opened, hmem]
    simp [entry, or_comm, eq_comm]
  · have hmem : r ∈ (s.run b.runs).releases.insert release ↔
        r = release ∨ ∃ e ∈ entries, e.release = r := by
      rw [List.mem_insert_iff, hruns.mem_releases]
    rw [hfiled.releases, opened, hmem]
    simp [entry, or_comm, eq_comm]
  · have hrow := hruns.rows t r i hr hi
    rw [hfiled.data, b.rows_length, b.rows_getD, cell_append]
    by_cases hplace : t = b.test ∧ r = release
    · exact (if_pos ⟨hplace.1, hplace.2, Nat.zero_le i, by omega⟩).trans (if_pos hplace).symm
    · exact ((if_neg fun hc => hplace ⟨hc.1, hc.2.1⟩).trans hrow).trans (if_neg hplace).symm

end Block

end FlukeTesting.PowerstatMeasuring
