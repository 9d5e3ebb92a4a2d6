import FlukeTesting.Lib.Printf
import FlukeTesting.Statstool.Analyse

/-!
# The tables that are read out of a report

A report without tags is a table, once in columns filled up with blanks and once with tabs for a
spreadsheet. The plain report reads back as the table. The tabbed one has a newline in front of the
deviation of a run, so that each run becomes two records, and the second one has the deviation in
the column of the integral. The two agree as long as no run has a record of its own.
-/

namespace FlukeTesting.Statstool

open Awk Printf

/-- What is printed for one item of a format. -/
def Piece.render {K : Type*} (format : FloatFormat K) : Piece K → Text
  | .text literal => literal
  | .str value => value
  | .int width value => pad width (decimal value)
  | .float width precision value => pad width (format precision value)

/-- A printed text. -/
def render {K : Type*} (format : FloatFormat K) (printed : List (Piece K)) : Text :=
  printed.flatMap (Piece.render format)

/-- Texts are printed one after the other. -/
theorem render_append {K : Type*} (format : FloatFormat K) (printed printed' : List (Piece K)) :
    render format (printed ++ printed') = render format printed ++ render format printed' :=
  List.flatMap_append

/-! ## Reading a report -/

/-- A record: the words of its label and of its values. -/
structure Record where
  label : List Text
  value : Stat → List Text

/-- The name of a column. -/
def Stat.title : Stat → Text
  | .integral => "Integral".toList
  | .duration => "Duration".toList
  | .averageCurrent => "Average".toList
  | .stdDev => "Std.Dev".toList

/-- The column that a heading names; the name may end in a dot. -/
def Stat.column (j : Stat) (titles : List Text) : ℕ := titles.findIdx j.title.isPrefixOf

/-- A spreadsheet: cells between tabs, below a line with the names of the columns and one with
their units. -/
def readTabbed (text : Text) : List Record :=
  match contentLines text with
  | heading :: _ :: rows => rows.map fun row =>
    { label := fields ((row.splitOn '\t').getD 0 [])
      value := fun j => fields ((row.splitOn '\t').getD (j.column (heading.splitOn '\t')) []) }
  | _ => []

/-- How many words of a row of the plain report are its label. -/
def labelWords (words : List Text) : ℕ := if words.head? = some "Test".toList then 3 else 1

/-- The lines that are not rules of dashes. -/
def withoutRules (ls : List Text) : List Text := ls.filter fun l => l.head? ≠ some '-'

/-- Rules are left out line by line. -/
theorem withoutRules_append (ls ls' : List Text) :
    withoutRules (ls ++ ls') = withoutRules ls ++ withoutRules ls' := List.filter_append ls ls'

/-- A row stays. -/
theorem withoutRules_cons {l : Text} (h : l.head? ≠ some '-') (ls : List Text) :
    withoutRules (l :: ls) = l :: withoutRules ls := List.filter_cons_of_pos (by simpa using h)

/-- A reader of the plain report: words between blanks, rules of dashes left out. -/
def readPlain (text : Text) : List Record :=
  match withoutRules (contentLines text) with
  | heading :: _ :: rows => rows.map fun row =>
    { label := (fields row).take (labelWords (fields row))
      value := fun j =>
        (((fields row).drop (labelWords (fields row)))[j.column (fields heading)]?).toList }
  | _ => []

/-! ## The headings -/

/-- The heading of the tabbed report. -/
def tabbedHeading : List Text :=
  ["\tIntegral\tDuration\tAverage\tStd.Dev".toList, "\t\t(Secs)\t(mA)\t(mA)".toList]

/-- The heading of the plain report. -/
def plainHeading : List Text :=
  ["                Integral  Duration   Average   Std.Dev.".toList,
    "                           (Secs)     (mA)       (mA)".toList]

/-- The heading, if there is one. -/
def headingIf (opts : Opts) (heading : List Text) : List Text :=
  if opts.statsPerTest || opts.statsSummary then heading else []

/-! The literals of the formats that are printed in several places. -/

theorem newline_toList : "\n".toList = ['\n'] := String.toList_ofList

theorem newlines_toList : "\n\n".toList = ['\n', '\n'] := String.toList_ofList

theorem tab_toList : "\t".toList = ['\t'] := String.toList_ofList

theorem two_blanks_toList : "  ".toList = blanks 2 := String.toList_ofList

theorem four_blanks_toList : "    ".toList = blanks 4 := String.toList_ofList

/-- What the tabbed report prints above its rows. -/
theorem render_printHeading_tabbed {K : Type*} (format : FloatFormat K) (opts : Opts) :
    render format (printHeading { opts with taggedOutput := false, tabbedColumns := true }) =
      unlines (headingIf opts tabbedHeading) := by
  have hheading : "\tIntegral\tDuration\tAverage\tStd.Dev\n".toList ++
      "\t\t(Secs)\t(mA)\t(mA)\n".toList = unlines tabbedHeading := by
    change ("\tIntegral\tDuration\tAverage\tStd.Dev" ++ "\n").toList ++
      ("\t\t(Secs)\t(mA)\t(mA)" ++ "\n").toList = _
    simp only [String.toList_append, newline_toList, unlines, tabbedHeading, List.flatMap_cons,
      List.flatMap_nil, List.append_nil]
  unfold printHeading headingIf
  cases opts.statsPerTest || opts.statsSummary with
  | false => rfl
  | true =>
    simp only [render, lit, Piece.render, ← hheading, List.flatMap_cons, List.flatMap_nil,
      List.append_nil, if_true, Bool.not_false, Bool.and_self]

/-- What the plain report prints above its rows. -/
theorem render_printHeading_plain {K : Type*} (format : FloatFormat K) (opts : Opts) :
    render format (printHeading { opts with taggedOutput := false, tabbedColumns := false }) =
      unlines (headingIf opts plainHeading) := by
  have hheading : "                Integral  Duration   Average   Std.Dev.\n".toList ++
      "                           (Secs)     (mA)       (mA)\n".toList = unlines plainHeading := by
    change ("                Integral  Duration   Average   Std.Dev." ++ "\n").toList ++
      ("                           (Secs)     (mA)       (mA)" ++ "\n").toList = _
    simp only [String.toList_append, newline_toList, unlines, plainHeading, List.flatMap_cons,
      List.flatMap_nil, List.append_nil]
  unfold printHeading headingIf
  cases opts.statsPerTest || opts.statsSummary with
  | false => rfl
  | true =>
    simp only [render, lit, Piece.render, ← hheading, List.flatMap_cons, List.flatMap_nil,
      List.append_nil, if_true, Bool.not_false, Bool.and_self, Bool.false_eq_true, if_false]

/-! ## The table -/

section

variable {K : Type*} [Field K] (format : FloatFormat K)

/-- The word of a value; currents are printed in milliamperes. -/
def Stat.word (j : Stat) (value : K) : Word :=
  match j with
  | .integral => format 4 value
  | .duration => format 3 value
  | .averageCurrent => format 4 ((1000 : ℕ) * value)
  | .stdDev => format 4 ((1000 : ℕ) * value)

/-- The record of a run. -/
def runRecord (r : RunStats K) (i : ℕ) : Record where
  label := ["Test".toList, "run".toList, (decimal (i + 1)).chars]
  value := fun j => [(j.word format (r.stats j)).chars]

/-- A record without a deviation. -/
def shortRecord (label : List Text) (stats : Stat → K) : Record where
  label := label
  value := fun j => if j = .stdDev then [] else [(j.word format (stats j)).chars]

/-- The records of the summary. -/
def summaryRecords (s : Summary K) : List Record :=
  [shortRecord format ["Average".toList] s.average, shortRecord format ["Std.Dev.".toList] s.stddev]

/-- The table of an analysis: a record for each run, and two of the summary. -/
def table (opts : Opts) (a : Analysis K) : List Record :=
  (a.perRun.zipIdx.flatMap fun p =>
    if opts.statsPerTest then [runRecord format p.1 p.2] else []) ++
  a.summary.elim [] (summaryRecords format)

/-- The plain report. -/
def plainReport (opts : Opts) (sqrt : K → K) (data : List (Slot K)) : Text :=
  render format
    (dataAnalyse { opts with taggedOutput := false, tabbedColumns := false } sqrt data).printed

/-- The tabbed report. -/
def tabbedReport (opts : Opts) (sqrt : K → K) (data : List (Slot K)) : Text :=
  render format
    (dataAnalyse { opts with taggedOutput := false, tabbedColumns := true } sqrt data).printed

/-- Both reports carry the same table, the one of the analysis. -/
def SameTable (opts : Opts) (sqrt : K → K) (data : List (Slot K)) : Prop :=
  readPlain (plainReport format opts sqrt data) = table format opts (dataAnalyse opts sqrt data) ∧
    readTabbed (tabbedReport format opts sqrt data) = readPlain (plainReport format opts sqrt data)

/-! ## The rows of the plain report -/

/-- A word of a label. -/
def labelTest : Word := ⟨['T', 'e', 's', 't'], List.cons_ne_nil _ _, by simp [isBlank]⟩

/-- A word of a label. -/
def labelRun : Word := ⟨['r', 'u', 'n'], List.cons_ne_nil _ _, by simp [isBlank]⟩

/-- The label of the average. -/
def labelAverage : Word := ⟨['A', 'v', 'e', 'r', 'a', 'g', 'e'], List.cons_ne_nil _ _, by simp [isBlank]⟩

/-- The label of the deviation. -/
def labelStdDev : Word := ⟨['S', 't', 'd', '.', 'D', 'e', 'v', '.'], List.cons_ne_nil _ _, by simp [isBlank]⟩

/-- The label of a run. -/
def runLabel (i : ℕ) : Text :=
  labelTest.chars ++ (blanks 1 ++ (labelRun.chars ++ (blanks 1 ++ pad 2 (decimal (i + 1)))))

/-- The values of a row of the plain report without its deviation. -/
def plainValues (stats : Stat → K) : Text :=
  pad 8 (Stat.integral.word format (stats .integral)) ++ (blanks 4 ++
    (pad 7 (Stat.duration.word format (stats .duration)) ++ (blanks 2 ++
      pad 8 (Stat.averageCurrent.word format (stats .averageCurrent)))))

/-- The row of a run in the plain report. -/
def plainRow (r : RunStats K) (i : ℕ) : Text :=
  runLabel i ++ (blanks 5 ++ (plainValues format r.stats ++ (blanks 2 ++
    pad 8 (Stat.stdDev.word format (r.stats .stdDev)))))

/-- A row of the summary in the plain report. -/
def plainSummaryRow (label : Word) (gap : ℕ) (stats : Stat → K) : Text :=
  label.chars ++ (blanks gap ++ plainValues format stats)

/-- The words of the values of a row. -/
theorem fields_plainValues (stats : Stat → K) (rest : Text) :
    fields (plainValues format stats ++ rest) =
      (Stat.integral.word format (stats .integral)).chars ::
        (Stat.duration.word format (stats .duration)).chars ::
          fields ((Stat.averageCurrent.word format (stats .averageCurrent)).chars ++ rest) := by
  simp only [plainValues, List.append_assoc]
  rw [fields_pad_blanks 8 _ (by decide), fields_pad_blanks 7 _ (by decide), fields_pad_append]

/-- The words of the row of a run. -/
theorem fields_plainRow (r : RunStats K) (i : ℕ) :
    fields (plainRow format r i) =
      labelTest.chars :: labelRun.chars :: (decimal (i + 1)).chars ::
        Stat.all.map fun j => (j.word format (r.stats j)).chars := by
  simp only [plainRow, runLabel, List.append_assoc]
  rw [fields_word_blanks labelTest (by decide), fields_word_blanks labelRun (by decide),
    fields_pad_blanks 2 _ (by decide), fields_plainValues, fields_word_blanks _ (by decide),
    fields_pad]
  rfl

/-- The words of a row of the summary. -/
theorem fields_plainSummaryRow (label : Word) {gap : ℕ} (hgap : gap ≠ 0) (stats : Stat → K) :
    fields (plainSummaryRow format label gap stats) =
      label.chars :: [Stat.integral, .duration, .averageCurrent].map fun j =>
        (j.word format (stats j)).chars := by
  rw [plainSummaryRow, fields_word_blanks label hgap,
    ← List.append_nil (plainValues format stats), fields_plainValues, List.append_nil, fields_word]
  rfl

/-! ## The rows of the tabbed report -/

/-- A row of the tabbed report. -/
def tabbedRow (label : Text) (stats : Stat → K) : Text :=
  label ++ '\t' :: (pad 8 (Stat.integral.word format (stats .integral)) ++
    '\t' :: (pad 7 (Stat.duration.word format (stats .duration)) ++
      '\t' :: pad 8 (Stat.averageCurrent.word format (stats .averageCurrent))))

/-- The row of a deviation, behind the row of its run. -/
def deviationRow (stats : Stat → K) : Text :=
  '\t' :: pad 8 (Stat.stdDev.word format (stats .stdDev))

/-- The cells of a row. -/
theorem cells_tabbedRow {label : Text} (h : '\t' ∉ label) (stats : Stat → K) :
    (tabbedRow format label stats).splitOn '\t' =
      [label, pad 8 (Stat.integral.word format (stats .integral)),
        pad 7 (Stat.duration.word format (stats .duration)),
        pad 8 (Stat.averageCurrent.word format (stats .averageCurrent))] := by
  rw [tabbedRow, List.splitOn_append_cons_self_of_not_mem h,
    List.splitOn_append_cons_self_of_not_mem (tab_not_mem_pad 8 _),
    List.splitOn_append_cons_self_of_not_mem (tab_not_mem_pad 7 _),
    List.splitOn_eq_singleton (tab_not_mem_pad 8 _)]

/-- The cells of the row of a deviation: it is in the column of the integral. -/
theorem cells_deviationRow (stats : Stat → K) :
    (deviationRow format stats).splitOn '\t' =
      [[], pad 8 (Stat.stdDev.word format (stats .stdDev))] := by
  have htab : '\t' ∉ pad 8 (Stat.stdDev.word format (stats .stdDev)) :=
    tab_not_mem_pad 8 _
  have hcells := List.splitOn_append_cons_self_of_not_mem (List.not_mem_nil (a := '\t'))
    (pad 8 (Stat.stdDev.word format (stats .stdDev)))
  rw [List.splitOn_eq_singleton htab] at hcells
  exact hcells

/-- The words of the label of a run. -/
theorem fields_runLabel (i : ℕ) :
    fields (runLabel i) = [labelTest.chars, labelRun.chars, (decimal (i + 1)).chars] := by
  rw [runLabel, fields_word_blanks labelTest (by decide), fields_word_blanks labelRun (by decide),
    fields_pad]

/-! ## The lines of the reports -/

/-- The rule above and below the summary of the plain report. -/
def rule : Text :=
  List.replicate 7 '-' ++ blanks 9 ++ List.replicate 8 '-' ++ blanks 4 ++ List.replicate 7 '-' ++
    blanks 2 ++ List.replicate 8 '-'

/-- A rule is left out. -/
theorem withoutRules_rule (ls : List Text) : withoutRules (rule :: ls) = withoutRules ls :=
  List.filter_cons_of_neg (by decide)

/-- The lines that the plain report prints for a run. -/
def plainRun (opts : Opts) (r : RunStats K) (i : ℕ) : List Text :=
  if opts.statsPerTest then [plainRow format r i] else []

/-- The lines that the tabbed report prints for a run. -/
def tabbedRun (opts : Opts) (r : RunStats K) (i : ℕ) : List Text :=
  if opts.statsPerTest then [tabbedRow format (runLabel i) r.stats, deviationRow format r.stats]
  else []

/-- The lines that the plain report prints for all runs together. -/
def plainSummary (s : Summary K) : List Text :=
  [rule, plainSummaryRow format labelAverage 9 s.average,
    plainSummaryRow format labelStdDev 8 s.stddev, rule]

/-- The lines that the tabbed report prints for all runs together. -/
def tabbedSummary (s : Summary K) : List Text :=
  [tabbedRow format labelAverage.chars s.average, tabbedRow format labelStdDev.chars s.stddev]

/-- The lines of a report from those of a run and those of the summary. -/
def reportLines (heading : List Text) (runLines : RunStats K → ℕ → List Text)
    (summaryLines : Summary K → List Text) (a : Analysis K) : List Text :=
  heading ++ ((a.perRun.zipIdx.flatMap fun p => runLines p.1 p.2) ++
    a.summary.elim [] summaryLines)

section

variable (opts : Opts)

/-- What the tabbed report prints for a run. -/
theorem render_printRun_tabbed (r : RunStats K) (i : ℕ) :
    render format (printRun { opts with taggedOutput := false, tabbedColumns := true } r i) =
      unlines (tabbedRun format opts r i) := by
  have hlabel : "Test run ".toList =
      labelTest.chars ++ (blanks 1 ++ (labelRun.chars ++ blanks 1)) := String.toList_ofList
  have hboth : "\n\t".toList = ['\n', '\t'] := String.toList_ofList
  unfold tabbedRun
  cases hruns : opts.statsPerTest with
  | false => simp [printRun, render, unlines]
  | true =>
    simp only [printRun, render, unlines, lit, Piece.render, hlabel, tab_toList, newline_toList,
      hboth, tabbedRow, deviationRow, runLabel, Stat.word, RunStats.stats, Nat.cast_ofNat,
      List.flatMap_cons, List.flatMap_nil, List.append_assoc, List.cons_append, List.nil_append,
      List.append_nil, if_true, Bool.false_eq_true, if_false]

/-- What the plain report prints for a run. -/
theorem render_printRun_plain (r : RunStats K) (i : ℕ) :
    render format (printRun { opts with taggedOutput := false, tabbedColumns := false } r i) =
      unlines (plainRun format opts r i) := by
  have hlabel : "Test run ".toList =
      labelTest.chars ++ (blanks 1 ++ (labelRun.chars ++ blanks 1)) := String.toList_ofList
  have hfive : "     ".toList = blanks 5 := String.toList_ofList
  unfold plainRun
  cases hruns : opts.statsPerTest with
  | false => simp [printRun, render, unlines]
  | true =>
    simp only [printRun, render, unlines, lit, Piece.render, hlabel, two_blanks_toList,
      four_blanks_toList, hfive, newline_toList, plainRow, plainValues, runLabel, Stat.word,
      RunStats.stats, Nat.cast_ofNat, List.flatMap_cons, List.flatMap_nil, List.append_assoc, List.append_nil, if_true,
      Bool.false_eq_true, if_false]

/-- What the tabbed report prints for all runs together. -/
theorem render_printSummary_tabbed (n : ℕ) (s : Summary K) :
    render format (printSummary { opts with taggedOutput := false, tabbedColumns := true } n s) =
      unlines (tabbedSummary format s) ++ List.replicate 2 '\n' := by
  have haverage : "Average\t".toList = labelAverage.chars ++ ['\t'] := String.toList_ofList
  have hstddev : "Std.Dev.\t".toList = labelStdDev.chars ++ ['\t'] := String.toList_ofList
  simp only [printSummary, tabbedSummary, render, unlines, lit, Piece.render, haverage, hstddev,
    tab_toList, newline_toList, newlines_toList, tabbedRow, Stat.word, Nat.cast_ofNat,
    List.reduceReplicate, List.flatMap_cons, List.flatMap_nil, List.append_assoc,
    List.cons_append, List.nil_append, List.append_nil, if_true, Bool.false_eq_true, if_false]

/-- What the plain report prints for all runs together. -/
theorem render_printSummary_plain (n : ℕ) (s : Summary K) :
    render format (printSummary { opts with taggedOutput := false, tabbedColumns := false } n s) =
      unlines (plainSummary format s) ++ List.replicate 1 '\n' := by
  have hrule : "-------         --------    -------  --------\n".toList = rule ++ ['\n'] :=
    String.toList_ofList
  have haverage : "Average         ".toList = labelAverage.chars ++ blanks 9 := String.toList_ofList
  have hstddev : "Std.Dev.        ".toList = labelStdDev.chars ++ blanks 8 := String.toList_ofList
  have hlast : "-------         --------    -------  --------".toList = rule :=
    String.toList_ofList
  simp only [printSummary, plainSummary, render, unlines, lit, Piece.render, hrule, haverage,
    hstddev, two_blanks_toList, four_blanks_toList, newline_toList, newlines_toList, hlast,
    plainSummaryRow, plainValues, Stat.word, Nat.cast_ofNat, List.reduceReplicate,
    List.flatMap_cons, List.flatMap_nil, List.append_assoc, List.cons_append,
    List.nil_append, List.append_nil, Bool.false_eq_true, if_false]

omit [Field K] in
/-- The lines of a report are lines, if those of its parts are. -/
theorem isLine_reportLines {heading : List Text} {runLines : RunStats K → ℕ → List Text}
    {summaryLines : Summary K → List Text} (hheading : ∀ l ∈ heading, IsLine l)
    (hrun : ∀ r i, ∀ l ∈ runLines r i, IsLine l) (hsummary : ∀ s, ∀ l ∈ summaryLines s, IsLine l)
    (a : Analysis K) : ∀ l ∈ reportLines heading runLines summaryLines a, IsLine l := by
  intro l hl
  rcases List.mem_append.mp hl with hl | hl
  · exact hheading l hl
  · rcases List.mem_append.mp hl with hl | hl
    · obtain ⟨p, -, hp⟩ := List.mem_flatMap.mp hl
      exact hrun p.1 p.2 l hp
    · cases hs : a.summary with
      | none => simp [hs] at hl
      | some s => exact hsummary s l (by simpa [hs] using hl)

/-- A report is its lines and blank lines, if its parts are. -/
theorem contentLines_report (sqrt : K → K) (data : List (Slot K)) {heading : List Text}
    {runLines : RunStats K → ℕ → List Text} {summaryLines : Summary K → List Text} (k : ℕ)
    (hheading : render format (printHeading opts) = unlines heading)
    (hrun : ∀ r i, render format (printRun opts r i) = unlines (runLines r i))
    (hsummary : ∀ n s, render format (printSummary opts n s) =
      unlines (summaryLines s) ++ List.replicate k '\n')
    (hlines : ∀ l ∈ reportLines heading runLines summaryLines (dataAnalyse opts sqrt data),
      IsLine l) :
    contentLines (render format (dataAnalyse opts sqrt data).printed) =
      reportLines heading runLines summaryLines (dataAnalyse opts sqrt data) := by
  have hprinted : (dataAnalyse opts sqrt data).printed = printHeading opts ++
      ((dataAnalyse opts sqrt data).perRun.zipIdx.flatMap fun p => printRun opts p.1 p.2) ++
      (dataAnalyse opts sqrt data).summary.elim [] (printSummary opts data.length) := rfl
  have hruns : (render format
      ((dataAnalyse opts sqrt data).perRun.zipIdx.flatMap fun p => printRun opts p.1 p.2)) =
      unlines ((dataAnalyse opts sqrt data).perRun.zipIdx.flatMap fun p => runLines p.1 p.2) := by
    rw [render, List.flatMap_assoc, ← flatMap_unlines]
    exact congrArg (fun f => List.flatMap f _) (funext fun p => hrun p.1 p.2)
  have htail : ∃ m, render format
      ((dataAnalyse opts sqrt data).summary.elim [] (printSummary opts data.length)) =
      unlines ((dataAnalyse opts sqrt data).summary.elim [] summaryLines) ++
        List.replicate m '\n' := by
    cases (dataAnalyse opts sqrt data).summary with
    | none => exact ⟨0, rfl⟩
    | some s => exact ⟨k, hsummary data.length s⟩
  obtain ⟨m, htail⟩ := htail
  have htext : render format (dataAnalyse opts sqrt data).printed =
      unlines (reportLines heading runLines summaryLines (dataAnalyse opts sqrt data)) ++
        List.replicate m '\n' := by
    rw [hprinted, render_append, render_append, hheading, hruns, htail, reportLines, unlines_append,
      unlines_append, List.append_assoc, List.append_assoc, List.append_assoc]
  rw [htext, contentLines_unlines hlines, contentLines_newlines, List.append_nil]

/-! ### No line is blank -/

/-- The row of a run is a line. -/
theorem isLine_plainRow (r : RunStats K) (i : ℕ) : IsLine (plainRow format r i) := by
  rw [plainRow, runLabel, List.append_assoc]
  apply isLine_word_append labelTest
  simp [plainValues, not_mem_blanks, labelRun]

/-- A row of the summary is a line. -/
theorem isLine_plainSummaryRow (label : Word) (gap : ℕ) (stats : Stat → K) :
    IsLine (plainSummaryRow format label gap stats) := by
  apply isLine_word_append label
  simp [plainValues, not_mem_blanks]

/-- A row of the tabbed report is a line. -/
theorem isLine_tabbedRow (label : Word) {rest : Text} (h : '\n' ∉ rest) (stats : Stat → K) :
    IsLine (tabbedRow format (label.chars ++ rest) stats) := by
  rw [tabbedRow, List.append_assoc]
  apply isLine_word_append label
  simp [h]

/-- The row of a deviation is a line. -/
theorem isLine_deviationRow (stats : Stat → K) : IsLine (deviationRow format stats) := by
  obtain ⟨c, chars, hchars⟩ :=
    List.exists_cons_of_ne_nil (Stat.stdDev.word format (stats .stdDev)).ne_nil
  have hc : c ∈ (Stat.stdDev.word format (stats .stdDev)).chars := hchars ▸ List.mem_cons_self
  refine ⟨by simp [deviationRow], c, ?_, Words.Word.solid _ c hc⟩
  exact List.mem_cons_of_mem _ (List.mem_append_right _ hc)

/-- The headings are lines. -/
theorem isLine_heading : ∀ l ∈ tabbedHeading ++ plainHeading, IsLine l := by
  have hlines : ((tabbedHeading ++ plainHeading).all fun l =>
      !l.contains '\n' && l.any fun c => !isBlank c) = true := by decide +kernel
  intro l hl
  have hline := List.all_eq_true.mp hlines l hl
  rw [Bool.and_eq_true] at hline
  exact ⟨by simpa using hline.1, by simpa using hline.2⟩

/-- The heading is lines. -/
theorem isLine_headingIf {heading : List Text} (h : ∀ l ∈ heading, IsLine l) :
    ∀ l ∈ headingIf opts heading, IsLine l := by
  intro l hl
  unfold headingIf at hl
  split at hl
  · exact h l hl
  · exact absurd hl List.not_mem_nil

variable (sqrt : K → K) (data : List (Slot K))

/-- The lines of the tabbed report. -/
theorem contentLines_tabbedReport :
    contentLines (tabbedReport format opts sqrt data) =
      reportLines (headingIf opts tabbedHeading) (tabbedRun format opts) (tabbedSummary format)
        (dataAnalyse opts sqrt data) := by
  apply contentLines_report format _ sqrt data 2 (render_printHeading_tabbed format opts)
    (render_printRun_tabbed format opts) (render_printSummary_tabbed format opts)
  apply isLine_reportLines
  · exact isLine_headingIf opts fun l hl => isLine_heading l (List.mem_append_left _ hl)
  · intro r i l hl
    unfold tabbedRun at hl
    split at hl
    · rcases List.mem_pair.mp hl with rfl | rfl
      · exact isLine_tabbedRow format labelTest (by simp [not_mem_blanks, labelRun]) _
      · exact isLine_deviationRow format _
    · exact absurd hl List.not_mem_nil
  · intro s l hl
    have hrow (label : Word) (stats : Stat → K) : IsLine (tabbedRow format label.chars stats) := by
      have h := isLine_tabbedRow format label (List.not_mem_nil (a := '\n')) stats
      rwa [List.append_nil] at h
    rcases List.mem_pair.mp hl with rfl | rfl
    · exact hrow labelAverage s.average
    · exact hrow labelStdDev s.stddev

/-- The lines of the plain report. -/
theorem contentLines_plainReport :
    contentLines (plainReport format opts sqrt data) =
      reportLines (headingIf opts plainHeading) (plainRun format opts) (plainSummary format)
        (dataAnalyse opts sqrt data) := by
  apply contentLines_report format _ sqrt data 1 (render_printHeading_plain format opts)
    (render_printRun_plain format opts) (render_printSummary_plain format opts)
  apply isLine_reportLines
  · exact isLine_headingIf opts fun l hl => isLine_heading l (List.mem_append_right _ hl)
  · intro r i l hl
    unfold plainRun at hl
    split at hl
    · obtain rfl := List.mem_singleton.mp hl
      exact isLine_plainRow format r i
    · exact absurd hl List.not_mem_nil
  · intro s l hl
    have hrule : IsLine rule := ⟨by decide, '-', by decide, rfl⟩
    have hcases : l = rule ∨ l = plainSummaryRow format labelAverage 9 s.average ∨
        l = plainSummaryRow format labelStdDev 8 s.stddev ∨ l = rule := by
      simpa [plainSummary] using hl
    rcases hcases with rfl | rfl | rfl | rfl
    · exact hrule
    · exact isLine_plainSummaryRow format labelAverage 9 s.average
    · exact isLine_plainSummaryRow format labelStdDev 8 s.stddev
    · exact hrule

end

/-! ## What is read from the rows -/

/-- The place of a statistic in a row. -/
def Stat.index : Stat → ℕ
  | .integral => 0
  | .duration => 1
  | .averageCurrent => 2
  | .stdDev => 3

/-- The columns of the tabbed report. -/
theorem column_tabbedHeading (j : Stat) :
    j.column ((tabbedHeading.getD 0 []).splitOn '\t') = j.index + 1 := by
  cases j <;> decide +kernel

/-- The columns of the plain report. -/
theorem column_plainHeading (j : Stat) :
    j.column (fields (plainHeading.getD 0 [])) = j.index := by
  cases j <;> decide +kernel

/-- The record of a row of the tabbed report. -/
def tabbedRecord (row : Text) : Record where
  label := fields ((row.splitOn '\t').getD 0 [])
  value := fun j => fields ((row.splitOn '\t').getD (j.index + 1) [])

/-- The record of a row of the plain report. -/
def plainRecord (row : Text) : Record where
  label := (fields row).take (labelWords (fields row))
  value := fun j => (((fields row).drop (labelWords (fields row)))[j.index]?).toList

/-- The rows below the heading of the tabbed report. -/
theorem readTabbed_rows {text : Text} {rows : List Text}
    (h : contentLines text = tabbedHeading ++ rows) : readTabbed text = rows.map tabbedRecord := by
  unfold readTabbed
  rw [h]
  apply List.map_congr_left
  intro row _
  apply congrArg (Record.mk _)
  funext j
  rw [← column_tabbedHeading]
  rfl

/-- The rows below the heading of the plain report. -/
theorem readPlain_rows {text : Text} {rows : List Text}
    (h : withoutRules (contentLines text) = plainHeading ++ rows) :
    readPlain text = rows.map plainRecord := by
  unfold readPlain
  rw [h]
  apply List.map_congr_left
  intro row _
  apply congrArg (Record.mk _)
  funext j
  rw [← column_plainHeading]
  rfl

/-- A row of the tabbed report has no deviation. -/
theorem tabbedRecord_tabbedRow {label : Text} (h : '\t' ∉ label) (stats : Stat → K) :
    tabbedRecord (tabbedRow format label stats) = shortRecord format (fields label) stats := by
  rw [tabbedRecord, cells_tabbedRow format h]
  apply congrArg (Record.mk _)
  funext j
  cases j with
  | integral => exact fields_pad 8 _
  | duration => exact fields_pad 7 _
  | averageCurrent => exact fields_pad 8 _
  | stdDev => rfl

/-- A deviation in the column of the integral, without a label. -/
def strayRecord (stats : Stat → K) : Record where
  label := []
  value := fun j => if j = .integral then [(Stat.stdDev.word format (stats .stdDev)).chars] else []

/-- The row of a deviation is read as a record of its own. -/
theorem tabbedRecord_deviationRow (stats : Stat → K) :
    tabbedRecord (deviationRow format stats) = strayRecord format stats := by
  rw [tabbedRecord, cells_deviationRow]
  apply congrArg (Record.mk _)
  funext j
  cases j with
  | integral => exact fields_pad 8 _
  | duration => rfl
  | averageCurrent => rfl
  | stdDev => rfl

/-- The row of a run is its record. -/
theorem plainRecord_plainRow (r : RunStats K) (i : ℕ) :
    plainRecord (plainRow format r i) = runRecord format r i := by
  rw [plainRecord, fields_plainRow]
  apply congrArg (Record.mk _)
  funext j
  cases j <;> rfl

/-- A row of the summary is its record. -/
theorem plainRecord_plainSummaryRow {label : Word} (h : label.chars ≠ "Test".toList) {gap : ℕ}
    (hgap : gap ≠ 0) (stats : Stat → K) :
    plainRecord (plainSummaryRow format label gap stats) =
      shortRecord format [label.chars] stats := by
  have hlabel (words : List Text) : labelWords (label.chars :: words) = 1 :=
    if_neg fun heq => h (Option.some.inj heq)
  rw [plainRecord, fields_plainSummaryRow format label hgap, hlabel]
  apply congrArg (Record.mk _)
  funext j
  cases j <;> rfl

/-! ## What is read from the reports -/

/-- The table that a spreadsheet reads from the tabbed report. -/
def shiftedTable (opts : Opts) (a : Analysis K) : List Record :=
  (a.perRun.zipIdx.flatMap fun p =>
    if opts.statsPerTest then
      [shortRecord format (runRecord format p.1 p.2).label p.1.stats,
        strayRecord format p.1.stats]
    else []) ++
  a.summary.elim [] (summaryRecords format)

section

variable (opts : Opts) (sqrt : K → K) (data : List (Slot K))

/-- Without statistics there is no row. -/
theorem reportLines_nil (h : (opts.statsPerTest || opts.statsSummary) = false)
    {runLines : RunStats K → ℕ → List Text} (hrun : ∀ r i, runLines r i = [])
    (heading : List Text) (summaryLines : Summary K → List Text) :
    reportLines (headingIf opts heading) runLines summaryLines (dataAnalyse opts sqrt data) =
      [] := by
  rw [Bool.or_eq_false_iff] at h
  simp [reportLines, headingIf, dataAnalyse, h.1, h.2, hrun]

/-- The records of a run in the tabbed report. -/
theorem map_tabbedRun (r : RunStats K) (i : ℕ) :
    (tabbedRun format opts r i).map tabbedRecord =
      if opts.statsPerTest then
        [shortRecord format (runRecord format r i).label r.stats, strayRecord format r.stats]
      else [] := by
  unfold tabbedRun
  split
  · have htab : '\t' ∉ runLabel i := by simp [runLabel, not_mem_blanks, labelTest, labelRun]
    rw [List.map_cons, List.map_singleton, tabbedRecord_tabbedRow format htab,
      tabbedRecord_deviationRow, fields_runLabel]
    rfl
  · rfl

/-- The records of the summary in the tabbed report. -/
theorem map_tabbedSummary (s : Summary K) :
    (tabbedSummary format s).map tabbedRecord = summaryRecords format s := by
  rw [tabbedSummary, List.map_cons, List.map_singleton,
    tabbedRecord_tabbedRow format (by decide : '\t' ∉ labelAverage.chars),
    tabbedRecord_tabbedRow format (by decide : '\t' ∉ labelStdDev.chars), fields_word, fields_word]
  rfl

/-- A row that starts with a word is not a rule. -/
theorem head_row {label : Word} (h : label.chars.head? ≠ some '-') (rest : Text) :
    (label.chars ++ rest).head? ≠ some '-' := by
  rwa [List.head?_append_of_ne_nil _ label.ne_nil]

/-- The records of a run in the plain report. -/
theorem map_plainRun (r : RunStats K) (i : ℕ) :
    (withoutRules (plainRun format opts r i)).map plainRecord =
      if opts.statsPerTest then [runRecord format r i] else [] := by
  unfold plainRun
  split
  · have hhead : (plainRow format r i).head? ≠ some '-' := by
      rw [plainRow, runLabel, List.append_assoc]
      exact head_row (by decide) _
    rw [withoutRules_cons hhead, List.map_cons, plainRecord_plainRow]
    rfl
  · rfl

/-- The records of the summary in the plain report. -/
theorem map_plainSummary (s : Summary K) :
    (withoutRules (plainSummary format s)).map plainRecord = summaryRecords format s := by
  have hrules : withoutRules (plainSummary format s) =
      [plainSummaryRow format labelAverage 9 s.average,
        plainSummaryRow format labelStdDev 8 s.stddev] := by
    have haverage : (plainSummaryRow format labelAverage 9 s.average).head? ≠ some '-' :=
      head_row (by decide) _
    have hstddev : (plainSummaryRow format labelStdDev 8 s.stddev).head? ≠ some '-' :=
      head_row (by decide) _
    rw [plainSummary, withoutRules_rule, withoutRules_cons haverage, withoutRules_cons hstddev,
      withoutRules_rule]
    rfl
  rw [hrules, List.map_cons, List.map_singleton,
    plainRecord_plainSummaryRow format (by decide) (by decide),
    plainRecord_plainSummaryRow format (by decide) (by decide)]
  rfl

/-- What is read from the tabbed report. -/
theorem readTabbed_tabbedReport :
    readTabbed (tabbedReport format opts sqrt data) =
      shiftedTable format opts (dataAnalyse opts sqrt data) := by
  have hlines := contentLines_tabbedReport format opts sqrt data
  cases hprint : opts.statsPerTest || opts.statsSummary with
  | false =>
    have hflags := Bool.or_eq_false_iff.mp hprint
    rw [reportLines_nil opts sqrt data hprint fun r i => by simp [tabbedRun, hflags.1]] at hlines
    rw [readTabbed, hlines]
    simp [shiftedTable, dataAnalyse, hflags.1, hflags.2]
  | true =>
    rw [reportLines, headingIf, if_pos hprint] at hlines
    rw [readTabbed_rows hlines, shiftedTable, List.map_append, List.map_flatMap]
    simp only [map_tabbedRun]
    cases (dataAnalyse opts sqrt data).summary with
    | none => rfl
    | some s => exact congrArg (_ ++ ·) (map_tabbedSummary format s)

/-- What is read from the plain report is the table. -/
theorem readPlain_plainReport :
    readPlain (plainReport format opts sqrt data) =
      table format opts (dataAnalyse opts sqrt data) := by
  have hlines := contentLines_plainReport format opts sqrt data
  cases hprint : opts.statsPerTest || opts.statsSummary with
  | false =>
    have hflags := Bool.or_eq_false_iff.mp hprint
    rw [reportLines_nil opts sqrt data hprint fun r i => by simp [plainRun, hflags.1]] at hlines
    rw [readPlain, hlines]
    simp [withoutRules, table, dataAnalyse, hflags.1, hflags.2]
  | true =>
    rw [reportLines, headingIf, if_pos hprint] at hlines
    have hheading : withoutRules plainHeading = plainHeading := by decide +kernel
    have hrows := congrArg withoutRules hlines
    rw [withoutRules_append, hheading] at hrows
    have hruns : ((dataAnalyse opts sqrt data).perRun.zipIdx.flatMap fun p =>
        (withoutRules (plainRun format opts p.1 p.2)).map plainRecord) =
        (dataAnalyse opts sqrt data).perRun.zipIdx.flatMap fun p =>
          if opts.statsPerTest then [runRecord format p.1 p.2] else [] :=
      congrArg (fun f => List.flatMap f _) (funext fun p => map_plainRun format opts p.1 p.2)
    rw [readPlain_rows hrows, withoutRules_append, List.map_append, withoutRules,
      List.filter_flatMap, List.map_flatMap, table, ← hruns]
    cases (dataAnalyse opts sqrt data).summary with
    | none => rfl
    | some s => exact congrArg (_ ++ ·) (map_plainSummary format s)

/-- The two reports carry the same table if and only if no run has a record of its own. -/
theorem sameTable_iff :
    SameTable format opts sqrt data ↔ opts.statsPerTest = false ∨ data = [] := by
  rw [SameTable, readTabbed_tabbedReport, readPlain_plainReport]
  have hlength : (dataAnalyse opts sqrt data).perRun.zipIdx.length = data.length := by
    rw [List.length_zipIdx, dataAnalyse, List.length_map]
  unfold shiftedTable table
  cases opts.statsPerTest with
  | false => simp
  | true =>
    constructor
    · rintro ⟨-, hsame⟩
      have hcount := congrArg List.length hsame
      rw [List.length_append, List.length_append, Nat.add_right_cancel_iff] at hcount
      have hdouble : data.length * 2 = data.length := by simpa [hlength] using hcount
      exact Or.inr (List.length_eq_zero_iff.mp (by omega))
    · rintro (hfalse | rfl)
      · exact absurd hfalse (by decide)
      · simp [dataAnalyse]

end

end

/-- A run of two samples. -/
def twoSamples : Slot ℚ where
  xMin := 0
  xMax := 2
  yMin := 1 / 4
  yMax := 3 / 4
  points := [⟨0, 1 / 4, 1⟩, ⟨2, 3 / 4, 2⟩]
  samples := 2
  openedAt := 0

/-- With `-t -S`, a spreadsheet reads two records of a single run. -/
theorem twoSamples_not_sameTable :
    ¬ SameTable fixed { tabbedColumns := true, statsPerTest := true } id [twoSamples] ∧
      (readTabbed (tabbedReport fixed { tabbedColumns := true, statsPerTest := true } id
        [twoSamples])).map (fun r => Stat.all.map r.value) =
        [[["1.0000".toList], ["2.000".toList], ["500.0000".toList], []],
          [["0.0000".toList], [], [], []]] := by
  have hrecords : (readTabbed (tabbedReport fixed { tabbedColumns := true, statsPerTest := true } id
      [twoSamples])).map (fun r => Stat.all.map r.value) =
      [[["1.0000".toList], ["2.000".toList], ["500.0000".toList], []],
        [["0.0000".toList], [], [], []]] := by
    decide +kernel
  refine ⟨fun h => ?_, hrecords⟩
  have hsame := congrArg List.length (h.2.trans h.1)
  have hcount := congrArg List.length hrecords
  rw [List.length_map, hsame] at hcount
  exact absurd hcount (by decide)

end FlukeTesting.Statstool
