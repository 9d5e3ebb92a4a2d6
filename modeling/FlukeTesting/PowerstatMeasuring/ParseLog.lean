import FlukeTesting.Lib.Awk
import Mathlib.Data.Int.Notation

/-!
# `parse-log.awk`

The script files the rows of measurement logs under the test and the release of the last
`Release:` line, and prints them as a table, test by test, with formulas for a spreadsheet.

Arrays whose values are never read are kept as lists of their indices. A variable that has not been
assigned is the empty string, and as a number zero; only the index of a row can be met in that state
before it is used as a number.
-/

namespace FlukeTesting.PowerstatMeasuring

open Awk

/-- A string. -/
abbrev Text := List Char

/-- The variables that the main rule carries from line to line. -/
structure State where
  u : ℕ
  t : Text
  rel : Text
  idx : Option ℕ
  releases : List Text
  tests : List Text
  data : Text → Text → Option ℕ → Text

/-- Before the first line, nothing is assigned. -/
def State.initial : State where
  u := 0
  t := []
  rel := []
  idx := none
  releases := []
  tests := []
  data := fun _ _ _ => []

/-- The headings that the script replaces, with their replacements. -/
def renames : List (Text × Text) :=
  [("User", "User %"), ("Nice", "Nice %"), ("Sys", "Sys %"), ("Idle", "Idle %"), ("IO", "IO %"),
    ("Fork", "Forks/s"), ("Exec", "Exec/s"), ("Exit", "Exit/s"), ("GPU", "GPU W"),
    ("uncore", "uncore W"), ("core", "core W"), ("pkg-0", "package W"), ("x86_pk", "x86_pk C"),
    ("acpitz", "acpitz C")].map fun (heading, name) => (heading.toList, name.toList)

/-- What a field is printed as. -/
def rename (field : Text) : Text := (renames.lookup field).getD field

/-- The loop that puts the words of a test together again. -/
def joinWords : List Text → Text
  | [] => []
  | w :: rest => w ++ (if rest = [] then [] else [' ']) ++ joinWords rest

/-- The loop that puts the fields of a row together: it drops the field `W` and its comma. -/
def joinRow : List Text → Text
  | [] => []
  | w :: rest =>
    if w = "W".toList then joinRow rest
    else rename w ++ (if rest = [] then [] else [',']) ++ joinRow rest

/-- What a `Release:` line does: it takes the release, without what follows its comma, and the test,
and starts with the first row. -/
def State.release (s : State) (line : List Text) : State :=
  let word := line.getD 1 []
  let c := index word ','
  let rel := if c ≠ 0 then leading word (c - 1) else word
  let t := joinWords (line.drop 3)
  { s with rel, t, idx := some 0, releases := s.releases.insert rel, tests := s.tests.insert t }

/-- What any other line does: it is filed as the next row. -/
def State.file (s : State) (line : List Text) : State :=
  { s with
    data := fun t rel idx =>
      if t = s.t ∧ rel = s.rel ∧ idx = s.idx then joinRow line else s.data t rel idx
    idx := some (s.idx.getD 0 + 1) }

/-- The part of the main rule behind the count of headings. -/
def State.dispatch (s : State) (line : List Text) : State :=
  if line.head? = some "Test".toList then s
  else if line.head? = some "exit".toList then s
  else if line.head? = some "Release:".toList then s.release line
  else s.file line

/-- The main rule on the fields of a line: the first of several lines that start with `User` is
skipped. -/
def State.step (s : State) (line : List Text) : State :=
  if line.head? = some "User".toList then
    let s := { s with u := s.u + 1 }
    if s.u = 1 then s else s.dispatch line
  else { s with u := 0 }.dispatch line

/-- The main rule on all lines. -/
def State.run (s : State) (lines : List Text) : State :=
  lines.foldl (fun s line => s.step (fields line)) s

/-- A cell of a formula line: its column and the rows that it refers to. -/
structure Reference where
  column : Char
  first : ℤ
  last : ℤ
  deriving DecidableEq

/-- A line of the output: text, or a label with a formula in every column. -/
inductive Line
  | text (t : Text)
  | formulas (label name : String) (cells : List Reference)

/-- The text of a formula line. -/
def Reference.text (name : String) (cell : Reference) : Text :=
  ",=".toList ++ name.toList ++ '(' :: cell.column :: (toString cell.first).toList ++
    ':' :: cell.column :: (toString cell.last).toList ++ [')']

/-- A line as it is printed. -/
def Line.render : Line → Text
  | text t => t
  | formulas label name cells => label.toList ++ cells.flatMap (Reference.text name)

example : (Line.formulas "Std.Dev.:" "stdev" [⟨'B', 6, 10⟩]).render =
    "Std.Dev.:,=stdev(B6:B10)".toList := by decide

/-- `substr("BCDEFGHIJKLMNOPQRSTUVWXYZ", i, 1)`, with `i` from one on. -/
def columnLetter (i : ℕ) : Char := "BCDEFGHIJKLMNOPQRSTUVWXYZ".toList.getD (i - 1) ' '

/-- The output so far and the count of lines `l`. -/
structure Printer where
  l : ℤ
  out : List Line

/-- Print a line. -/
def Printer.print (p : Printer) (line : Line) : Printer := { p with out := p.out ++ [line] }

/-- `l = l + 1`. -/
def Printer.count (p : Printer) : Printer := { p with l := p.l + 1 }

/-- The loop over the columns of a formula line. -/
def formulaCells (l : ℤ) : List Reference :=
  (List.range 19).map fun i => ⟨columnLetter (i + 1), l - 4, l⟩

/-- The body of the loop over the releases. -/
def printRelease (s : State) (t : Text) (p : Printer) (rel : Text) : Printer :=
  let p := (p.print (.text rel)).count
  let p := (List.range 6).foldl
    (fun p i => (p.print (.text (',' :: s.data t rel (some i)))).count) p
  let p := (p.print (.formulas "Average:" "average" (formulaCells p.l))).count
  let p := (p.print (.formulas "Std.Dev.:" "stdev" (formulaCells p.l))).count
  (p.print (.text [])).count

/-- The body of the loop over the tests. The releases are printed from the last to the first. -/
def printTest (s : State) (p : Printer) (t : Text) : Printer :=
  let p := { p with l := 0 }
  let p := (p.print (.text ("Test:  ".toList ++ t))).count
  let p := (p.print (.text [])).count
  let p := (asorti s.releases).reverse.foldl (printRelease s t) p
  (p.print (.text [])).count

/-- The `END` rule. -/
def State.finish (s : State) : List Line :=
  ((asorti s.tests).foldl (printTest s) ⟨0, []⟩).out

/-- `awk -f parse-log.awk` on the lines of its input. -/
def parseLog (lines : List Text) : List Line := (State.initial.run lines).finish

/-! ## The layout of the output -/

/-- The lines of a release in the table of a test, when `l` lines are counted before them. -/
def releaseLines (row : ℕ → Text) (rel : Text) (l : ℤ) : List Line :=
  .text rel :: (List.range 6).map (fun i => .text (',' :: row i)) ++
    [.formulas "Average:" "average" (formulaCells (l + 7)),
      .formulas "Std.Dev.:" "stdev" (formulaCells (l + 8)), .text []]

/-- The lines of all releases in the table of a test. -/
def releasesLines (row : Text → ℕ → Text) : List Text → ℤ → List Line
  | [], _ => []
  | rel :: rest, l => releaseLines (row rel) rel l ++ releasesLines row rest (l + 10)

/-- The table of a test. -/
def testLines (row : Text → ℕ → Text) (releases : List Text) (t : Text) : List Line :=
  [.text ("Test:  ".toList ++ t), .text []] ++ releasesLines row releases 2 ++ [.text []]

/-- A release is printed with ten lines. -/
theorem printRelease_eq (s : State) (t : Text) (p : Printer) (rel : Text) :
    printRelease s t p rel =
      ⟨p.l + 10, p.out ++ releaseLines (fun i => s.data t rel (some i)) rel p.l⟩ := by
  have haverage : p.l + 1 + 1 + 1 + 1 + 1 + 1 + 1 = p.l + 7 := by omega
  have hstddev : p.l + 7 + 1 = p.l + 8 := by omega
  have hend : p.l + 8 + 1 + 1 = p.l + 10 := by omega
  simp only [printRelease, Printer.print, Printer.count, List.range_succ, List.range_zero,
    List.nil_append, List.cons_append, List.foldl_cons, List.foldl_nil, haverage, hstddev, hend,
    releaseLines, List.map_cons, List.map_nil, List.append_assoc]

/-- The releases are printed one after the other. -/
theorem foldl_printRelease (s : State) (t : Text) (releases : List Text) (p : Printer) :
    (releases.foldl (printRelease s t) p).out =
      p.out ++ releasesLines (fun rel i => s.data t rel (some i)) releases p.l := by
  induction releases generalizing p with
  | nil => exact (List.append_nil _).symm
  | cons rel rest ih =>
    rw [List.foldl_cons, ih, printRelease_eq, releasesLines, List.append_assoc]

/-- A test is printed as its table. -/
theorem printTest_out (s : State) (p : Printer) (t : Text) :
    (printTest s p t).out =
      p.out ++ testLines (fun rel i => s.data t rel (some i)) (asorti s.releases).reverse t := by
  simp only [printTest, Printer.print, Printer.count, foldl_printRelease, testLines]
  simp

/-- The output is the tables of the tests. -/
theorem finish_eq (s : State) :
    s.finish = (asorti s.tests).flatMap fun t =>
      testLines (fun rel i => s.data t rel (some i)) (asorti s.releases).reverse t := by
  have hfold (tests : List Text) (p : Printer) : (tests.foldl (printTest s) p).out =
      p.out ++ tests.flatMap fun t =>
        testLines (fun rel i => s.data t rel (some i)) (asorti s.releases).reverse t := by
    induction tests generalizing p with
    | nil => exact (List.append_nil _).symm
    | cons t rest ih =>
      rw [List.foldl_cons, ih, printTest_out, List.flatMap_cons, List.append_assoc]
  exact hfold _ _

end FlukeTesting.PowerstatMeasuring
