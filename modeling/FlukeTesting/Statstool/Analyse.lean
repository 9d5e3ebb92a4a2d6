import FlukeTesting.Statstool.Buffer
import Mathlib.Algebra.Order.Field.Basic
import Mathlib.Algebra.Order.Field.Rat
import Mathlib.Data.Rat.Cast.Defs

/-!
# Runs and their statistics

The run record that `data_parse` fills and the report that `data_analyse` prints from it.
Arithmetic is exact over an ordered field; the square root is a parameter. Formatted output
is kept as a sequence of literal texts and numbers with their widths.

A run and a point also carry the number of the log line that created them. Nothing in the
program reads it: it only says where the data came from.
-/

namespace FlukeTesting.Statstool

/-- The option bits of `main`. -/
structure Opts where
  extractResults : Bool := false
  tabbedColumns : Bool := false
  statsAllSamples : Bool := false
  taggedOutput : Bool := false
  statsSummary : Bool := false
  statsPerTest : Bool := false

/-- What `main` makes of the option bits: without a choice of statistics, both are printed. -/
def Opts.complete (opts : Opts) : Opts :=
  if !(opts.statsSummary || opts.statsPerTest) then
    { opts with statsSummary := true, statsPerTest := true }
  else opts

/-- `point_t`, with the log line of its sample. -/
structure Point (K : Type*) where
  x : K
  y : K
  line : ℕ

/-- `data_t` without its statistics, with the log line that opened the run. The list is the
chain from `head` to `tail`. -/
structure Slot (K : Type*) where
  xMin : K
  xMax : K
  yMin : K
  yMax : K
  points : List (Point K)
  samples : ℕ
  openedAt : ℕ

/-- One item of a formatted print: literal text, `%s`, `%d` or `%f` with width and precision. -/
inductive Piece (K : Type*)
  | text (literal : Text)
  | str (value : Text)
  | int (width : ℕ) (value : ℤ)
  | float (width precision : ℕ) (value : K)

/-- The literal part of a format string. -/
def lit {K : Type*} (s : String) : Piece K := .text s.toList

/-- The indices of the `stats` array, in their order. -/
inductive Stat
  | integral
  | duration
  | averageCurrent
  | stdDev
  deriving DecidableEq

/-- The loop `for (j = 0; j < DATA_STATS_MAX; j++)`. -/
def Stat.all : List Stat := [.integral, .duration, .averageCurrent, .stdDev]

/-- The statistics of one run, with the total and the count behind its deviation. -/
structure RunStats (K : Type*) where
  integral : K
  duration : K
  averageCurrent : K
  total : K
  samples : ℕ
  stdDev : K

/-- `data[i].stats[j]`. -/
def RunStats.stats {K : Type*} (r : RunStats K) : Stat → K
  | .integral => r.integral
  | .duration => r.duration
  | .averageCurrent => r.averageCurrent
  | .stdDev => r.stdDev

section

variable {K : Type*} [Field K]

/-- `data_append_point`. -/
def Slot.dataAppendPoint (slot : Slot K) (p : Point K) : Slot K :=
  { slot with points := slot.points ++ [p], samples := slot.samples + 1 }

/-- The slot that `test_run_begin` leaves behind. -/
def Slot.fresh (line : ℕ) : Slot K where
  xMin := 1000000
  xMax := -1000000
  yMin := 1000000
  yMax := -1000000
  points := []
  samples := 0
  openedAt := line

/-- The first loop over the points: trapezoids under consecutive samples. -/
def integralLoop : List (Point K) → K → K
  | p :: q :: rest, acc =>
    let dt := q.x - p.x
    let y := (p.y + q.y) / 2
    integralLoop (q :: rest) (acc + y * dt)
  | _, acc => acc

/-- The second loop over the points: squared distances of the pair means from the average,
and the number of pairs. -/
def deviationLoop (average : K) : List (Point K) → K → ℕ → K × ℕ
  | p :: q :: rest, total, samples =>
    let y := (p.y + q.y) / 2
    let diff := y - average
    deviationLoop average (q :: rest) (total + diff * diff) (samples + 1)
  | _, total, samples => (total, samples)

/-- The body of the loop over the runs in `data_analyse`. -/
def analyseRun (sqrt : K → K) (slot : Slot K) : RunStats K :=
  let integral := integralLoop slot.points 0
  let duration := slot.xMax - slot.xMin
  let averageCurrent := integral / duration
  let (total, samples) := deviationLoop averageCurrent slot.points 0 0
  { integral, duration, averageCurrent, total, samples, stdDev := sqrt (total / samples) }

/-- The averages and deviations of `calc_average_stddev`. -/
structure Summary (K : Type*) where
  average : Stat → K
  stddev : Stat → K

/-- The first inner loop of `calc_average_stddev`. -/
def totalLoop (j : Stat) (data : List (RunStats K)) : K :=
  data.foldl (fun total r => total + r.stats j) 0

/-- The second inner loop of `calc_average_stddev`. -/
def squaresLoop (j : Stat) (average : K) (data : List (RunStats K)) : K :=
  data.foldl (fun total r => total + (r.stats j - average) * (r.stats j - average)) 0

/-- `calc_average_stddev`. -/
def calcAverageStddev (sqrt : K → K) (data : List (RunStats K)) : Summary K :=
  let average := fun j => totalLoop j data / data.length
  { average, stddev := fun j => sqrt (squaresLoop j (average j) data / data.length) }

/-- The heading of a report. -/
def printHeading (opts : Opts) : List (Piece K) :=
  if !opts.taggedOutput && (opts.statsPerTest || opts.statsSummary) then
    if opts.tabbedColumns then
      [lit "\tIntegral\tDuration\tAverage\tStd.Dev\n", lit "\t\t(Secs)\t(mA)\t(mA)\n"]
    else
      [lit "                Integral  Duration   Average   Std.Dev.\n",
        lit "                           (Secs)     (mA)       (mA)\n"]
  else []

/-- What is printed for run `i`, counted from zero. -/
def printRun (opts : Opts) (r : RunStats K) (i : ℕ) : List (Piece K) :=
  if opts.statsPerTest then
    if opts.taggedOutput then
      [lit "info:test_iteration:", .int 0 (i + 1), lit "\n",
        lit "metric:test_duration_seconds_average:", .float 0 6 r.duration, lit "\n",
        lit "metric:current_drawn_mA_average:", .float 0 6 (1000 * r.averageCurrent), lit "\n",
        lit "metric:current_drawn_mA_stddev:", .float 0 6 (1000 * r.stdDev), lit "\n"]
    else if opts.tabbedColumns then
      [lit "Test run ", .int 2 (i + 1), lit "\t", .float 8 4 r.integral,
        lit "\t", .float 7 3 r.duration, lit "\t", .float 8 4 (1000 * r.averageCurrent),
        lit "\n\t", .float 8 4 (1000 * r.stdDev), lit "\n"]
    else
      [lit "Test run ", .int 2 (i + 1), lit "     ", .float 8 4 r.integral,
        lit "    ", .float 7 3 r.duration, lit "  ", .float 8 4 (1000 * r.averageCurrent),
        lit "  ", .float 8 4 (1000 * r.stdDev), lit "\n"]
  else []

/-- What is printed for all runs together. -/
def printSummary (opts : Opts) (n : ℕ) (summary : Summary K) : List (Piece K) :=
  if opts.taggedOutput then
    [lit "info:total_number_of_tests:", .int 0 n, lit "\n",
      lit "metric:test_duration_seconds_average:", .float 0 6 (summary.average .duration), lit "\n",
      lit "metric:test_duration_seconds_stddev:", .float 0 6 (summary.stddev .duration), lit "\n",
      lit "metric:current_drawn_mA_average:",
      .float 0 6 (summary.average .averageCurrent * 1000), lit "\n",
      lit "metric:current_drawn_mA_stddev:",
      .float 0 6 (summary.stddev .averageCurrent * 1000), lit "\n"]
  else
    (if opts.tabbedColumns then [] else
      [lit "-------         --------    -------  --------\n"]) ++
    (if opts.tabbedColumns then
      [lit "Average\t", .float 8 4 (summary.average .integral), lit "\t",
        .float 7 3 (summary.average .duration), lit "\t",
        .float 8 4 (1000 * summary.average .averageCurrent), lit "\n",
        lit "Std.Dev.\t", .float 8 4 (summary.stddev .integral), lit "\t",
        .float 7 3 (summary.stddev .duration), lit "\t",
        .float 8 4 (1000 * summary.stddev .averageCurrent), lit "\n"]
    else
      [lit "Average         ", .float 8 4 (summary.average .integral), lit "    ",
        .float 7 3 (summary.average .duration), lit "  ",
        .float 8 4 (1000 * summary.average .averageCurrent), lit "\n",
        lit "Std.Dev.        ", .float 8 4 (summary.stddev .integral), lit "    ",
        .float 7 3 (summary.stddev .duration), lit "  ",
        .float 8 4 (1000 * summary.stddev .averageCurrent), lit "\n"]) ++
    (if opts.tabbedColumns then [] else
      [lit "-------         --------    -------  --------"]) ++
    [lit "\n\n"]

/-- The result of `data_analyse` on the first `n` slots. -/
structure Analysis (K : Type*) where
  perRun : List (RunStats K)
  summary : Option (Summary K)
  printed : List (Piece K)

/-- `data_analyse`. -/
def dataAnalyse (opts : Opts) (sqrt : K → K) (data : List (Slot K)) : Analysis K :=
  let perRun := data.map (analyseRun sqrt)
  let summary := if opts.statsSummary then some (calcAverageStddev sqrt perRun) else none
  { perRun, summary,
    printed := printHeading opts ++
      (perRun.zipIdx.flatMap fun (r, i) => printRun opts r i) ++
      (summary.elim [] (printSummary opts data.length)) }

/-- Every divisor that `data_analyse` and `calc_average_stddev` evaluate: the duration and the
number of pairs of each run, and the number of runs twice for each statistic. -/
def Analysis.divisors (a : Analysis K) : List K :=
  (a.perRun.flatMap fun r => [r.duration, (r.samples : K)]) ++
    if a.summary.isSome then Stat.all.flatMap fun _ => [(a.perRun.length : K), a.perRun.length]
    else []

/-! ## The line numbers are not read -/

/-- A point without its line number. -/
def Point.bare (p : Point K) : Point K := { p with line := 0 }

/-- A run without its line numbers. -/
def Slot.bare (slot : Slot K) : Slot K :=
  { slot with points := slot.points.map Point.bare, openedAt := 0 }

/-- The integral does not depend on line numbers. -/
theorem integralLoop_bare (points : List (Point K)) (acc : K) :
    integralLoop (points.map Point.bare) acc = integralLoop points acc := by
  fun_induction integralLoop points acc with
  | case1 p q rest acc dt y ih =>
    rw [List.map_cons, List.map_cons, integralLoop]
    rw [List.map_cons] at ih
    exact ih
  | case2 points acc h =>
    cases points with
    | nil => rfl
    | cons p rest =>
      cases rest with
      | nil => rfl
      | cons q rest => exact absurd rfl (h p q rest)

/-- The deviation does not depend on line numbers. -/
theorem deviationLoop_bare (average : K) (points : List (Point K)) (total : K) (samples : ℕ) :
    deviationLoop average (points.map Point.bare) total samples =
      deviationLoop average points total samples := by
  fun_induction deviationLoop average points total samples with
  | case1 p q rest total samples y diff ih =>
    rw [List.map_cons, List.map_cons, deviationLoop]
    rw [List.map_cons] at ih
    exact ih
  | case2 points total samples h =>
    cases points with
    | nil => rfl
    | cons p rest =>
      cases rest with
      | nil => rfl
      | cons q rest => exact absurd rfl (h p q rest)

/-- The statistics of a run do not depend on line numbers. -/
theorem analyseRun_bare (sqrt : K → K) (slot : Slot K) :
    analyseRun sqrt slot.bare = analyseRun sqrt slot := by
  simp only [analyseRun, Slot.bare, integralLoop_bare, deviationLoop_bare]

/-- Nothing that `data_analyse` computes or prints depends on line numbers. -/
theorem dataAnalyse_bare (opts : Opts) (sqrt : K → K) (data : List (Slot K)) :
    dataAnalyse opts sqrt (data.map Slot.bare) = dataAnalyse opts sqrt data := by
  have hruns : (data.map Slot.bare).map (analyseRun sqrt) = data.map (analyseRun sqrt) := by
    rw [List.map_map]
    exact List.map_congr_left fun slot _ => analyseRun_bare sqrt slot
  simp only [dataAnalyse, hruns, List.length_map]

end

end FlukeTesting.Statstool
