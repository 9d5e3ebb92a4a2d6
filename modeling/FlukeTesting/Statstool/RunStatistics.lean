import FlukeTesting.Lib.Polyline
import FlukeTesting.Lib.Statistics
import FlukeTesting.Statstool.Analyse

/-!
# The statistics as means

The loops of `data_analyse` and `calc_average_stddev` are sums over lists: the integral is the area
under the polyline through the samples, the deviation of a run is the root of the mean square of
the mean heights of its segments about the average current, and the summary of a statistic is its
mean and the root of its variance.
-/

namespace FlukeTesting.Statstool

open Statistics

section

variable {K : Type*} [Field K]

/-- A sample as a vertex of the curve of the current. -/
def Point.vertex (p : Point K) : K × K := (p.x, p.y)

/-- The curve of the current of a run: the polyline through its samples. -/
def Slot.curve (slot : Slot K) : List (K × K) := slot.points.map Point.vertex

/-- The first loop sums up the area under the samples. -/
theorem integralLoop_eq (points : List (Point K)) (acc : K) :
    integralLoop points acc = acc + Polyline.area (points.map Point.vertex) := by
  fun_induction integralLoop points acc with
  | case1 p q rest acc dt y ih =>
    rw [ih, List.map_cons, List.map_cons, List.map_cons, Polyline.area_cons_cons, add_assoc]
    rfl
  | case2 points acc h =>
    cases points with
    | nil => exact (add_zero acc).symm
    | cons p rest =>
      cases rest with
      | nil => exact (add_zero acc).symm
      | cons q rest => exact absurd rfl (h p q rest)

/-- The second loop sums up the squared distances of the mean heights and counts them. -/
theorem deviationLoop_eq (average : K) (points : List (Point K)) (total : K) (samples : ℕ) :
    deviationLoop average points total samples =
      (total + ((Polyline.heights (points.map Point.vertex)).map fun y =>
          (y - average) * (y - average)).sum,
        samples + (Polyline.heights (points.map Point.vertex)).length) := by
  fun_induction deviationLoop average points total samples with
  | case1 p q rest total samples y diff ih =>
    rw [ih, List.map_cons, List.map_cons, List.map_cons, Polyline.heights_cons_cons, List.map_cons,
      List.sum_cons, List.length_cons, add_assoc, add_assoc, Nat.add_comm 1]
    rfl
  | case2 points total samples h =>
    cases points with
    | nil => exact Prod.ext (add_zero total).symm rfl
    | cons p rest =>
      cases rest with
      | nil => exact Prod.ext (add_zero total).symm rfl
      | cons q rest => exact absurd rfl (h p q rest)

/-- The integral of a run is the area under its curve. -/
theorem analyseRun_integral (sqrt : K → K) (slot : Slot K) :
    (analyseRun sqrt slot).integral = Polyline.area slot.curve := by
  rw [← zero_add (Polyline.area slot.curve), Slot.curve, ← integralLoop_eq]
  rfl

/-- The average current of a run is its integral over its duration. -/
theorem analyseRun_averageCurrent (sqrt : K → K) (slot : Slot K) :
    (analyseRun sqrt slot).averageCurrent =
      Polyline.area slot.curve / (slot.xMax - slot.xMin) := by
  rw [← analyseRun_integral sqrt slot]
  rfl

/-- The deviation of a run is the root of the mean square of its mean heights about the average. -/
theorem analyseRun_stdDev (sqrt : K → K) (slot : Slot K) :
    (analyseRun sqrt slot).stdDev =
      sqrt (meanSquare (analyseRun sqrt slot).averageCurrent (Polyline.heights slot.curve)) := by
  have hloop := deviationLoop_eq (analyseRun sqrt slot).averageCurrent slot.points 0 0
  rw [zero_add, Nat.zero_add] at hloop
  have hstdDev : (analyseRun sqrt slot).stdDev =
      sqrt ((deviationLoop (analyseRun sqrt slot).averageCurrent slot.points 0 0).1 /
        (deviationLoop (analyseRun sqrt slot).averageCurrent slot.points 0 0).2) := rfl
  rw [hstdDev, hloop, meanSquare, mean, List.length_map, Slot.curve]

/-- The first loop of the summary sums up a statistic. -/
theorem totalLoop_eq (j : Stat) (data : List (RunStats K)) :
    totalLoop j data = (data.map (RunStats.stats · j)).sum := by
  have hfold (total : K) : data.foldl (fun total r => total + r.stats j) total =
      total + (data.map (RunStats.stats · j)).sum := by
    induction data generalizing total with
    | nil => exact (add_zero total).symm
    | cons r data ih => rw [List.foldl_cons, ih, List.map_cons, List.sum_cons, add_assoc]
  rw [totalLoop, hfold, zero_add]

/-- The second loop of the summary sums up the squared distances of a statistic. -/
theorem squaresLoop_eq (j : Stat) (average : K) (data : List (RunStats K)) :
    squaresLoop j average data =
      ((data.map (RunStats.stats · j)).map fun v => (v - average) * (v - average)).sum := by
  have hfold (total : K) : data.foldl (fun total r =>
      total + (r.stats j - average) * (r.stats j - average)) total = total +
        ((data.map (RunStats.stats · j)).map fun v => (v - average) * (v - average)).sum := by
    induction data generalizing total with
    | nil => exact (add_zero total).symm
    | cons r data ih =>
      rw [List.foldl_cons, ih, List.map_cons, List.map_cons, List.sum_cons, add_assoc]
  rw [squaresLoop, hfold, zero_add]

/-- The averages of the summary are means. -/
theorem calcAverageStddev_average (sqrt : K → K) (data : List (RunStats K)) (j : Stat) :
    (calcAverageStddev sqrt data).average j = mean (data.map (RunStats.stats · j)) := by
  rw [mean, List.length_map, ← totalLoop_eq]
  rfl

/-- The deviations of the summary are roots of variances. -/
theorem calcAverageStddev_stddev (sqrt : K → K) (data : List (RunStats K)) (j : Stat) :
    (calcAverageStddev sqrt data).stddev j =
      sqrt (variance (data.map (RunStats.stats · j))) := by
  rw [variance, meanSquare, mean, List.length_map, List.length_map, ← squaresLoop_eq,
    ← calcAverageStddev_average sqrt]
  rfl

end

end FlukeTesting.Statstool
