import FlukeTesting.Statstool.RunStatistics

/-!
# The summary of a report

`calc_average_stddev` takes the mean and the population deviation of every statistic over the runs
of a report.
-/

namespace FlukeTesting.Statstool

open Statistics

section

variable {K : Type*} [Field K]

/-- The values of a statistic in the runs of a report. -/
def statValues (j : Stat) (data : List (RunStats K)) : List K := data.map (RunStats.stats · j)

/-- The values of the runs in another order are the values in another order. -/
theorem calcAverageStddev_perm (sqrt : K → K) {data data' : List (RunStats K)}
    (h : data.Perm data') : calcAverageStddev sqrt data' = calcAverageStddev sqrt data := by
  have hvalues (j : Stat) : (statValues j data').Perm (statValues j data) := (h.symm.map _)
  have haverage : (calcAverageStddev sqrt data').average = (calcAverageStddev sqrt data).average := by
    funext j
    rw [calcAverageStddev_average, calcAverageStddev_average]
    exact mean_perm (hvalues j)
  have hstddev : (calcAverageStddev sqrt data').stddev = (calcAverageStddev sqrt data).stddev := by
    funext j
    rw [calcAverageStddev_stddev, calcAverageStddev_stddev]
    exact congrArg sqrt (variance_perm (hvalues j))
  calc calcAverageStddev sqrt data'
      = ⟨(calcAverageStddev sqrt data').average, (calcAverageStddev sqrt data').stddev⟩ := rfl
    _ = calcAverageStddev sqrt data := by rw [haverage, hstddev]

variable [LinearOrder K]

/-- The average and the deviation of a statistic are the mean of its values and their population
deviation: the square of the deviation is the mean of the squares minus the square of the mean, and
the sum of the squared differences of all pairs over the square of the number of runs. -/
structure Summary.IsPopulation (sqrt : K → K) (summary : Summary K) (data : List (RunStats K))
    (j : Stat) : Prop where
  average_eq : summary.average j = mean (statValues j data)
  least_le : ∀ least, IsLeast {v | v ∈ statValues j data} least → least ≤ summary.average j
  le_greatest : ∀ greatest, IsGreatest {v | v ∈ statValues j data} greatest →
    summary.average j ≤ greatest
  square_eq : summary.stddev j * summary.stddev j =
    mean ((statValues j data).map fun v => v * v) -
      mean (statValues j data) * mean (statValues j data)
  square_eq_pairs : summary.stddev j * summary.stddev j =
    pairSquares (statValues j data) / (data.length * data.length)
  near : ∀ v ∈ statValues j data,
    |v - summary.average j| ≤ sqrt (data.length - 1) * summary.stddev j
  zero_iff : summary.stddev j = 0 ↔ ∀ u ∈ statValues j data, ∀ v ∈ statValues j data, u = v

/-- The summary of at least one run consists of the true mean and population deviation of every
statistic, whatever the order of the runs. -/
theorem calcAverageStddev_isPopulation [IsStrictOrderedRing K] {sqrt : K → K}
    (hsqrt : ExactSqrt sqrt) {data : List (RunStats K)} (h : data ≠ []) (j : Stat) :
    (calcAverageStddev sqrt data).IsPopulation sqrt data j ∧
      ∀ data', data.Perm data' →
        (calcAverageStddev sqrt data').average j = (calcAverageStddev sqrt data).average j ∧
          (calcAverageStddev sqrt data').stddev j = (calcAverageStddev sqrt data).stddev j := by
  have hne : statValues j data ≠ [] := by simpa [statValues] using h
  have hlength : (statValues j data).length = data.length := List.length_map _
  have haverage : (calcAverageStddev sqrt data).average j = mean (statValues j data) :=
    calcAverageStddev_average sqrt data j
  have hstddev : (calcAverageStddev sqrt data).stddev j = sqrt (variance (statValues j data)) :=
    calcAverageStddev_stddev sqrt data j
  have hvariance : 0 ≤ variance (statValues j data) := meanSquare_nonneg _ _
  have hsquare : (calcAverageStddev sqrt data).stddev j * (calcAverageStddev sqrt data).stddev j =
      variance (statValues j data) := by
    rw [hstddev]
    exact hsqrt.mul_self _ hvariance
  have hothers : (0 : K) ≤ data.length - 1 := by
    rw [sub_nonneg, Nat.one_le_cast]
    exact List.length_pos_of_ne_nil h
  refine ⟨⟨haverage, ?_, ?_, ?_, ?_, ?_, ?_⟩, fun data' hperm => ?_⟩
  · intro least hleast
    rw [haverage]
    exact le_mean hne fun v hv => hleast.2 hv
  · intro greatest hgreatest
    rw [haverage]
    exact mean_le hne fun v hv => hgreatest.2 hv
  · rw [hsquare]
    exact variance_eq hne
  · rw [hsquare, variance_eq_pairSquares hne, hlength]
  · intro v hv
    rw [haverage, hstddev, ← hsqrt.sqrt_mul hothers hvariance, ← hlength]
    exact hsqrt.abs_le_sqrt (sq_sub_mean_le hv)
  · rw [hstddev, hsqrt.sqrt_eq_zero_iff hvariance]
    exact variance_eq_zero_iff hne
  · rw [calcAverageStddev_perm sqrt hperm]
    exact ⟨rfl, rfl⟩

end

/-- The durations of a report of two runs. -/
theorem twoRuns_isPopulation :
    let data : List (RunStats ℝ) := [⟨1, 2, 3, 4, 5, 6⟩, ⟨2, 3, 4, 5, 6, 7⟩]
    (calcAverageStddev Real.sqrt data).IsPopulation Real.sqrt data .duration ∧
      ∀ data', data.Perm data' →
        (calcAverageStddev Real.sqrt data').average .duration =
            (calcAverageStddev Real.sqrt data).average .duration ∧
          (calcAverageStddev Real.sqrt data').stddev .duration =
            (calcAverageStddev Real.sqrt data).stddev .duration :=
  calcAverageStddev_isPopulation exactSqrt_real (List.cons_ne_nil _ _) .duration

end FlukeTesting.Statstool
