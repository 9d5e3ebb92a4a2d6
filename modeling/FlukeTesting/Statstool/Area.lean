import FlukeTesting.Lib.Interpolation
import FlukeTesting.Statstool.Extremes
import FlukeTesting.Statstool.RunStatistics

/-!
# The integral of a run

The first loop of `data_analyse` computes the integral of the piecewise linear function through the
samples of a run.
-/

namespace FlukeTesting.Statstool

open Polyline

section

variable {K : Type*}

/-- The same run with other points. -/
def Slot.withPoints (slot : Slot K) (points : List (Point K)) : Slot K := { slot with points }

/-- The integral of a run with other points is the area under them. -/
theorem analyseRun_withPoints_integral [Field K] (sqrt : K → K) (slot : Slot K)
    (points : List (Point K)) :
    (analyseRun sqrt (slot.withPoints points)).integral = area (points.map Point.vertex) :=
  analyseRun_integral sqrt (slot.withPoints points)

end

/-- The integral of a run is the area under its samples: the integral, from the first to the last
time, of every function that is linear between consecutive samples. So it is the sum over the two
parts of a run that is cut at a sample, and a sample on the segment between its neighbours does not
count. -/
structure Slot.IntegralIsArea (sqrt : ℝ → ℝ) (slot : Slot ℝ) : Prop where
  exists_follows : ∃ f, Follows f slot.curve
  integral_eq : ∀ f, Follows f slot.curve →
    ∀ first ∈ slot.points.head?, ∀ last ∈ slot.points.getLast?,
      (analyseRun sqrt slot).integral = ∫ t in first.x..last.x, f t
  empty : slot.points = [] → (analyseRun sqrt slot).integral = 0
  cut : ∀ front p back, slot.points = front ++ p :: back →
    (analyseRun sqrt slot).integral =
      (analyseRun sqrt (slot.withPoints (front ++ [p]))).integral +
        (analyseRun sqrt (slot.withPoints (p :: back))).integral
  insert : ∀ front p m q back, slot.points = front ++ p :: q :: back →
    (∃ θ, 0 ≤ θ ∧ θ ≤ 1 ∧ m.vertex = between p.vertex q.vertex θ) →
    (analyseRun sqrt (slot.withPoints (front ++ p :: m :: q :: back))).integral =
      (analyseRun sqrt slot).integral

/-- The integral of a run in time order is the area under its samples. -/
theorem Slot.Chronological.integralIsArea (sqrt : ℝ → ℝ) {slot : Slot ℝ}
    (h : slot.Chronological) : slot.IntegralIsArea sqrt := by
  have hcurve : slot.curve.Pairwise fun u v => u.1 ≤ v.1 := List.pairwise_map.mpr h
  refine ⟨⟨_, follows_interpolate hcurve⟩, ?_, ?_, ?_, ?_⟩
  · intro f hf first hfirst last hlast
    rw [analyseRun_integral]
    obtain ⟨rest, hrest⟩ := List.head?_eq_some_iff.mp hfirst
    have hvertices : slot.curve = first.vertex :: rest.map Point.vertex := by
      rw [Slot.curve, hrest, List.map_cons]
    have hend : last.vertex ∈ (first.vertex :: rest.map Point.vertex).getLast? := by
      rw [← hvertices, Slot.curve, List.getLast?_map, Option.mem_def.mp hlast]
      rfl
    rw [hvertices] at hf hcurve ⊢
    exact (hf.integral_eq hcurve hend).2.symm
  · intro hnil
    rw [analyseRun_integral, Slot.curve, hnil, List.map_nil, area_nil]
  · intro front p back hpoints
    rw [analyseRun_integral, analyseRun_withPoints_integral, analyseRun_withPoints_integral,
      Slot.curve, hpoints, List.map_append, List.map_cons, area_append, List.map_append]
    rfl
  · rintro front p m q back hpoints ⟨θ, -, -, hm⟩
    rw [analyseRun_withPoints_integral, analyseRun_integral, Slot.curve, hpoints, List.map_append,
      List.map_cons, List.map_cons, List.map_cons, hm, area_insert, List.map_append, List.map_cons,
      List.map_cons]

/-- A run with two samples at the same time. -/
def jumpRun : Slot ℝ := ⟨-1, 1, 0, 1, [⟨-1, 1, 1⟩, ⟨0, 1, 2⟩, ⟨0, 0, 3⟩, ⟨1, 1, 4⟩], 4, 0⟩

/-- Its integral is the area under its samples. -/
theorem jumpRun_integralIsArea : jumpRun.IntegralIsArea Real.sqrt :=
  Slot.Chronological.integralIsArea Real.sqrt (by simp [Slot.Chronological, jumpRun])

end FlukeTesting.Statstool
