import FlukeTesting.Statstool.Extremes
import FlukeTesting.Statstool.RunStatistics

/-!
# What the statistics of a run say about its samples

The average current of a run and its deviation stay within the range of the samples. The deviation
is taken of the means of neighbouring samples: it vanishes not only for a steady current, but for
every current that alternates between two values.
-/

namespace FlukeTesting.Statstool

open Statistics

section

variable {K : Type*}

/-- A run of at least two samples whose extremes in time are the times of the first and the last
one. -/
structure Slot.Framed (slot : Slot K) : Prop where
  samples : 2 ≤ slot.points.length
  first : ∀ p ∈ slot.points.head?, slot.xMin = p.x
  last : ∀ p ∈ slot.points.getLast?, slot.xMax = p.x

/-- The times of the points increase. -/
def Slot.Increasing [LT K] (slot : Slot K) : Prop := slot.points.Pairwise fun p q => p.x < q.x

/-- Times that increase do not decrease. -/
theorem Slot.Increasing.chronological [LinearOrder K] {slot : Slot K} (h : slot.Increasing) :
    slot.Chronological :=
  h.imp le_of_lt

/-- The first two vertices of the curve of a framed run, and its last one. -/
theorem Slot.Framed.curve_eq {slot : Slot K} (h : slot.Framed) :
    ∃ p q rest, slot.curve = p :: q :: rest ∧ slot.xMin = p.1 ∧
      ∃ last ∈ slot.curve.getLast?, slot.xMax = last.1 := by
  obtain ⟨hsamples, hfirst, hlast⟩ := h
  unfold Slot.curve
  match hpoints : slot.points with
  | [] => simp [hpoints] at hsamples
  | [p] => simp [hpoints] at hsamples
  | p :: q :: rest =>
    rw [hpoints] at hfirst hlast
    refine ⟨p.vertex, q.vertex, rest.map Point.vertex, rfl, hfirst p rfl, ?_⟩
    have hne : p :: q :: rest ≠ [] := List.cons_ne_nil _ _
    refine ⟨((p :: q :: rest).getLast hne).vertex, ?_, hlast _ (List.getLast?_eq_some_getLast hne)⟩
    rw [List.getLast?_map, List.getLast?_eq_some_getLast hne]
    rfl

/-- The vertices of the curve of a run in time order go from left to right. -/
theorem Slot.Chronological.curve [LinearOrder K] {slot : Slot K} (h : slot.Chronological) :
    slot.curve.Pairwise fun u v => u.1 ≤ v.1 :=
  List.pairwise_map.mpr h

variable [Field K] [LinearOrder K] [IsStrictOrderedRing K]

/-- A framed run in time order whose extremes in time differ has a duration. -/
theorem Slot.Framed.duration_pos {slot : Slot K} (h : slot.Framed) (hx : slot.Chronological)
    (hdiffer : slot.xMin ≠ slot.xMax) : 0 < slot.xMax - slot.xMin := by
  obtain ⟨p, q, rest, hcurve, hmin, last, hlast, hmax⟩ := h.curve_eq
  have hsorted := hx.curve
  rw [hcurve] at hsorted hlast
  have hmem : last ∈ q :: rest := by
    rw [List.getLast?_cons_cons] at hlast
    exact List.mem_of_getLast? hlast
  have hle := (List.pairwise_cons.mp hsorted).1 last hmem
  rw [← hmin, ← hmax] at hle
  exact sub_pos.mpr (lt_of_le_of_ne hle hdiffer)

/-- What is below all mean heights is below the average current. -/
theorem Slot.Framed.le_averageCurrent {slot : Slot K} (h : slot.Framed) (hx : slot.Chronological)
    (hdiffer : slot.xMin ≠ slot.xMax) (sqrt : K → K) {a : K}
    (ha : ∀ y ∈ Polyline.heights slot.curve, a ≤ y) : a ≤ (analyseRun sqrt slot).averageCurrent := by
  have hpos := h.duration_pos hx hdiffer
  obtain ⟨p, q, rest, hcurve, hmin, last, hlast, hmax⟩ := h.curve_eq
  have hsorted := hx.curve
  rw [analyseRun_averageCurrent, le_div_iff₀ hpos, hmin, hmax]
  rw [hcurve] at hsorted hlast ha ⊢
  exact Polyline.mul_span_le_area hsorted ha hlast

/-- What is above all mean heights is above the average current. -/
theorem Slot.Framed.averageCurrent_le {slot : Slot K} (h : slot.Framed) (hx : slot.Chronological)
    (hdiffer : slot.xMin ≠ slot.xMax) (sqrt : K → K) {a : K}
    (ha : ∀ y ∈ Polyline.heights slot.curve, y ≤ a) : (analyseRun sqrt slot).averageCurrent ≤ a := by
  have hpos := h.duration_pos hx hdiffer
  obtain ⟨p, q, rest, hcurve, hmin, last, hlast, hmax⟩ := h.curve_eq
  have hsorted := hx.curve
  rw [analyseRun_averageCurrent, div_le_iff₀ hpos, hmin, hmax]
  rw [hcurve] at hsorted hlast ha ⊢
  exact Polyline.area_le_mul_span hsorted ha hlast

/-- The statistics of a run stay within the range of its samples: the average lies between the
least and the greatest value, and the deviation is at most their difference. -/
structure RunStats.WithinRange (r : RunStats K) (least greatest : K) : Prop where
  least_le : least ≤ r.averageCurrent
  le_greatest : r.averageCurrent ≤ greatest
  stdDev_nonneg : 0 ≤ r.stdDev
  stdDev_le : r.stdDev ≤ greatest - least

/-- The reported current stays within the measured range. -/
theorem analyseRun_withinRange {sqrt : K → K} (hsqrt : ExactSqrt sqrt) {slot : Slot K}
    (h : slot.Framed) (hx : slot.Chronological) (hdiffer : slot.xMin ≠ slot.xMax)
    {least greatest : K} (hleast : IsLeast {y | y ∈ slot.points.map Point.y} least)
    (hgreatest : IsGreatest {y | y ∈ slot.points.map Point.y} greatest) :
    (analyseRun sqrt slot).WithinRange least greatest := by
  have hlower : ∀ y ∈ Polyline.heights slot.curve, least ≤ y := by
    apply Polyline.le_heights
    intro v hv
    obtain ⟨p, hp, rfl⟩ := List.mem_map.mp hv
    have hmem : p.y ∈ slot.points.map Point.y := List.mem_map_of_mem hp
    exact hleast.2 hmem
  have hupper : ∀ y ∈ Polyline.heights slot.curve, y ≤ greatest := by
    apply Polyline.heights_le
    intro v hv
    obtain ⟨p, hp, rfl⟩ := List.mem_map.mp hv
    have hmem : p.y ∈ slot.points.map Point.y := List.mem_map_of_mem hp
    exact hgreatest.2 hmem
  have hbelow := h.le_averageCurrent hx hdiffer sqrt hlower
  have habove := h.averageCurrent_le hx hdiffer sqrt hupper
  have hsquare : meanSquare (analyseRun sqrt slot).averageCurrent (Polyline.heights slot.curve) ≤
      (greatest - least) * (greatest - least) := by
    have hheights : Polyline.heights slot.curve ≠ [] :=
      Polyline.heights_ne_nil (by simpa [Slot.curve] using h.samples)
    apply meanSquare_le hheights
    intro y hy
    rw [abs_sub_le_iff]
    exact ⟨sub_le_sub (hupper y hy) hbelow, sub_le_sub habove (hlower y hy)⟩
  refine ⟨hbelow, habove, ?_, ?_⟩
  · rw [analyseRun_stdDev]
    exact hsqrt.nonneg _ (meanSquare_nonneg _ _)
  · rw [analyseRun_stdDev]
    exact hsqrt.sqrt_le (meanSquare_nonneg _ _) (sub_nonneg.mpr (hbelow.trans habove)) hsquare

/-- In a framed run in time order with a duration, the deviation vanishes exactly if all mean
heights are the first one. -/
theorem Slot.Framed.stdDev_eq_zero_iff {sqrt : K → K} (hsqrt : ExactSqrt sqrt) {slot : Slot K}
    (h : slot.Framed) (hx : slot.Chronological) (hdiffer : slot.xMin ≠ slot.xMax) {p q : K × K}
    {rest : List (K × K)} (hcurve : slot.curve = p :: q :: rest) :
    (analyseRun sqrt slot).stdDev = 0 ↔
      ∀ y ∈ Polyline.heights slot.curve, y = (p.2 + q.2) / 2 := by
  have hheights : Polyline.heights slot.curve ≠ [] :=
    Polyline.heights_ne_nil (by simpa [Slot.curve] using h.samples)
  rw [analyseRun_stdDev, hsqrt.sqrt_eq_zero_iff (meanSquare_nonneg _ _),
    meanSquare_eq_zero_iff hheights]
  constructor
  · intro hall y hy
    have hfirst := hall ((p.2 + q.2) / 2) (by rw [hcurve]; exact List.mem_cons_self)
    rw [hall y hy, hfirst]
  · intro hall
    have haverage : (analyseRun sqrt slot).averageCurrent = (p.2 + q.2) / 2 :=
      le_antisymm (h.averageCurrent_le hx hdiffer sqrt fun y hy => (hall y hy).le)
        (h.le_averageCurrent hx hdiffer sqrt fun y hy => (hall y hy).ge)
    rwa [haverage]

/-- The deviation of a run vanishes exactly if its current alternates between two values: every
sample has the value of the one after the next. -/
theorem stdDev_eq_zero_iff_alternates {sqrt : K → K} (hsqrt : ExactSqrt sqrt) {slot : Slot K}
    (h : slot.Framed) (hx : slot.Increasing) :
    (analyseRun sqrt slot).stdDev = 0 ↔
      ∀ (i : ℕ) (p q : Point K), slot.points[i]? = some p → slot.points[i + 2]? = some q →
        p.y = q.y := by
  obtain ⟨u, v, rest, hcurve, hmin, last, hlast, hmax⟩ := h.curve_eq
  have hdiffer : slot.xMin ≠ slot.xMax := by
    have hsorted : slot.curve.Pairwise fun u v => u.1 < v.1 := List.pairwise_map.mpr hx
    rw [hcurve] at hsorted hlast
    rw [List.getLast?_cons_cons] at hlast
    rw [hmin, hmax]
    exact ((List.pairwise_cons.mp hsorted).1 last (List.mem_of_getLast? hlast)).ne
  rw [h.stdDev_eq_zero_iff hsqrt hx.chronological hdiffer hcurve, hcurve,
    Polyline.heights_eq_first_iff, ← hcurve]
  unfold Polyline.Alternates Slot.curve
  constructor
  · intro halternates i p q hp hq
    exact halternates i p.vertex q.vertex (by simp [hp]) (by simp [hq])
  · intro halternates i a b ha hb
    rw [List.getElem?_map, Option.map_eq_some_iff] at ha hb
    obtain ⟨p, hp, rfl⟩ := ha
    obtain ⟨q, hq, rfl⟩ := hb
    exact halternates i p q hp hq

end

/-- A run of two samples of different values. -/
def stepRun : Slot ℝ := ⟨0, 1, 0, 1, [⟨0, 0, 1⟩, ⟨1, 1, 2⟩], 2, 0⟩

/-- It is framed. -/
theorem stepRun_framed : stepRun.Framed where
  samples := le_rfl
  first p hp := by
    obtain rfl : (⟨0, 0, 1⟩ : Point ℝ) = p := by simpa [stepRun] using hp
    rfl
  last p hp := by
    obtain rfl : (⟨1, 1, 2⟩ : Point ℝ) = p := by simpa [stepRun] using hp
    rfl

/-- Its times increase. -/
theorem stepRun_increasing : stepRun.Increasing := by
  simp [Slot.Increasing, stepRun]

/-- Its average current lies between zero and one. -/
theorem stepRun_withinRange : (analyseRun Real.sqrt stepRun).WithinRange 0 1 :=
  analyseRun_withinRange exactSqrt_real stepRun_framed stepRun_increasing.chronological
    (by simp [stepRun])
    (by simp [stepRun, IsLeast, lowerBounds]) (by simp [stepRun, IsGreatest, upperBounds])

/-- Its deviation vanishes if and only if it alternates. -/
theorem stepRun_alternates :
    (analyseRun Real.sqrt stepRun).stdDev = 0 ↔
      ∀ (i : ℕ) (p q : Point ℝ), stepRun.points[i]? = some p → stepRun.points[i + 2]? = some q →
        p.y = q.y :=
  stdDev_eq_zero_iff_alternates exactSqrt_real stepRun_framed stepRun_increasing

/-- Its deviation vanishes, and its values differ. -/
theorem stepRun_not_steady :
    ¬ (stepRun.Framed → stepRun.Increasing → ((analyseRun Real.sqrt stepRun).stdDev = 0 ↔
      ∀ p ∈ stepRun.points, ∀ q ∈ stepRun.points, p.y = q.y)) := by
  intro hclaim
  have hzero : (analyseRun Real.sqrt stepRun).stdDev = 0 := by
    rw [stepRun_framed.stdDev_eq_zero_iff exactSqrt_real stepRun_increasing.chronological
      (by simp [stepRun]) (rfl : stepRun.curve = [(0, 0), (1, 1)])]
    simp [Slot.curve, stepRun, Point.vertex]
  have hsame := (hclaim stepRun_framed stepRun_increasing).mp hzero ⟨0, 0, 1⟩ (by simp [stepRun])
    ⟨1, 1, 2⟩ (by simp [stepRun])
  norm_num at hsame

end FlukeTesting.Statstool
