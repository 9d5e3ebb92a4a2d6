import FlukeTesting.Lib.Polyline
import Mathlib.Analysis.SpecialFunctions.Integrals.Basic

/-!
# The area under a polyline is an integral

A function follows a polyline if it is the line through the end points between any two consecutive
vertices. Its values at the vertices do not matter, so a polyline may rise or fall vertically. The
integral of such a function is the sum of trapezoids.
-/

namespace Polyline

open MeasureTheory Set

/-- A function is the line through the end points inside every segment of a polyline. -/
def Follows (f : ℝ → ℝ) (vertices : List (ℝ × ℝ)) : Prop :=
  ∀ front back p q, vertices = front ++ p :: q :: back → ∀ t, p.1 < t → t < q.1 → f t = line p q t

/-- What follows a polyline follows it without the first vertex. -/
theorem Follows.tail {f : ℝ → ℝ} {p : ℝ × ℝ} {rest : List (ℝ × ℝ)} (h : Follows f (p :: rest)) :
    Follows f rest :=
  fun front back u v hsplit => h (p :: front) back u v (by rw [hsplit, List.cons_append])

/-- The piecewise linear function through the vertices of a polyline. -/
noncomputable def interpolate : List (ℝ × ℝ) → ℝ → ℝ
  | p :: q :: rest, t => if t ≤ q.1 then line p q t else interpolate (q :: rest) t
  | _, _ => 0

/-- The piecewise linear function through vertices from left to right follows the polyline. -/
theorem follows_interpolate {vertices : List (ℝ × ℝ)}
    (hx : vertices.Pairwise fun u v => u.1 ≤ v.1) : Follows (interpolate vertices) vertices := by
  rintro front back p q rfl t hp hq
  induction front with
  | nil => exact if_pos hq.le
  | cons u front ih =>
    obtain ⟨-, hx⟩ := List.pairwise_cons.mp hx
    rw [← ih hx]
    cases front with
    | nil => exact if_neg hp.not_ge
    | cons v front =>
      have hv : v.1 ≤ p.1 := (List.pairwise_cons.mp hx).1 p (by simp)
      exact if_neg (hv.trans_lt hp).not_ge

/-- The integral of the line through two vertices is the trapezoid under it. -/
theorem integral_line (p q : ℝ × ℝ) :
    ∫ t in p.1..q.1, line p q t = (p.2 + q.2) / 2 * (q.1 - p.1) := by
  have hline : ∫ t in p.1..q.1, line p q t =
      ∫ t in (0 : ℝ)..(q.1 - p.1), (p.2 + (q.2 - p.2) / (q.1 - p.1) * t) := by
    rw [← sub_self p.1]
    exact intervalIntegral.integral_comp_sub_right
      (fun t => p.2 + (q.2 - p.2) / (q.1 - p.1) * t) p.1
  have hslope : IntervalIntegrable (fun t : ℝ => (q.2 - p.2) / (q.1 - p.1) * t) volume 0
      (q.1 - p.1) := (continuous_const.mul continuous_id).intervalIntegrable _ _
  rw [hline, intervalIntegral.integral_add intervalIntegrable_const hslope,
    intervalIntegral.integral_const, intervalIntegral.integral_const_mul, integral_id]
  rcases eq_or_ne (q.1 - p.1) 0 with hzero | hne
  · simp [hzero]
  · rw [smul_eq_mul]
    field_simp
    ring

/-- A function that follows a polyline from left to right is integrable along it, and its integral
is the area under the polyline. -/
theorem Follows.integral_eq {f : ℝ → ℝ} {p last : ℝ × ℝ} {rest : List (ℝ × ℝ)}
    (h : Follows f (p :: rest)) (hx : (p :: rest).Pairwise fun u v => u.1 ≤ v.1)
    (hlast : last ∈ (p :: rest).getLast?) :
    IntervalIntegrable f volume p.1 last.1 ∧ ∫ t in p.1..last.1, f t = area (p :: rest) := by
  induction rest generalizing p with
  | nil =>
    rw [List.getLast?_singleton, Option.mem_some_iff] at hlast
    rw [← hlast, intervalIntegral.integral_same]
    exact ⟨IntervalIntegrable.refl, rfl⟩
  | cons q rest ih =>
    obtain ⟨hp, hrest⟩ := List.pairwise_cons.mp hx
    have hle : p.1 ≤ q.1 := hp q List.mem_cons_self
    obtain ⟨hintegrable, hintegral⟩ := ih h.tail hrest (by rwa [List.getLast?_cons_cons] at hlast)
    have hsegment : EqOn f (line p q) (Ioo p.1 q.1) := fun t ht =>
      h [] rest p q rfl t ht.1 ht.2
    have hfirst : IntervalIntegrable f volume p.1 q.1 := by
      have hline : Continuous (line p q) := by
        unfold line
        fun_prop
      apply (hline.intervalIntegrable p.1 q.1).congr_uIoo
      rw [uIoo_of_le hle]
      exact hsegment.symm
    refine ⟨hfirst.trans hintegrable, ?_⟩
    rw [← intervalIntegral.integral_add_adjacent_intervals hfirst hintegrable, hintegral,
      intervalIntegral.integral_congr_Ioo_of_le hle hsegment, integral_line, area_cons_cons]

end Polyline
