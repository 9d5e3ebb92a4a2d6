import Mathlib.Algebra.BigOperators.Group.List.Lemmas
import Mathlib.Algebra.BigOperators.Ring.List
import Mathlib.Algebra.Order.BigOperators.Group.List
import Mathlib.Algebra.Order.Chebyshev
import Mathlib.Algebra.Order.Field.Basic
import Mathlib.Analysis.Real.Sqrt
import Mathlib.Order.Bounds.Basic
import Mathlib.Tactic.FieldSimp
import Mathlib.Tactic.Linarith
import Mathlib.Tactic.LinearCombination
import Mathlib.Tactic.Positivity
import Mathlib.Tactic.Ring

/-!
# Means and deviations of lists

The mean of a list, its mean square about a point and its variance, over an ordered field with a
square root that is exact where it is asked. The rules say how these scale, within which bounds
they stay and when they vanish.
-/

namespace Statistics

/-- A square root that is exact on everything that is not negative. -/
structure ExactSqrt {K : Type*} [Field K] [LinearOrder K] (sqrt : K → K) : Prop where
  nonneg : ∀ x, 0 ≤ x → 0 ≤ sqrt x
  mul_self : ∀ x, 0 ≤ x → sqrt x * sqrt x = x

section

variable {K : Type*} [Field K]

/-- The arithmetic mean. -/
def mean (values : List K) : K := values.sum / values.length

/-- The mean of the squared distances from a point. -/
def meanSquare (a : K) (values : List K) : K := mean (values.map fun v => (v - a) * (v - a))

/-- The mean squared distance from the mean. -/
def variance (values : List K) : K := meanSquare (mean values) values

/-- The sum of the squared differences of all pairs. -/
def pairSquares : List K → K
  | [] => 0
  | v :: rest => (rest.map fun u => (v - u) * (v - u)).sum + pairSquares rest

/-- Scaling the values scales the mean. -/
theorem mean_map_mul (k : K) (values : List K) : mean (values.map (k * ·)) = k * mean values := by
  unfold mean
  rw [List.sum_map_mul_left, List.map_id', List.length_map, mul_div_assoc]

/-- Scaling the values and the point scales the mean square by the square. -/
theorem meanSquare_map_mul (k a : K) (values : List K) :
    meanSquare (k * a) (values.map (k * ·)) = k * k * meanSquare a values := by
  unfold meanSquare
  rw [← mean_map_mul, List.map_map, List.map_map]
  congr 1
  apply List.map_congr_left
  intro v _
  simp only [Function.comp_apply]
  ring

/-- Scaling the values scales the variance by the square. -/
theorem variance_map_mul (k : K) (values : List K) :
    variance (values.map (k * ·)) = k * k * variance values := by
  rw [variance, mean_map_mul, meanSquare_map_mul, variance]

/-- The mean does not depend on the order. -/
theorem mean_perm {values values' : List K} (h : values.Perm values') :
    mean values = mean values' := by
  rw [mean, mean, h.sum_eq, h.length_eq]

/-- The variance does not depend on the order. -/
theorem variance_perm {values values' : List K} (h : values.Perm values') :
    variance values = variance values' := by
  rw [variance, variance, mean_perm h, meanSquare, meanSquare, mean_perm (h.map _)]

/-- The squared distances from a point, summed up. -/
theorem sum_sq_sub (a : K) (values : List K) :
    (values.map fun v => (v - a) * (v - a)).sum =
      (values.map fun v => v * v).sum - 2 * a * values.sum + values.length * (a * a) := by
  induction values with
  | nil => simp
  | cons v rest ih =>
    simp only [List.map_cons, List.sum_cons, List.length_cons, Nat.cast_add, Nat.cast_one, ih]
    ring

/-- The pairwise squares are a difference of sums. -/
theorem pairSquares_eq (values : List K) :
    pairSquares values =
      values.length * (values.map fun v => v * v).sum - values.sum * values.sum := by
  induction values with
  | nil => simp [pairSquares]
  | cons v rest ih =>
    have hfirst : (rest.map fun u => (v - u) * (v - u)).sum =
        (rest.map fun u => (u - v) * (u - v)).sum := by
      congr 1
      exact List.map_congr_left fun u _ => by ring
    rw [pairSquares, ih, hfirst, sum_sq_sub]
    simp only [List.map_cons, List.sum_cons, List.length_cons, Nat.cast_add, Nat.cast_one]
    ring

variable [LinearOrder K] [IsStrictOrderedRing K]

/-- The length of a list with elements is not zero. -/
theorem length_ne_zero {values : List K} (h : values ≠ []) : (values.length : K) ≠ 0 :=
  Nat.cast_ne_zero.mpr fun hzero => h (List.length_eq_zero_iff.mp hzero)

/-- The sum is the mean times the number of values. -/
theorem length_mul_mean {values : List K} (h : values ≠ []) :
    values.length * mean values = values.sum :=
  mul_div_cancel₀ _ (length_ne_zero h)

/-- The distances from the mean cancel. -/
theorem sum_sub_mean {values : List K} (h : values ≠ []) :
    (values.map fun v => v - mean values).sum = 0 := by
  have hsum (a : K) : (values.map fun v => v - a).sum = values.sum - values.length * a := by
    induction values with
    | nil => simp
    | cons v rest ih =>
      by_cases hrest : rest = []
      · simp [hrest]
      · simp only [List.map_cons, List.sum_cons, List.length_cons, Nat.cast_add, Nat.cast_one,
          ih hrest]
        ring
  rw [hsum, length_mul_mean h, sub_self]

/-- The variance is the mean of the squares minus the square of the mean. -/
theorem variance_eq {values : List K} (h : values ≠ []) :
    variance values = mean (values.map fun v => v * v) - mean values * mean values := by
  have hlength := length_ne_zero h
  simp only [variance, meanSquare, mean, List.length_map, sum_sq_sub]
  field_simp
  ring

/-- The variance is the sum of the pairwise squares over the square of their number. -/
theorem variance_eq_pairSquares {values : List K} (h : values ≠ []) :
    variance values = pairSquares values / (values.length * values.length) := by
  have hlength := length_ne_zero h
  rw [variance_eq h, pairSquares_eq, mean, mean, List.length_map]
  field_simp

/-- What bounds all values from below bounds their mean. -/
theorem le_mean {values : List K} (h : values ≠ []) {a : K} (ha : ∀ v ∈ values, a ≤ v) :
    a ≤ mean values := by
  have hpos : (0 : K) < values.length := Nat.cast_pos.mpr (List.length_pos_of_ne_nil h)
  rw [mean, le_div_iff₀ hpos, mul_comm, ← nsmul_eq_mul]
  exact values.card_nsmul_le_sum a ha

/-- What bounds all values from above bounds their mean. -/
theorem mean_le {values : List K} (h : values ≠ []) {a : K} (ha : ∀ v ∈ values, v ≤ a) :
    mean values ≤ a := by
  have hpos : (0 : K) < values.length := Nat.cast_pos.mpr (List.length_pos_of_ne_nil h)
  rw [mean, div_le_iff₀ hpos, mul_comm, ← nsmul_eq_mul]
  exact values.sum_le_card_nsmul a ha

/-- A mean square is not negative. -/
theorem meanSquare_nonneg (a : K) (values : List K) : 0 ≤ meanSquare a values := by
  refine div_nonneg (List.sum_nonneg fun x hx => ?_) (Nat.cast_nonneg _)
  obtain ⟨v, -, rfl⟩ := List.mem_map.mp hx
  exact mul_self_nonneg _

/-- If all values are within a distance of a point, so is their mean square within its square. -/
theorem meanSquare_le {values : List K} (h : values ≠ []) {a d : K}
    (hd : ∀ v ∈ values, |v - a| ≤ d) : meanSquare a values ≤ d * d := by
  apply mean_le (by simpa using h)
  intro x hx
  obtain ⟨v, hv, rfl⟩ := List.mem_map.mp hx
  rw [← abs_mul_abs_self]
  exact mul_self_le_mul_self (abs_nonneg _) (hd v hv)

/-- A mean square vanishes exactly if all values are at the point. -/
theorem meanSquare_eq_zero_iff {values : List K} (h : values ≠ []) (a : K) :
    meanSquare a values = 0 ↔ ∀ v ∈ values, v = a := by
  have hlength : ((values.map fun v => (v - a) * (v - a)).length : K) ≠ 0 :=
    length_ne_zero (by simpa using h)
  have hsquares : ∀ x ∈ values.map fun v => (v - a) * (v - a), 0 ≤ x := by
    intro x hx
    obtain ⟨v, -, rfl⟩ := List.mem_map.mp hx
    exact mul_self_nonneg _
  rw [meanSquare, mean, div_eq_zero_iff, or_iff_left hlength]
  constructor
  · intro hsum v hv
    have hzero := List.all_zero_of_le_zero_le_of_sum_eq_zero hsquares hsum
      (List.mem_map_of_mem (f := fun v => (v - a) * (v - a)) hv)
    exact sub_eq_zero.mp (mul_self_eq_zero.mp hzero)
  · intro hall
    apply List.sum_eq_zero
    intro x hx
    obtain ⟨v, hv, rfl⟩ := List.mem_map.mp hx
    rw [hall v hv, sub_self, mul_zero]

/-- The variance vanishes exactly if all values are equal. -/
theorem variance_eq_zero_iff {values : List K} (h : values ≠ []) :
    variance values = 0 ↔ ∀ u ∈ values, ∀ v ∈ values, u = v := by
  rw [variance, meanSquare_eq_zero_iff h]
  constructor
  · intro hall u hu v hv
    rw [hall u hu, hall v hv]
  · intro hall v hv
    exact le_antisymm (le_mean h fun u hu => (hall v hv u hu).le)
      (mean_le h fun u hu => (hall v hv u hu).ge)

/-- The square of a sum is at most the sum of the squares times the number of values. -/
theorem sum_mul_sum_le (values : List K) :
    values.sum * values.sum ≤ values.length * (values.map fun v => v * v).sum := by
  have hsquares (rest : List K) (v : K) : 0 ≤ (rest.map fun u => (v - u) * (v - u)).sum := by
    apply List.sum_nonneg
    intro x hx
    obtain ⟨u, -, rfl⟩ := List.mem_map.mp hx
    exact mul_self_nonneg _
  have hpairs : 0 ≤ pairSquares values := by
    induction values with
    | nil => exact le_rfl
    | cons v rest ih => exact add_nonneg (hsquares rest v) ih
  rw [pairSquares_eq] at hpairs
  exact sub_nonneg.mp hpairs

/-- No value is further from the mean than the other ones can balance. -/
theorem sq_sub_mean_le {values : List K} {v : K} (hv : v ∈ values) :
    (v - mean values) * (v - mean values) ≤ (values.length - 1) * variance values := by
  have hne : values ≠ [] := List.ne_nil_of_mem hv
  obtain ⟨front, back, rfl⟩ := List.append_of_mem hv
  set m := mean (front ++ v :: back) with hm
  -- the other distances sum up to the opposite of the distance of the value
  have hothers : ((front ++ back).map fun u => u - m).sum = -(v - m) := by
    have hzero := sum_sub_mean hne
    rw [← hm] at hzero
    simp only [List.map_append, List.map_cons, List.sum_append, List.sum_cons] at hzero ⊢
    linear_combination hzero
  have hcauchy := sum_mul_sum_le ((front ++ back).map fun u => u - m)
  rw [hothers, List.length_map, List.map_map, List.length_append] at hcauchy
  have hlength : ((front ++ v :: back).length : K) = (front.length + back.length : ℕ) + 1 := by
    rw [List.length_append, List.length_cons]
    push_cast
    ring
  have hspread : ((front.length + back.length : ℕ) + 1 : K) * variance (front ++ v :: back) =
      (v - m) * (v - m) + ((front ++ back).map ((fun u => u * u) ∘ fun u => u - m)).sum := by
    have hsquares : ((front ++ v :: back).map fun u => (u - m) * (u - m)) ≠ [] := by simp
    have hsum := length_mul_mean hsquares
    rw [List.length_map, hlength] at hsum
    rw [variance, meanSquare, ← hm, hsum]
    simp only [List.map_append, List.map_cons, List.sum_append, List.sum_cons, Function.comp_def]
    ring
  set n : K := ((front.length + back.length : ℕ) : K) with hn
  have hpos : 0 ≤ n := Nat.cast_nonneg _
  rw [hlength, add_sub_cancel_right]
  have hscaled : (n + 1) * ((v - m) * (v - m)) ≤
      (n + 1) * (n * variance (front ++ v :: back)) := by
    calc (n + 1) * ((v - m) * (v - m))
        = n * ((v - m) * (v - m)) + -(v - m) * -(v - m) := by ring
      _ ≤ n * ((v - m) * (v - m)) +
            n * ((front ++ back).map ((fun u => u * u) ∘ fun u => u - m)).sum := by linarith
      _ = (n + 1) * (n * variance (front ++ v :: back)) := by linear_combination -n * hspread
  exact le_of_mul_le_mul_left hscaled (by linarith)

namespace ExactSqrt

variable {sqrt : K → K} (h : ExactSqrt sqrt)

include h

/-- The root of a square is the number that is not negative. -/
theorem sqrt_mul_self {a : K} (ha : 0 ≤ a) : sqrt (a * a) = a := by
  have hsq := mul_self_nonneg a
  exact (mul_self_inj (h.nonneg _ hsq) ha).mp (h.mul_self _ hsq)

/-- A square comes out of the root as an absolute value. -/
theorem sqrt_mul_self_mul (k : K) {x : K} (hx : 0 ≤ x) : sqrt (k * k * x) = |k| * sqrt x := by
  have hroot : |k| * sqrt x * (|k| * sqrt x) = k * k * x := by
    rw [mul_mul_mul_comm, abs_mul_abs_self, h.mul_self x hx]
  rw [← hroot]
  exact h.sqrt_mul_self (mul_nonneg (abs_nonneg _) (h.nonneg x hx))

/-- Only zero has the root zero. -/
theorem sqrt_eq_zero_iff {x : K} (hx : 0 ≤ x) : sqrt x = 0 ↔ x = 0 := by
  rw [← mul_self_eq_zero, h.mul_self x hx]

/-- A root stays below every number whose square is not below the argument. -/
theorem sqrt_le {x d : K} (hx : 0 ≤ x) (hd : 0 ≤ d) (hle : x ≤ d * d) : sqrt x ≤ d := by
  apply (mul_self_le_mul_self_iff (h.nonneg x hx) hd).mpr
  rwa [h.mul_self x hx]

/-- The root of a product is the product of the roots. -/
theorem sqrt_mul {x y : K} (hx : 0 ≤ x) (hy : 0 ≤ y) : sqrt (x * y) = sqrt x * sqrt y := by
  have hroot : sqrt x * sqrt y * (sqrt x * sqrt y) = x * y := by
    rw [mul_mul_mul_comm, h.mul_self x hx, h.mul_self y hy]
  rw [← hroot]
  exact h.sqrt_mul_self (mul_nonneg (h.nonneg x hx) (h.nonneg y hy))

/-- A number whose square is not above the argument stays below the root in absolute value. -/
theorem abs_le_sqrt {x a : K} (hle : a * a ≤ x) : |a| ≤ sqrt x := by
  have hx : 0 ≤ x := (mul_self_nonneg a).trans hle
  apply (mul_self_le_mul_self_iff (abs_nonneg a) (h.nonneg x hx)).mpr
  rwa [abs_mul_abs_self, h.mul_self x hx]

end ExactSqrt

end

/-- The square root of the reals is exact. -/
theorem exactSqrt_real : ExactSqrt Real.sqrt where
  nonneg x _ := Real.sqrt_nonneg x
  mul_self _ h := Real.mul_self_sqrt h

end Statistics
