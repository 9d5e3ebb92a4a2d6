import Mathlib.Algebra.BigOperators.Ring.List
import Mathlib.Algebra.Order.Field.Basic
import Mathlib.Tactic.LinearCombination
import Mathlib.Tactic.Linarith
import Mathlib.Tactic.Ring

/-!
# Polylines

A polyline is a list of vertices. Its segments have mean heights and areas under them, which add
up to the area under the polyline. Over an ordered field with vertices from left to right, the area
stays between the rectangles of the least and the greatest height.
-/

namespace Polyline

section

variable {K : Type*} [Field K]

/-- The mean heights of the segments. -/
def heights : List (K × K) → List K
  | p :: q :: rest => (p.2 + q.2) / (2 : ℕ) :: heights (q :: rest)
  | _ => []

/-- The area under the segments, as a sum of trapezoids. -/
def area : List (K × K) → K
  | p :: q :: rest => (p.2 + q.2) / (2 : ℕ) * (q.1 - p.1) + area (q :: rest)
  | _ => 0

/-- A vertex with its height multiplied by a factor. -/
def scale (k : K) (p : K × K) : K × K := (p.1, k * p.2)

/-- The line through two vertices. -/
def line (p q : K × K) (t : K) : K := p.2 + (q.2 - p.2) / (q.1 - p.1) * (t - p.1)

@[simp] theorem heights_nil : heights ([] : List (K × K)) = [] := rfl

@[simp] theorem heights_singleton (p : K × K) : heights [p] = [] := rfl

@[simp] theorem heights_cons_cons (p q : K × K) (rest : List (K × K)) :
    heights (p :: q :: rest) = (p.2 + q.2) / 2 :: heights (q :: rest) := rfl

@[simp] theorem area_nil : area ([] : List (K × K)) = 0 := rfl

@[simp] theorem area_singleton (p : K × K) : area [p] = 0 := rfl

@[simp] theorem area_cons_cons (p q : K × K) (rest : List (K × K)) :
    area (p :: q :: rest) = (p.2 + q.2) / 2 * (q.1 - p.1) + area (q :: rest) := rfl

/-- There is one segment less than there are vertices. -/
theorem heights_length (vertices : List (K × K)) :
    (heights vertices).length = vertices.length - 1 := by
  cases vertices with
  | nil => rfl
  | cons p rest =>
    induction rest generalizing p with
    | nil => rfl
    | cons q rest ih =>
      rw [heights_cons_cons, List.length_cons, ih]
      rfl

/-- Two vertices or more have a segment. -/
theorem heights_ne_nil {vertices : List (K × K)} (h : 2 ≤ vertices.length) :
    heights vertices ≠ [] := by
  match vertices, h with
  | p :: q :: rest, _ => exact List.cons_ne_nil _ _

/-- The mean heights scale with the vertices. -/
theorem heights_scale (k : K) (vertices : List (K × K)) :
    heights (vertices.map (scale k)) = (heights vertices).map (k * ·) := by
  cases vertices with
  | nil => rfl
  | cons p rest =>
    induction rest generalizing p with
    | nil => rfl
    | cons q rest ih =>
      have hrest := ih q
      rw [List.map_cons] at hrest
      rw [List.map_cons, List.map_cons, heights_cons_cons, hrest, heights_cons_cons, List.map_cons,
        scale, scale, ← mul_add, mul_div_assoc]

/-- The area scales with the vertices. -/
theorem area_scale (k : K) (vertices : List (K × K)) :
    area (vertices.map (scale k)) = k * area vertices := by
  cases vertices with
  | nil => exact (mul_zero k).symm
  | cons p rest =>
    induction rest generalizing p with
    | nil => exact (mul_zero k).symm
    | cons q rest ih =>
      have hrest := ih q
      rw [List.map_cons] at hrest
      rw [List.map_cons, List.map_cons, area_cons_cons, hrest, area_cons_cons, scale, scale]
      ring

/-- A polyline cut at a vertex has the areas of both parts. -/
theorem area_append (front back : List (K × K)) (p : K × K) :
    area (front ++ p :: back) = area (front ++ [p]) + area (p :: back) := by
  induction front with
  | nil => exact (zero_add _).symm
  | cons q front ih =>
    cases front with
    | nil =>
      change area (q :: p :: back) = area [q, p] + area (p :: back)
      rw [area_cons_cons, area_cons_cons, area_singleton, add_zero]
    | cons r front =>
      change area (q :: r :: (front ++ p :: back)) =
        area (q :: r :: (front ++ [p])) + area (p :: back)
      rw [area_cons_cons, area_cons_cons, add_assoc]
      exact congrArg _ ih

/-- The point of the segment between two vertices at a fraction of the way. -/
def between (p q : K × K) (θ : K) : K × K := (p.1 + θ * (q.1 - p.1), p.2 + θ * (q.2 - p.2))

/-- A vertex on the segment between its neighbours does not change the area. -/
theorem area_insert (front back : List (K × K)) (p q : K × K) (θ : K) :
    area (front ++ p :: between p q θ :: q :: back) = area (front ++ p :: q :: back) := by
  rw [area_append, area_append front (q :: back), area_cons_cons, area_cons_cons, area_cons_cons,
    between]
  ring

variable [LinearOrder K] [IsStrictOrderedRing K]

/-- What is below all vertices is below all mean heights. -/
theorem le_heights {vertices : List (K × K)} {a : K} (ha : ∀ p ∈ vertices, a ≤ p.2) :
    ∀ y ∈ heights vertices, a ≤ y := by
  cases vertices with
  | nil => simp
  | cons p rest =>
    induction rest generalizing p with
    | nil => simp
    | cons q rest ih =>
      rw [heights_cons_cons, List.forall_mem_cons]
      rw [List.forall_mem_cons] at ha
      refine ⟨?_, ih q ha.2⟩
      have hp := ha.1
      have hq := ha.2 q List.mem_cons_self
      linarith

/-- What is above all vertices is above all mean heights. -/
theorem heights_le {vertices : List (K × K)} {a : K} (ha : ∀ p ∈ vertices, p.2 ≤ a) :
    ∀ y ∈ heights vertices, y ≤ a := by
  cases vertices with
  | nil => simp
  | cons p rest =>
    induction rest generalizing p with
    | nil => simp
    | cons q rest ih =>
      rw [heights_cons_cons, List.forall_mem_cons]
      rw [List.forall_mem_cons] at ha
      refine ⟨?_, ih q ha.2⟩
      have hp := ha.1
      have hq := ha.2 q List.mem_cons_self
      linarith

/-- If the mean heights are bounded from below, so is the area, by a rectangle. -/
theorem mul_span_le_area {p last : K × K} {rest : List (K × K)} {a : K}
    (hx : (p :: rest).Pairwise fun u v => u.1 ≤ v.1) (ha : ∀ y ∈ heights (p :: rest), a ≤ y)
    (hlast : last ∈ (p :: rest).getLast?) : a * (last.1 - p.1) ≤ area (p :: rest) := by
  induction rest generalizing p with
  | nil =>
    rw [List.getLast?_singleton, Option.mem_some_iff] at hlast
    rw [hlast, sub_self, mul_zero, area_singleton]
  | cons q rest ih =>
    obtain ⟨hp, hx⟩ := List.pairwise_cons.mp hx
    rw [heights_cons_cons, List.forall_mem_cons] at ha
    have hrest := ih hx ha.2 (by rwa [List.getLast?_cons_cons] at hlast)
    have hfirst := mul_le_mul_of_nonneg_right ha.1 (sub_nonneg.mpr (hp q List.mem_cons_self))
    calc a * (last.1 - p.1) = a * (q.1 - p.1) + a * (last.1 - q.1) := by ring
      _ ≤ area (p :: q :: rest) := add_le_add hfirst hrest

/-- If the mean heights are bounded from above, so is the area, by a rectangle. -/
theorem area_le_mul_span {p last : K × K} {rest : List (K × K)} {a : K}
    (hx : (p :: rest).Pairwise fun u v => u.1 ≤ v.1) (ha : ∀ y ∈ heights (p :: rest), y ≤ a)
    (hlast : last ∈ (p :: rest).getLast?) : area (p :: rest) ≤ a * (last.1 - p.1) := by
  induction rest generalizing p with
  | nil =>
    rw [List.getLast?_singleton, Option.mem_some_iff] at hlast
    rw [hlast, sub_self, mul_zero, area_singleton]
  | cons q rest ih =>
    obtain ⟨hp, hx⟩ := List.pairwise_cons.mp hx
    rw [heights_cons_cons, List.forall_mem_cons] at ha
    have hrest := ih hx ha.2 (by rwa [List.getLast?_cons_cons] at hlast)
    have hfirst := mul_le_mul_of_nonneg_right ha.1 (sub_nonneg.mpr (hp q List.mem_cons_self))
    calc area (p :: q :: rest) ≤ a * (q.1 - p.1) + a * (last.1 - q.1) := add_le_add hfirst hrest
      _ = a * (last.1 - p.1) := by ring

/-- The heights alternate between two values: every vertex is as high as the one after the next. -/
def Alternates (vertices : List (K × K)) : Prop :=
  ∀ (i : ℕ) (p q : K × K), vertices[i]? = some p → vertices[i + 2]? = some q → p.2 = q.2

omit [Field K] [LinearOrder K] [IsStrictOrderedRing K] in
/-- The alternation starts with the first and the third vertex. -/
theorem alternates_cons_iff (p q r : K × K) (rest : List (K × K)) :
    Alternates (p :: q :: r :: rest) ↔ p.2 = r.2 ∧ Alternates (q :: r :: rest) := by
  constructor
  · intro h
    exact ⟨h 0 p r rfl rfl, fun i u v hu hv => h (i + 1) u v hu hv⟩
  · rintro ⟨hfirst, hrest⟩ i u v hu hv
    cases i with
    | zero =>
      obtain rfl : p = u := by simpa using hu
      obtain rfl : r = v := by simpa using hv
      exact hfirst
    | succ i => exact hrest i u v hu hv

/-- All mean heights are the first one exactly if the heights alternate. -/
theorem heights_eq_first_iff (p q : K × K) (rest : List (K × K)) :
    (∀ y ∈ heights (p :: q :: rest), y = (p.2 + q.2) / 2) ↔ Alternates (p :: q :: rest) := by
  induction rest generalizing p q with
  | nil =>
    refine ⟨fun _ i u v _ hv => ?_, fun _ => by simp⟩
    simp at hv
  | cons r rest ih =>
    have hmean : (q.2 + r.2) / 2 = (p.2 + q.2) / 2 ↔ p.2 = r.2 := by
      constructor
      · intro h
        linarith
      · intro h
        rw [h, add_comm]
    rw [heights_cons_cons, List.forall_mem_cons, alternates_cons_iff, ← ih]
    constructor
    · rintro ⟨-, h⟩
      have hfirst := h _ List.mem_cons_self
      exact ⟨hmean.mp hfirst, fun y hy => (h y hy).trans hfirst.symm⟩
    · rintro ⟨hfirst, h⟩
      exact ⟨rfl, fun y hy => (h y hy).trans (hmean.mpr hfirst)⟩

end

end Polyline
