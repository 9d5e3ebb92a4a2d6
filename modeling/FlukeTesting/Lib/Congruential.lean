import Mathlib.Algebra.Field.Basic
import Mathlib.GroupTheory.OrderOfElement
import Mathlib.Tactic.FieldSimp
import Mathlib.Tactic.Ring

/-!
# Linear congruential generators over a field

The distance of a generator from its fixed point is multiplied by the factor in every step. So a
generator that does not start in its fixed point never gets there, and if the factor has full order
it comes to every other element once in every period.
-/

namespace Congruential

variable {F : Type*} [Field F]

/-- One step of a generator with a factor and an increment. -/
def next (a c r : F) : F := r * a + c

/-- The fixed point of a generator. -/
def fixed (a c : F) : F := c / (1 - a)

variable {a c r : F}

/-- One step multiplies the distance from the fixed point. -/
theorem next_sub_fixed (ha : a ≠ 1) (r : F) :
    next a c r - fixed a c = a * (r - fixed a c) := by
  have hne : 1 - a ≠ 0 := sub_ne_zero.mpr ha.symm
  unfold next fixed
  field_simp
  ring

/-- The distance from the fixed point behind any number of steps. -/
theorem iterate_sub_fixed (ha : a ≠ 1) (r : F) (n : ℕ) :
    (next a c)^[n] r - fixed a c = a ^ n * (r - fixed a c) := by
  induction n with
  | zero => simp
  | succ n ih => rw [Function.iterate_succ_apply', next_sub_fixed ha, ih, pow_succ', mul_assoc]

/-- The fixed point is not reached from elsewhere. -/
theorem iterate_ne_fixed (ha : a ≠ 1) (ha' : a ≠ 0) (hr : r ≠ fixed a c) (n : ℕ) :
    (next a c)^[n] r ≠ fixed a c := by
  rw [← sub_ne_zero, iterate_sub_fixed ha]
  exact mul_ne_zero (pow_ne_zero n ha') (sub_ne_zero.mpr hr)

/-- Two steps of a period do not come to the same element. -/
theorem iterate_injOn (ha : a ≠ 1) (hr : r ≠ fixed a c) :
    Set.InjOn (fun n => (next a c)^[n] r) (Set.Iio (orderOf a)) := by
  intro m hm n hn heq
  have hpow : a ^ m * (r - fixed a c) = a ^ n * (r - fixed a c) := by
    rw [← iterate_sub_fixed ha, ← iterate_sub_fixed ha]
    exact congrArg (· - fixed a c) heq
  exact pow_injOn_Iio_orderOf hm hn (mul_right_cancel₀ (sub_ne_zero.mpr hr) hpow)

/-- With a factor of full order, every element but the fixed point is reached in a period. -/
theorem exists_iterate [Fintype F] (ha : a ≠ 1) (ha' : a ≠ 0)
    (horder : orderOf a = Fintype.card F - 1) (hr : r ≠ fixed a c) {x : F}
    (hx : x ≠ fixed a c) : ∃ n < orderOf a, (next a c)^[n] r = x := by
  classical
  have hsub : (Finset.range (orderOf a)).image (fun n => (next a c)^[n] r) ⊆
      Finset.univ.erase (fixed a c) := by
    intro y hy
    obtain ⟨n, -, rfl⟩ := Finset.mem_image.mp hy
    exact Finset.mem_erase.mpr ⟨iterate_ne_fixed ha ha' hr n, Finset.mem_univ _⟩
  have hcard : ((Finset.range (orderOf a)).image fun n => (next a c)^[n] r).card = orderOf a := by
    rw [Finset.card_image_of_injOn, Finset.card_range]
    simpa using iterate_injOn ha hr
  have heq := Finset.eq_of_subset_of_card_le hsub (by
    rw [hcard, horder, Finset.card_erase_of_mem (Finset.mem_univ _), Finset.card_univ])
  have hmem := Finset.mem_erase.mpr ⟨hx, Finset.mem_univ x⟩
  rw [← heq] at hmem
  obtain ⟨n, hn, hn'⟩ := Finset.mem_image.mp hmem
  exact ⟨n, Finset.mem_range.mp hn, hn'⟩

end Congruential
