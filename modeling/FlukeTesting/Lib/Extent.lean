import Mathlib.Order.Bounds.Basic
import Mathlib.Order.Defs.LinearOrder
import Mathlib.Order.OrderDual
import Mathlib.Tactic.Common

/-!
# Running extremes

A loop that keeps the least value seen so far has to start from some value. What it ends with is
the least of the values seen exactly if the start value does not lie below all of them. The
greatest value is the dual.
-/

namespace Extent

section

variable {A : Type*} [LinearOrder A]

/-- The running least value of a list, from a start value on. -/
def lower (start : A) (values : List A) : A :=
  values.foldl (fun least v => if v < least then v else least) start

/-- The running greatest value of a list, from a start value on. -/
def upper (start : A) (values : List A) : A :=
  values.foldl (fun greatest v => if greatest < v then v else greatest) start

/-- The running least value is the start value or one of the list, and below all of them. -/
theorem isLeast_lower (start : A) (values : List A) :
    IsLeast {v | v ∈ start :: values} (lower start values) := by
  induction values generalizing start with
  | nil => exact ⟨List.mem_singleton_self start, fun v hv => (List.mem_singleton.mp hv).ge⟩
  | cons a rest ih =>
    by_cases ha : a < start
    · have hstep : lower start (a :: rest) = lower a rest := by
        rw [lower, List.foldl_cons, if_pos ha]
        rfl
      obtain ⟨hmem, hbound⟩ := ih a
      rw [hstep]
      refine ⟨List.mem_cons_of_mem _ hmem, fun v hv => ?_⟩
      rcases List.mem_cons.mp hv with rfl | hv
      · exact (hbound (List.mem_cons_self)).trans ha.le
      · exact hbound hv
    · have hstep : lower start (a :: rest) = lower start rest := by
        rw [lower, List.foldl_cons, if_neg ha]
        rfl
      obtain ⟨hmem, hbound⟩ := ih start
      rw [hstep]
      refine ⟨?_, fun v hv => ?_⟩
      · rcases List.mem_cons.mp hmem with hstart | hrest
        · exact List.mem_cons.mpr (Or.inl hstart)
        · exact List.mem_cons_of_mem _ (List.mem_cons_of_mem _ hrest)
      · rcases List.mem_cons.mp hv with rfl | hv
        · exact hbound List.mem_cons_self
        · rcases List.mem_cons.mp hv with rfl | hv
          · exact (hbound List.mem_cons_self).trans (le_of_not_gt ha)
          · exact hbound (List.mem_cons_of_mem _ hv)

/-- The running greatest value is the start value or one of the list, and above all of them. -/
theorem isGreatest_upper (start : A) (values : List A) :
    IsGreatest {v | v ∈ start :: values} (upper start values) :=
  isLeast_lower (A := Aᵒᵈ) start values

/-- The running least value is the least of a list exactly if the start value is not below the
whole list. -/
theorem isLeast_lower_iff (start : A) (values : List A) :
    IsLeast {v | v ∈ values} (lower start values) ↔ ∃ v ∈ values, v ≤ start := by
  obtain ⟨hmem, hbound⟩ := isLeast_lower start values
  constructor
  · intro hleast
    exact ⟨_, hleast.1, hbound List.mem_cons_self⟩
  · rintro ⟨v, hv, hle⟩
    refine ⟨?_, fun u hu => hbound (List.mem_cons_of_mem _ hu)⟩
    rcases List.mem_cons.mp hmem with hstart | hrest
    · -- the start value is not below the value that lies below it
      have hsame : v = lower start values :=
        le_antisymm (hle.trans_eq hstart.symm) (hbound (List.mem_cons_of_mem _ hv))
      exact hsame ▸ hv
    · exact hrest

/-- The running greatest value is the greatest of a list exactly if the start value is not above
the whole list. -/
theorem isGreatest_upper_iff (start : A) (values : List A) :
    IsGreatest {v | v ∈ values} (upper start values) ↔ ∃ v ∈ values, start ≤ v :=
  isLeast_lower_iff (A := Aᵒᵈ) start values

end

end Extent
