import Mathlib.Data.List.Infix

/-!
# Searching a list for a contiguous pattern

The first offset at which a pattern occurs, over any alphabet with decidable equality. A
search succeeds exactly when the pattern is an infix. A pattern that avoids a separator
cannot straddle it, so a search in a separated text splits into searches of the two sides.
-/

namespace Search

variable {A : Type*}

/-- The offset of the first occurrence of `pattern`, if there is one. -/
def find [DecidableEq A] (pattern : List A) : List A → Option ℕ
  | [] => if pattern = [] then some 0 else none
  | a :: rest =>
    if pattern.isPrefixOf (a :: rest) then some 0 else (find pattern rest).map (· + 1)

/-- A pattern at the very front is found at offset zero. -/
theorem find_of_starts [DecidableEq A] {pattern text : List A} (h : pattern <+: text) :
    find pattern text = some 0 := by
  cases text with
  | nil => simp [find, List.prefix_nil.mp h]
  | cons a rest => simp [find, h]

/-- A search succeeds exactly when the pattern occurs contiguously. -/
theorem find_isSome_iff [DecidableEq A] (pattern text : List A) :
    (find pattern text).isSome = true ↔ pattern <:+: text := by
  induction text with
  | nil =>
    by_cases hp : pattern = [] <;> simp [find, hp]
  | cons a rest ih =>
    rw [List.infix_cons_iff]
    by_cases hp : pattern <+: a :: rest
    · simp [find, hp]
    · simp [find, hp, ih]

/-- A search fails exactly when the pattern does not occur. -/
theorem find_eq_none_iff [DecidableEq A] (pattern text : List A) :
    find pattern text = none ↔ ¬ pattern <:+: text := by
  rw [← find_isSome_iff, Option.isSome_iff_ne_none, not_not]

/-- The found offset leaves room for the whole pattern. -/
theorem find_le [DecidableEq A] {pattern text : List A} {k : ℕ}
    (h : find pattern text = some k) : k + pattern.length ≤ text.length := by
  induction text generalizing k with
  | nil =>
    by_cases hp : pattern = []
    · simp only [find, hp, if_true, Option.some.injEq] at h
      simp [hp, ← h]
    · simp [find, hp] at h
  | cons a rest ih =>
    by_cases hp : pattern <+: a :: rest
    · rw [find_of_starts hp, Option.some.injEq] at h
      subst h
      simpa using hp.length_le
    · have hpre : pattern.isPrefixOf (a :: rest) = false := by
        rw [Bool.eq_false_iff, ne_eq, List.isPrefixOf_iff_prefix]
        exact hp
      simp only [find, hpre, Bool.false_eq_true, if_false] at h
      obtain ⟨j, hj, rfl⟩ := Option.map_eq_some_iff.mp h
      have := ih hj
      simp only [List.length_cons]
      omega

/-- A pattern that avoids the separator is a prefix of a separated text only within its left
side. -/
theorem prefix_append_cons_iff {pattern left right : List A} {sep : A} (hsep : sep ∉ pattern) :
    pattern <+: left ++ sep :: right ↔ pattern <+: left := by
  induction left generalizing pattern with
  | nil =>
    cases pattern with
    | nil => simp
    | cons a pattern =>
      have ha : a ≠ sep := fun h => hsep (by simp [h])
      simp [List.cons_prefix_cons, ha]
  | cons b left ih =>
    cases pattern with
    | nil => simp
    | cons a pattern =>
      have htail : sep ∉ pattern := fun h => hsep (List.mem_cons_of_mem _ h)
      simp only [List.cons_append, List.cons_prefix_cons, ih htail]

/-- A nonempty pattern that avoids the separator occurs on one of the two sides. -/
theorem infix_append_cons_iff {pattern left right : List A} {sep : A}
    (hne : pattern ≠ []) (hsep : sep ∉ pattern) :
    pattern <:+: left ++ sep :: right ↔ pattern <:+: left ∨ pattern <:+: right := by
  induction left with
  | nil =>
    have hfront : ¬ pattern <+: sep :: right := by
      rw [← List.nil_append (sep :: right), prefix_append_cons_iff hsep, List.prefix_nil]
      exact hne
    simp [List.infix_cons_iff, hfront, hne]
  | cons a left ih =>
    rw [List.cons_append, List.infix_cons_iff, ih, List.infix_cons_iff, ← List.cons_append,
      prefix_append_cons_iff hsep, or_assoc]

end Search
