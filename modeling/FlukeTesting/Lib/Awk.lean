import FlukeTesting.Lib.Words
import Mathlib.Data.Char
import Mathlib.Data.List.Dedup
import Mathlib.Data.List.Lex
import Mathlib.Data.List.Perm.Lattice
import Mathlib.Data.List.Sort
import Mathlib.Tactic.Common

/-!
# Records, fields and sorted arrays of awk

A record is split into fields at blanks. The functions on strings count positions from one. An
array is known by its indices, which `asorti` puts into the order of their characters.
-/

namespace Awk

/-- The characters that separate fields. -/
def isBlank (c : Char) : Bool := c = ' ' || c = '\t' || c = '\n'

/-- The fields of a record: `$1`, `$2` and so on. -/
def fields (record : List Char) : List (List Char) :=
  (record.splitOnP isBlank).filter fun field => field ≠ []

/-- A field is a word between blanks. -/
abbrev Word := Words.Word isBlank

/-- `index(s, c)` for a single character: its first position, or zero. -/
def index (s : List Char) (c : Char) : ℕ := if c ∈ s then s.idxOf c + 1 else 0

/-- `substr(s, 1, n)`. -/
def leading (s : List Char) (n : ℕ) : List Char := s.take n

/-- So many spaces. -/
def blanks (n : ℕ) : List Char := List.replicate n ' '

/-- Spaces in front of a record do not count. -/
theorem fields_blanks (n : ℕ) (rest : List Char) : fields (blanks n ++ rest) = fields rest := by
  induction n with
  | zero => rfl
  | succ n ih => exact (Words.words_cons_sep rfl _).trans ih

/-- A word alone is its only field. -/
theorem fields_word (w : Word) : fields w.chars = [w.chars] := Words.words_word w

/-- A word in front of spaces is the first field. -/
theorem fields_word_blanks (w : Word) {n : ℕ} (h : n ≠ 0) (rest : List Char) :
    fields (w.chars ++ (blanks n ++ rest)) = w.chars :: fields rest := by
  obtain ⟨n, rfl⟩ := Nat.exists_eq_succ_of_ne_zero h
  exact (Words.words_word_sep w rfl _).trans (congrArg (w.chars :: ·) (fields_blanks n rest))

/-- What is in front of the first separator of a string. -/
theorem leading_index {s : List Char} {c : Char} (h : c ∉ s) (rest : List Char) :
    index (s ++ c :: rest) c ≠ 0 ∧
      leading (s ++ c :: rest) (index (s ++ c :: rest) c - 1) = s := by
  have hindex : index (s ++ c :: rest) c = s.length + 1 := by
    rw [index, if_pos (by simp), List.idxOf_append_of_notMem h, List.idxOf_cons_self, Nat.add_zero]
  rw [hindex]
  exact ⟨Nat.succ_ne_zero _, by simp [leading]⟩

/-- `asorti`: the indices of an array in order. -/
def asorti (keys : List (List Char)) : List (List Char) :=
  keys.dedup.mergeSort fun a b => decide (a ≤ b)

/-- An array without indices is sorted. -/
theorem asorti_nil : asorti [] = [] := by rw [asorti, List.dedup_nil, List.mergeSort_nil]

/-- The sorted indices are the indices. -/
@[simp] theorem mem_asorti {keys : List (List Char)} {key : List Char} :
    key ∈ asorti keys ↔ key ∈ keys := by
  rw [asorti, List.mem_mergeSort, List.mem_dedup]

/-- The sorted indices rise. -/
theorem asorti_pairwise (keys : List (List Char)) : (asorti keys).Pairwise (· < ·) := by
  have hsorted : (asorti keys).Pairwise fun a b => decide (a ≤ b) = true :=
    List.pairwise_mergeSort
      (fun a b c hab hbc => by
        rw [decide_eq_true_iff] at *
        exact hab.trans hbc)
      (fun a b => by simpa using le_total a b) _
  have hnodup : (asorti keys).Nodup := (List.mergeSort_perm _ _).nodup_iff.mpr (List.nodup_dedup _)
  exact (hsorted.and hnodup).imp fun ⟨hle, hne⟩ => lt_of_le_of_ne (of_decide_eq_true hle) hne

/-- Arrays with the same indices are sorted into the same list. -/
theorem asorti_congr {keys keys' : List (List Char)} (h : ∀ key, key ∈ keys ↔ key ∈ keys') :
    asorti keys = asorti keys' := by
  have hperm : (asorti keys).Perm (asorti keys') := by
    rw [List.perm_ext_iff_of_nodup ((asorti_pairwise keys).imp ne_of_lt)
      ((asorti_pairwise keys').imp ne_of_lt)]
    intro key
    rw [mem_asorti, mem_asorti, h]
  exact hperm.eq_of_pairwise (fun a b _ _ hab hba => absurd hab hba.not_gt) (asorti_pairwise keys)
    (asorti_pairwise keys')

end Awk
