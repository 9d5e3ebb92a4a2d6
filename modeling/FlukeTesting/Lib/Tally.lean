import Mathlib.Algebra.BigOperators.Group.List.Basic
import Mathlib.Data.List.Dedup
import Mathlib.Data.List.Perm.Basic

/-!
# Associative arrays that count and that remember

An associative array is a list of keys with their values. Adding to elements counts for every key
what was added under it, and assigning to elements remembers for every key what was assigned last.
Both keep the keys apart.
-/

namespace Tally

variable {A B : Type*} [DecidableEq A]

/-- Assign to an element. -/
def put (key : A) (value : B) : List (A × B) → List (A × B)
  | [] => [(key, value)]
  | (key', value') :: rest =>
    if key' = key then (key, value) :: rest else (key', value') :: put key value rest

/-- Add to an element. -/
def bump [Add B] [Zero B] (key : A) (n : B) (array : List (A × B)) : List (A × B) :=
  put key ((array.lookup key).getD 0 + n) array

/-- The first element is found under its key. -/
theorem lookup_cons_eq (key key' : A) (value : B) (array : List (A × B)) :
    ((key, value) :: array).lookup key' = if key' = key then some value else array.lookup key' := by
  rw [List.lookup_cons]
  split <;> simp_all

/-- An element that was assigned to has the value, and no other element changes. -/
theorem lookup_put (key key' : A) (value : B) (array : List (A × B)) :
    (put key value array).lookup key' = if key' = key then some value else array.lookup key' := by
  induction array with
  | nil => rw [put, lookup_cons_eq]
  | cons p rest ih =>
    obtain ⟨k, v⟩ := p
    rw [put, lookup_cons_eq]
    by_cases hk : k = key
    · subst hk
      rw [if_pos rfl, lookup_cons_eq]
      by_cases hkey : key' = k
      · rw [if_pos hkey, if_pos hkey]
      · rw [if_neg hkey, if_neg hkey, if_neg hkey]
    · rw [if_neg hk, lookup_cons_eq, ih]
      by_cases hkey : key' = key
      · rw [if_neg (by rw [hkey]; exact Ne.symm hk), if_pos hkey, if_pos hkey]
      · rw [if_neg hkey, if_neg hkey]

/-- The keys after an assignment. -/
theorem keys_put (key : A) (value : B) (array : List (A × B)) :
    (put key value array).map Prod.fst =
      if key ∈ array.map Prod.fst then array.map Prod.fst else array.map Prod.fst ++ [key] := by
  induction array with
  | nil => rfl
  | cons p rest ih =>
    obtain ⟨k, v⟩ := p
    rw [put]
    by_cases hk : k = key
    · subst hk
      simp
    · rw [if_neg hk, List.map_cons, ih, List.map_cons]
      by_cases hmem : key ∈ rest.map Prod.fst
      · rw [if_pos hmem, if_pos (List.mem_cons_of_mem k hmem)]
      · rw [if_neg hmem, if_neg (by simp [Ne.symm hk, hmem])]
        rfl

/-- An assignment keeps the keys apart. -/
theorem nodup_put {key : A} {value : B} {array : List (A × B)}
    (h : (array.map Prod.fst).Nodup) : ((put key value array).map Prod.fst).Nodup := by
  rw [keys_put]
  split
  · exact h
  · rename_i hnew
    exact List.nodup_append.mpr ⟨h, List.nodup_singleton key, fun a ha b hb =>
      fun hab => hnew (List.mem_singleton.mp hb ▸ hab ▸ ha)⟩

/-- An element of an array with different keys is found under its key. -/
theorem lookup_of_mem {array : List (A × B)} (h : (array.map Prod.fst).Nodup) {key : A} {value : B}
    (hmem : (key, value) ∈ array) : array.lookup key = some value := by
  obtain ⟨front, back, rfl⟩ := List.append_of_mem hmem
  rw [List.lookup_eq_some_iff]
  refine ⟨front, back, rfl, fun p hp => ?_⟩
  rw [List.map_append, List.map_cons, List.nodup_append] at h
  rw [bne_iff_ne]
  exact fun heq => h.2.2 p.1 (List.mem_map_of_mem hp) key (by simp) heq.symm

/-! ## Counting -/

section

variable [AddMonoid B]

/-- What entries have under a key, all together. -/
def total (entries : List (A × B)) (key : A) : B :=
  ((entries.filter fun e => e.1 = key).map Prod.snd).sum

/-- An array counts entries: its keys are different and are those of the entries, and every element
is the total of its key. -/
structure Counts (entries array : List (A × B)) : Prop where
  nodup : (array.map Prod.fst).Nodup
  lookup : ∀ key, array.lookup key =
    if key ∈ entries.map Prod.fst then some (total entries key) else none

/-- The empty array counts no entries. -/
theorem counts_nil : Counts ([] : List (A × B)) [] := ⟨List.nodup_nil, fun _ => rfl⟩

/-- The total with one more entry. -/
theorem total_append (entries : List (A × B)) (key key' : A) (n : B) :
    total (entries ++ [(key, n)]) key' =
      if key' = key then total entries key' + n else total entries key' := by
  unfold total
  by_cases hkey : key' = key
  · simp [hkey, List.filter_append]
  · simp [hkey, Ne.symm hkey, List.filter_append]

/-- A key without entries has no total. -/
theorem total_of_notMem {entries : List (A × B)} {key : A} (h : key ∉ entries.map Prod.fst) :
    total entries key = 0 := by
  have hnone : entries.filter (fun e => e.1 = key) = [] := by
    rw [List.filter_eq_nil_iff]
    intro e he heq
    exact h (of_decide_eq_true heq ▸ List.mem_map_of_mem he)
  rw [total, hnone]
  rfl

/-- Adding to an element counts one more entry. -/
theorem Counts.bump {entries array : List (A × B)} (h : Counts entries array) (key : A) (n : B) :
    Counts (entries ++ [(key, n)]) (Tally.bump key n array) where
  nodup := nodup_put h.nodup
  lookup key' := by
    have hold : (array.lookup key).getD 0 = total entries key := by
      rw [h.lookup]
      split
      · rfl
      · rename_i hnew
        exact (total_of_notMem hnew).symm
    rw [Tally.bump, lookup_put, hold, h.lookup, total_append]
    by_cases hkey : key' = key
    · rw [if_pos hkey, if_pos hkey, if_pos (by simp [hkey]), hkey]
    · have hmem : key' ∈ (entries ++ [(key, n)]).map Prod.fst ↔ key' ∈ entries.map Prod.fst := by
        simp [hkey]
      rw [if_neg hkey, if_neg hkey]
      simp only [hmem]

/-- The keys of an array that counts are those of the entries. -/
theorem Counts.mem_keys {entries array : List (A × B)} (h : Counts entries array) (key : A) :
    key ∈ array.map Prod.fst ↔ key ∈ entries.map Prod.fst := by
  have hiff : (array.lookup key).isSome = true ↔ key ∈ array.map Prod.fst := by
    rw [List.lookup_isSome_iff, List.mem_map]
    exact exists_congr fun p => and_congr_right fun _ => beq_iff_eq.trans eq_comm
  rw [← hiff, h.lookup key]
  split <;> simp_all

/-- What an array that counts holds, up to its order. -/
theorem Counts.perm {entries array : List (A × B)} (h : Counts entries array) :
    array.Perm ((entries.map Prod.fst).dedup.map fun key => (key, total entries key)) := by
  have hself : array = (array.map Prod.fst).map fun key => (key, total entries key) := by
    rw [List.map_map]
    conv_lhs => rw [← List.map_id array]
    apply List.map_congr_left
    intro (key, value) hmem
    have hvalue := lookup_of_mem h.nodup hmem
    rw [h.lookup, if_pos ((h.mem_keys key).mp (List.mem_map_of_mem hmem))] at hvalue
    rw [Function.comp_apply, Option.some.inj hvalue]
    rfl
  rw [hself]
  apply List.Perm.map
  rw [List.perm_ext_iff_of_nodup h.nodup (List.nodup_dedup _)]
  intro key
  rw [h.mem_keys, List.mem_dedup]

end

/-! ## Remembering -/

/-- What entries have last under a key. -/
def last? (entries : List (A × B)) (key : A) : Option B :=
  ((entries.filter fun e => e.1 = key).getLast?).map Prod.snd

/-- What is last under a key is an entry. -/
theorem mem_of_last? {entries : List (A × B)} {key : A} {value : B}
    (h : last? entries key = some value) : (key, value) ∈ entries := by
  obtain ⟨⟨key', value'⟩, hlast, hvalue⟩ := Option.map_eq_some_iff.mp h
  obtain ⟨hmem, hkey⟩ := List.mem_filter.mp (List.mem_of_getLast? hlast)
  cases hvalue
  cases of_decide_eq_true hkey
  exact hmem

/-- An array remembers entries: every element is the last of its key. -/
def Remembers (entries array : List (A × B)) : Prop :=
  ∀ key, array.lookup key = last? entries key

/-- The empty array remembers no entries. -/
theorem remembers_nil : Remembers ([] : List (A × B)) [] := fun _ => rfl

/-- Assigning to an element remembers one more entry. -/
theorem Remembers.put {entries array : List (A × B)} (h : Remembers entries array) (key : A)
    (value : B) : Remembers (entries ++ [(key, value)]) (Tally.put key value array) := by
  intro key'
  rw [lookup_put, h key', last?, last?, List.filter_append]
  by_cases hkey : key' = key
  · simp [hkey]
  · simp [hkey, Ne.symm hkey]

end Tally
