import Mathlib.Data.List.Nodup
import Mathlib.Logic.Function.Basic
import Mathlib.Tactic.Common

/-!
# Linked lists in a heap

A heap holds the nodes that are live, each with a link that may be null. A chain is what a walk
along the links visits until it comes to a null link. A chain never comes back to a node, it only
depends on its own nodes, and it is extended by one node with a write to its last link. A walk that
frees each node behind itself frees a chain, and nothing else.
-/

namespace Heap

/-- A node with its link. -/
structure Node (A C : Type*) where
  next : Option A
  content : C

variable {A C : Type*}

/-- The nodes that are live. -/
abbrev Nodes (A C : Type*) := A → Option (Node A C)

/-- A walk from `head` visits these nodes, all of them live, and ends at a null link. -/
inductive Chain (h : Nodes A C) : Option A → List A → Prop
  | nil : Chain h none []
  | cons {a : A} {node : Node A C} {rest : List A} :
      h a = some node → Chain h node.next rest → Chain h (some a) (a :: rest)

namespace Chain

variable {h h' : Nodes A C} {p : Option A} {l l' : List A}

/-- A chain is null exactly if it has no nodes. -/
theorem eq_nil_iff (hchain : Chain h p l) : p = none ↔ l = [] := by
  cases hchain with
  | nil => simp
  | cons hnode hrest => simp

/-- The nodes of a chain are live. -/
theorem live (hchain : Chain h p l) : ∀ a ∈ l, (h a).isSome = true := by
  induction hchain with
  | nil => simp
  | cons hnode hrest ih => exact List.forall_mem_cons.mpr ⟨by rw [hnode]; rfl, ih⟩

/-- A walk visits the same nodes each time. -/
theorem unique (hchain : Chain h p l) (hchain' : Chain h p l') : l = l' := by
  induction hchain generalizing l' with
  | nil =>
    cases hchain' with
    | nil => rfl
  | cons hnode hrest ih =>
    cases hchain' with
    | cons hnode' hrest' =>
      rw [hnode] at hnode'
      obtain rfl := Option.some.inj hnode'
      exact congrArg _ (ih hrest')

/-- What is behind a node of a chain is the chain of that node. -/
theorem drop {a : A} {front rest : List A} (hchain : Chain h p (front ++ a :: rest)) :
    Chain h (some a) (a :: rest) := by
  induction front generalizing p with
  | nil =>
    cases hchain with
    | cons hnode hrest => exact .cons hnode hrest
  | cons b front ih =>
    cases hchain with
    | cons hnode hrest => exact ih hrest

/-- A walk that ends never comes back to a node. -/
theorem nodup (hchain : Chain h p l) : l.Nodup := by
  induction hchain with
  | nil => exact List.nodup_nil
  | cons hnode hrest ih =>
    refine List.nodup_cons.mpr ⟨fun hmem => ?_, ih⟩
    obtain ⟨front, back, rfl⟩ := List.append_of_mem hmem
    -- a node behind itself has two chains of different lengths
    have hsame := (Chain.cons hnode hrest).unique hrest.drop
    have hlength := congrArg List.length hsame
    simp only [List.length_cons, List.length_append] at hlength
    omega

/-- A chain depends on its own nodes only. -/
theorem congr (hchain : Chain h p l) (hsame : ∀ a ∈ l, h' a = h a) : Chain h' p l := by
  induction hchain with
  | nil => exact .nil
  | cons hnode hrest ih =>
    rw [List.forall_mem_cons] at hsame
    exact .cons (hsame.1.trans hnode) (ih hsame.2)

end Chain

/-- What is in some nodes. -/
def contents (h : Nodes A C) (l : List A) : List C := l.filterMap fun a => (h a).map Node.content

/-- What is in some nodes depends on these nodes only. -/
theorem contents_congr {h h' : Nodes A C} {l : List A}
    (hsame : ∀ a ∈ l, (h' a).map Node.content = (h a).map Node.content) :
    contents h' l = contents h l := List.filterMap_congr hsame

/-- The heap `h'` is `h` with a new node `a`, and possibly other links in the nodes of `l`. -/
structure Extends (h h' : Nodes A C) (l : List A) (a : A) (c : C) : Prop where
  frame : ∀ b, b ≠ a → b ∉ l → h' b = h b
  content : ∀ b, b ≠ a → (h' b).map Node.content = (h b).map Node.content
  new : (h' a).map Node.content = some c

/-- The new node becomes live, and nothing else. -/
theorem Extends.live_iff {h h' : Nodes A C} {l : List A} {a : A} {c : C}
    (hext : Extends h h' l a c) (b : A) :
    (h' b).isSome = true ↔ b = a ∨ (h b).isSome = true := by
  by_cases hb : b = a
  · have hnew := congrArg Option.isSome hext.new
    rw [Option.isSome_map] at hnew
    simp [hb, hnew]
  · have hold := congrArg Option.isSome (hext.content b hb)
    rw [Option.isSome_map, Option.isSome_map] at hold
    simp [hb, hold]

/-- Behind what was in other nodes is what is in the new one. -/
theorem Extends.contents_concat {h h' : Nodes A C} {l l' : List A} {a : A} {c : C}
    (hext : Extends h h' l a c) (ha : a ∉ l') :
    contents h' (l' ++ [a]) = contents h l' ++ [c] := by
  have hold : contents h' l' = contents h l' :=
    contents_congr fun b hb => hext.content b (ne_of_mem_of_not_mem hb ha)
  have hlast : contents h' [a] = [c] := by simp [contents, hext.new]
  rw [← hold, ← hlast]
  exact List.filterMap_append

variable [DecidableEq A]

/-- Write the link of a live node. -/
def setNext (h : Nodes A C) (a : A) (next : Option A) : Option (Nodes A C) :=
  (h a).map fun node => Function.update h a (some { node with next })

/-- A chain is extended by a node with a null link when the link of its last node is written. -/
theorem Chain.snoc {h : Nodes A C} {p : Option A} {front : List A} {t a : A}
    {new : Node A C} (hchain : Chain h p (front ++ [t])) (ha : h a = some new)
    (hnull : new.next = none) (hnew : a ∉ front ++ [t]) (node : Node A C) :
    Chain (Function.update h t (some { node with next := some a })) p (front ++ [t, a]) := by
  have hlast : Chain (Function.update h t (some { node with next := some a })) (some t) [t, a] := by
    have hne : a ≠ t := fun heq => hnew (by simp [heq])
    have hend : Chain (Function.update h t (some { node with next := some a })) new.next [] := by
      rw [hnull]
      exact .nil
    exact .cons (Function.update_self _ _ _) (.cons ((Function.update_of_ne hne _ _).trans ha) hend)
  have hnodup := hchain.nodup
  induction front generalizing p with
  | nil =>
    cases hchain with
    | cons hnode hrest => exact hlast
  | cons b front ih =>
    cases hchain with
    | cons hnode hrest =>
      rw [List.cons_append, List.nodup_cons] at hnodup
      have hne : b ≠ t := fun heq => hnodup.1 (by simp [heq])
      refine .cons ((Function.update_of_ne hne _ _).trans hnode) (ih hrest ?_ hnodup.2)
      exact fun hmem => hnew (List.mem_cons_of_mem b hmem)

/-- A new node with a null link. -/
theorem Extends.alloc (h : Nodes A C) (l : List A) (a : A) (c : C) :
    Extends h (Function.update h a (some ⟨none, c⟩)) l a c where
  frame b hb _ := Function.update_of_ne hb _ _
  content b hb := by rw [Function.update_of_ne hb]
  new := by rw [Function.update_self]; rfl

/-- A write to the link of one of the nodes. -/
theorem Extends.setNext {h h' : Nodes A C} {l : List A} {a : A} {c : C} (hext : Extends h h' l a c)
    {t : A} (ht : t ∈ l) (hne : t ≠ a) {node : Node A C} (hnode : h' t = some node)
    (next : Option A) :
    Extends h (Function.update h' t (some { node with next })) l a c where
  frame b hb hbl := by
    rw [Function.update_of_ne (ne_of_mem_of_not_mem ht hbl).symm, hext.frame b hb hbl]
  content b hb := by
    rw [← hext.content b hb]
    by_cases hbt : b = t
    · rw [hbt, Function.update_self, hnode]
      rfl
    · rw [Function.update_of_ne hbt]
  new := by rw [Function.update_of_ne hne.symm, hext.new]

/-- The heap without some nodes. -/
def without (h : Nodes A C) (l : List A) : Nodes A C := fun a => if a ∈ l then none else h a

/-- Freeing nothing. -/
theorem without_nil (h : Nodes A C) : without h [] = h := by
  funext a
  simp [without]

/-- Free one node after the other, in the time that the fuel allows. Without its fuel, or at a node
that is not live, the walk has no result. -/
def freeWalk : ℕ → Nodes A C → Option A → Option (Nodes A C × List A)
  | _, h, none => some (h, [])
  | 0, _, some _ => none
  | fuel + 1, h, some a =>
    (h a).bind fun node =>
      (freeWalk fuel (Function.update h a none) node.next).map fun r => (r.1, a :: r.2)

/-- A walk that comes to its end does so with more fuel, too. -/
theorem freeWalk_mono {fuel fuel' : ℕ} (hle : fuel ≤ fuel') {h : Nodes A C} {p : Option A}
    {r : Nodes A C × List A} (hr : freeWalk fuel h p = some r) : freeWalk fuel' h p = some r := by
  induction fuel generalizing fuel' h p r with
  | zero =>
    cases p with
    | none => cases fuel' <;> exact hr
    | some a => exact absurd hr (by simp [freeWalk])
  | succ fuel ih =>
    obtain ⟨fuel', rfl⟩ := Nat.exists_eq_add_of_le' (show 1 ≤ fuel' by omega)
    cases p with
    | none => exact hr
    | some a =>
      rw [freeWalk, Option.bind_eq_some_iff] at hr ⊢
      obtain ⟨node, hnode, hr⟩ := hr
      obtain ⟨r', hr', hpair⟩ := Option.map_eq_some_iff.mp hr
      exact ⟨node, hnode, Option.map_eq_some_iff.mpr ⟨r', ih (by omega) hr', hpair⟩⟩

/-- The walk frees a chain, node by node. -/
theorem Chain.freeWalk_eq {h : Nodes A C} {p : Option A} {l : List A} (hchain : Chain h p l)
    {fuel : ℕ} (hfuel : l.length ≤ fuel) : freeWalk fuel h p = some (without h l, l) := by
  induction l generalizing h p fuel with
  | nil =>
    cases hchain
    rw [freeWalk, without_nil]
  | cons a rest ih =>
    cases hchain with
    | cons hnode hrest =>
      rename_i node
      obtain ⟨fuel, rfl⟩ := Nat.exists_eq_add_of_le' (show 1 ≤ fuel by simp at hfuel; omega)
      have hnodup := List.nodup_cons.mp (Chain.cons hnode hrest).nodup
      have hframe : Chain (Function.update h a none) node.next rest := by
        apply hrest.congr
        intro b hb
        exact Function.update_of_ne (ne_of_mem_of_not_mem hb hnodup.1) _ _
      rw [freeWalk, hnode, Option.bind_some, ih hframe (by simpa using hfuel), Option.map_some]
      have hheap : without (Function.update h a none) rest = without h (a :: rest) := by
        funext b
        by_cases hb : b = a
        · simp [without, hb]
        · simp [without, hb]
      rw [hheap]

/-- Freeing nodes and then others frees all of them. -/
theorem without_append (h : Nodes A C) (l l' : List A) :
    without (without h l) l' = without h (l ++ l') := by
  funext a
  by_cases hl : a ∈ l
  · simp [without, hl]
  · simp [without, hl]

/-- What is not freed stays. -/
theorem without_of_notMem {h : Nodes A C} {l : List A} {a : A} (ha : a ∉ l) :
    without h l a = h a := if_neg ha

end Heap
