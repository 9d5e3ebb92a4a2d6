import Mathlib.Data.List.Basic
import Mathlib.Data.List.Induction
import Mathlib.Tactic.Common

/-!
# Imperative loop bodies with `break` and undefined behaviour

A statement ends in one of three ways: control goes on, control leaves the enclosing loop,
or the statement has no defined effect. All three keep the state in which they happened, so
that what a run did before it stopped stays observable.

A loop over a list runs its body on every element in order. The rules below carry a property
of the state through a statement sequence and through such a loop.
-/

namespace Imperative

variable {E S A : Type*}

/-- How a statement ends: go on, leave the loop, or undefined behaviour of the given kind. -/
inductive Outcome (E S : Type*)
  | next (s : S)
  | stop (s : S)
  | fault (e : E) (s : S)

namespace Outcome

/-- The state in which the statement ended. -/
def state : Outcome E S → S
  | next s => s
  | stop s => s
  | fault _ s => s

/-- The kind of undefined behaviour that the statement ended in, if it did. -/
def fault? : Outcome E S → Option E
  | fault e _ => some e
  | _ => none

/-- Sequential composition: the continuation runs only if control goes on. -/
def bind (o : Outcome E S) (k : S → Outcome E S) : Outcome E S :=
  match o with
  | next s => k s
  | stop s => stop s
  | fault e s => fault e s

@[simp] theorem state_next (s : S) : (next s : Outcome E S).state = s := rfl

@[simp] theorem state_stop (s : S) : (stop s : Outcome E S).state = s := rfl

@[simp] theorem state_fault (e : E) (s : S) : (fault e s).state = s := rfl

@[simp] theorem next_bind (s : S) (k : S → Outcome E S) : (next s).bind k = k s := rfl

@[simp] theorem stop_bind (s : S) (k : S → Outcome E S) : (stop s).bind k = stop s := rfl

@[simp] theorem fault_bind (e : E) (s : S) (k : S → Outcome E S) :
    (fault e s).bind k = fault e s := rfl

@[simp] theorem bind_next (o : Outcome E S) : o.bind next = o := by
  cases o <;> rfl

/-- Sequencing is associative. -/
theorem bind_assoc (o : Outcome E S) (k l : S → Outcome E S) :
    (o.bind k).bind l = o.bind fun s => (k s).bind l := by
  cases o <;> rfl

/-- A sequence goes on exactly when both of its parts do. -/
theorem bind_eq_next_iff {o : Outcome E S} {k : S → Outcome E S} {t : S} :
    o.bind k = next t ↔ ∃ s, o = next s ∧ k s = next t := by
  cases o <;> simp [bind]

/-- Continuations that agree on the state reached by the first part can be exchanged. -/
theorem bind_congr {o : Outcome E S} {k l : S → Outcome E S}
    (h : ∀ s, o = next s → k s = l s) : o.bind k = o.bind l := by
  cases o with
  | next s => exact h s rfl
  | stop s => rfl
  | fault e s => rfl

/-- The property `P` holds in the state in which the statement ended, however it ended. -/
def Ends (P : S → Prop) (o : Outcome E S) : Prop := P o.state

/-- A property of the end of the first part and of every continuation is one of the sequence. -/
theorem Ends.bind {P : S → Prop} {o : Outcome E S} {k : S → Outcome E S} (ho : o.Ends P)
    (hk : ∀ s, P s → (k s).Ends P) : (o.bind k).Ends P := by
  cases o with
  | next s => exact hk s ho
  | stop s => exact ho
  | fault e s => exact ho

/-- The statement goes on only with `P`, and is undefined only in the ways of `F`. -/
def Yields (P : S → Prop) (F : E → Prop) : Outcome E S → Prop
  | next s => P s
  | stop _ => True
  | fault e _ => F e

/-- The rule for sequences: the continuation starts with what the first part yields. -/
theorem Yields.bind {P Q : S → Prop} {F : E → Prop} {o : Outcome E S} {k : S → Outcome E S}
    (ho : o.Yields P F) (hk : ∀ s, P s → (k s).Yields Q F) : (o.bind k).Yields Q F := by
  cases o with
  | next s => exact hk s ho
  | stop s => trivial
  | fault e s => exact ho

/-- What a statement yields bounds the ways in which it is undefined. -/
theorem Yields.fault {P : S → Prop} {F : E → Prop} {o : Outcome E S} (h : o.Yields P F) {e : E}
    (he : o.fault? = some e) : F e := by
  cases o with
  | next s => exact absurd he (by simp [fault?])
  | stop s => exact absurd he (by simp [fault?])
  | fault e' s =>
    obtain rfl : e' = e := Option.some.inj he
    exact h

end Outcome

open Outcome

/-- Run the body on every element in order, until control leaves the loop. -/
def forEach (body : A → S → Outcome E S) : List A → S → Outcome E S
  | [], s => next s
  | a :: rest, s => (body a s).bind (forEach body rest)

@[simp] theorem forEach_nil (body : A → S → Outcome E S) : forEach body [] = next := rfl

@[simp] theorem forEach_cons (body : A → S → Outcome E S) (a : A) (rest : List A) (s : S) :
    forEach body (a :: rest) s = (body a s).bind (forEach body rest) := rfl

/-- A loop over at most one element is a conditional statement. -/
theorem forEach_ite (body : A → S → Outcome E S) (c : Bool) (a : A) :
    forEach body (if c then [a] else []) = fun s => if c then body a s else next s := by
  funext s
  cases c <;> simp

/-- Transforming the elements first is the same as transforming them in the body. -/
theorem forEach_map {B : Type*} (body : B → S → Outcome E S) (g : A → B) (items : List A) :
    forEach body (items.map g) = forEach (fun a => body (g a)) items := by
  induction items with
  | nil => rfl
  | cons a rest ih =>
    funext s
    rw [List.map_cons, forEach_cons, forEach_cons, ih]

/-- A loop over a concatenation is the sequence of the two loops. -/
theorem forEach_append (body : A → S → Outcome E S) (front back : List A) (s : S) :
    forEach body (front ++ back) s = (forEach body front s).bind (forEach body back) := by
  induction front generalizing s with
  | nil => rfl
  | cons a rest ih =>
    simp only [List.cons_append, forEach_cons, bind_assoc]
    congr 1
    funext t
    exact ih t

/-- A loop whose body is itself a loop is one loop over all the inner elements. -/
theorem forEach_flatMap {B : Type*} (body : B → S → Outcome E S) (g : A → List B)
    (items : List A) (s : S) :
    forEach (fun a => forEach body (g a)) items s = forEach body (items.flatMap g) s := by
  induction items generalizing s with
  | nil => rfl
  | cons a rest ih =>
    rw [List.flatMap_cons, forEach_append, forEach_cons]
    exact bind_congr fun t _ => ih t

/-- The loop rule: what every pass preserves holds in the state in which the loop ended. -/
theorem forEach_ends {P : S → Prop} {body : A → S → Outcome E S} {items : List A} {s : S}
    (hs : P s) (hbody : ∀ a ∈ items, ∀ s, P s → (body a s).Ends P) :
    (forEach body items s).Ends P := by
  induction items generalizing s with
  | nil => exact hs
  | cons a rest ih =>
    apply (hbody a (by simp) s hs).bind
    intro t ht
    exact ih ht fun b hb => hbody b (List.mem_cons_of_mem _ hb)

/-- The rule for loops: every pass keeps the invariant, and so does the loop. -/
theorem forEach_yields {P : S → Prop} {F : E → Prop} {body : A → S → Outcome E S} {items : List A}
    {s : S} (hs : P s) (hbody : ∀ a ∈ items, ∀ s, P s → (body a s).Yields P F) :
    (forEach body items s).Yields P F := by
  induction items generalizing s with
  | nil => exact hs
  | cons a rest ih =>
    apply (hbody a List.mem_cons_self s hs).bind
    intro t ht
    exact ih ht fun b hb => hbody b (List.mem_cons_of_mem a hb)

/-- The loop gets between two passes, or to its end, with the state `t`. -/
def Reaches (body : A → S → Outcome E S) (items : List A) (s t : S) : Prop :=
  ∃ front back, items = front ++ back ∧ forEach body front s = next t

/-- The loop starts its pass over the element `a` with the state `t`. -/
def ComesTo (body : A → S → Outcome E S) (items : List A) (s : S) (a : A) (t : S) : Prop :=
  ∃ front back, items = front ++ a :: back ∧ forEach body front s = next t

section

variable {body : A → S → Outcome E S} {items : List A} {s t : S} {a : A}

/-- A loop that begins a pass has got to it. -/
theorem ComesTo.reaches (h : ComesTo body items s a t) : Reaches body items s t := by
  obtain ⟨front, back, hsplit, ht⟩ := h
  exact ⟨front, a :: back, hsplit, ht⟩

/-- A pass that goes on takes the loop behind it. -/
theorem ComesTo.step {u : S} (h : ComesTo body items s a t) (hu : body a t = next u) :
    Reaches body items s u := by
  obtain ⟨front, back, hsplit, ht⟩ := h
  refine ⟨front ++ [a], back, by simp [hsplit], ?_⟩
  rw [forEach_append, ht, next_bind, forEach_cons, hu]
  rfl

/-- A loop over different elements starts its pass over an element with one state only. -/
theorem ComesTo.unique {u : S} (hnodup : items.Nodup) (ht : ComesTo body items s a t)
    (hu : ComesTo body items s a u) : t = u := by
  obtain ⟨front, back, hsplit, ht⟩ := ht
  obtain ⟨front', back', hsplit', hu⟩ := hu
  rw [hsplit, List.nodup_append, List.nodup_cons] at hnodup
  have hfront : a ∉ front := fun h => hnodup.2.2 a h a (by simp) rfl
  rw [hsplit, List.append_cons_inj_of_notMem hfront hnodup.2.1.1] at hsplit'
  rw [hsplit'.1, hu, next.injEq] at ht
  exact ht.symm

/-- When a loop over an ordered list starts a pass, it has made all earlier ones: it went from
such an earlier element over those between the two. -/
theorem ComesTo.earlier {R : A → A → Prop} (hasymm : ∀ a b, R a b → ¬ R b a)
    (hsorted : items.Pairwise R) {b : A} (hb : ComesTo body items s b t) (ha : a ∈ items)
    (hab : R a b) :
    ∃ u mid, ComesTo body items s a u ∧ forEach body (a :: mid) u = next t ∧
      ∀ x, x ∈ mid ↔ x ∈ items ∧ R a x ∧ R x b := by
  obtain ⟨front, back, rfl, ht⟩ := hb
  obtain ⟨-, hback, hacross⟩ := List.pairwise_append.mp hsorted
  have hafter := (List.pairwise_cons.mp hback).1
  have hmem : a ∈ front := by
    rcases List.mem_append.mp ha with hfront | hrest
    · exact hfront
    · rcases List.mem_cons.mp hrest with rfl | hlate
      · exact absurd hab (hasymm a a hab)
      · exact absurd (hafter a hlate) (hasymm a b hab)
  obtain ⟨before, mid, rfl⟩ := List.append_of_mem hmem
  rw [forEach_append, bind_eq_next_iff] at ht
  obtain ⟨u, hu, ht⟩ := ht
  refine ⟨u, mid, ⟨before, mid ++ b :: back, by simp, hu⟩, ht, fun x => ⟨fun hx => ?_, ?_⟩⟩
  · have hmid := (List.pairwise_append.mp (List.pairwise_append.mp hsorted).1).2.1
    refine ⟨by simp [hx], (List.pairwise_cons.mp hmid).1 x hx, hacross x (by simp [hx]) b ?_⟩
    simp
  · rintro ⟨hx, hax, hxb⟩
    rw [List.append_assoc, List.cons_append] at hx
    rw [List.append_assoc, List.cons_append] at hsorted
    obtain ⟨-, -, hfirst⟩ := List.pairwise_append.mp hsorted
    rcases List.mem_append.mp hx with hbefore | hrest
    · exact absurd (hfirst x hbefore a (by simp)) (hasymm a x hax)
    · rcases List.mem_cons.mp hrest with rfl | hrest
      · exact absurd hax (hasymm x x hax)
      · rcases List.mem_append.mp hrest with hmid | hlast
        · exact hmid
        · rcases List.mem_cons.mp hlast with rfl | hlate
          · exact absurd hxb (hasymm x x hxb)
          · exact absurd (hafter x hlate) (hasymm x b hxb)

/-- The loop invariant rule: what holds at the start and is kept by every pass that the loop
makes and that goes on holds wherever the loop gets. -/
theorem Reaches.induction {P : S → Prop} (hs : P s)
    (hstep : ∀ a t u, ComesTo body items s a t → body a t = next u → P t → P u)
    (h : Reaches body items s t) : P t := by
  obtain ⟨front, back, hsplit, ht⟩ := h
  induction front using List.reverseRecOn generalizing back t with
  | nil =>
    rw [forEach_nil, next.injEq] at ht
    exact ht ▸ hs
  | append_singleton front a ih =>
    rw [forEach_append, bind_eq_next_iff] at ht
    obtain ⟨u, hu, hlast⟩ := ht
    rw [forEach_cons, forEach_nil, bind_next] at hlast
    have hcut : items = front ++ a :: back := by simp [hsplit]
    exact hstep a u t ⟨front, back, hcut, hu⟩ hlast (ih _ hcut hu)

/-- A loop ends behind its last pass or in a pass that does not go on. -/
theorem forEach_exit (body : A → S → Outcome E S) (items : List A) (s : S) :
    (∃ t, forEach body items s = next t ∧ Reaches body items s t) ∨
    ∃ a t, ComesTo body items s a t ∧ body a t = forEach body items s ∧
      ∀ u, forEach body items s ≠ next u := by
  induction items generalizing s with
  | nil => exact Or.inl ⟨s, rfl, [], [], rfl, rfl⟩
  | cons a rest ih =>
    rw [forEach_cons]
    cases ha : body a s with
    | next u =>
      have hcons (front : List A) : forEach body (a :: front) s = forEach body front u := by
        rw [forEach_cons, ha, next_bind]
      rcases ih u with ⟨t, ht, -⟩ | ⟨b, t, ⟨front, back, hsplit, hfront⟩, hb, hne⟩
      · exact Or.inl ⟨t, ht, a :: rest, [], by simp, (hcons rest).trans ht⟩
      · exact Or.inr ⟨b, t, ⟨a :: front, back, by simp [hsplit], (hcons front).trans hfront⟩, hb, hne⟩
    | stop u => exact Or.inr ⟨a, s, ⟨[], rest, rfl, rfl⟩, ha, by simp⟩
    | fault e u => exact Or.inr ⟨a, s, ⟨[], rest, rfl, rfl⟩, ha, by simp⟩

end

end Imperative
