import FlukeTesting.Lib.Outcome

/-!
# Two runs of one loop

Two statements simulate each other along a relation of their states if from related states they
end in the same way and in related states again. Loops over the same elements simulate each
other if their bodies do.
-/

namespace Imperative

variable {E S T A : Type*}

/-- Two statements end in the same way, with related states. -/
inductive Outcome.Rel (R : S → T → Prop) : Outcome E S → Outcome E T → Prop
  | next {s : S} {t : T} (h : R s t) : Rel R (.next s) (.next t)
  | stop {s : S} {t : T} (h : R s t) : Rel R (.stop s) (.stop t)
  | fault (e : E) {s : S} {t : T} (h : R s t) : Rel R (.fault e s) (.fault e t)

/-- However they end, the states are related. -/
theorem Outcome.Rel.state {R : S → T → Prop} {o : Outcome E S} {o' : Outcome E T}
    (h : Outcome.Rel R o o') : R o.state o'.state := by
  cases h with
  | next h => exact h
  | stop h => exact h
  | fault e h => exact h

/-- Sequences simulate each other if their parts do. -/
theorem Outcome.Rel.bind {R : S → T → Prop} {o : Outcome E S} {o' : Outcome E T}
    {k : S → Outcome E S} {k' : T → Outcome E T} (ho : Outcome.Rel R o o')
    (hk : ∀ s t, R s t → Outcome.Rel R (k s) (k' t)) : Outcome.Rel R (o.bind k) (o'.bind k') := by
  cases ho with
  | next h => exact hk _ _ h
  | stop h => exact .stop h
  | fault e h => exact .fault e h

/-- The simulation rule: loops simulate each other if every pass does. -/
theorem forEach_rel {R : S → T → Prop} {body : A → S → Outcome E S} {body' : A → T → Outcome E T}
    (hbody : ∀ a s t, R s t → Outcome.Rel R (body a s) (body' a t)) (items : List A) {s : S} {t : T}
    (h : R s t) : Outcome.Rel R (forEach body items s) (forEach body' items t) := by
  induction items generalizing s t with
  | nil => exact .next h
  | cons a rest ih => exact (hbody a s t h).bind fun u v huv => ih huv

end Imperative
