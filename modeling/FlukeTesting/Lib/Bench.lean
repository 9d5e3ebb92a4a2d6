import Mathlib.Data.List.Induction
import Mathlib.Data.List.Nodup
import Mathlib.Logic.Function.Basic

/-!
# Measuring under settings

A session changes settings and observes something under them. What a part of a session observes
depends on the parts in front of it only through the settings that they leave behind. Parts that
each change one setting, and different ones, leave every setting as its own part does. A value that
parts set or keep is the one that was set last.
-/

namespace Bench

variable {S O : Type*}

/-- A command of a session: it changes the settings, or observes something under them. -/
inductive Command (S O : Type*)
  | change (f : S → S)
  | observe (o : S → O)

/-- The settings behind a session. -/
def exec : List (Command S O) → S → S
  | [], s => s
  | .change f :: rest, s => exec rest (f s)
  | .observe _ :: rest, s => exec rest s

/-- What a session observes. -/
def trace : List (Command S O) → S → List O
  | [], _ => []
  | .change f :: rest, s => trace rest (f s)
  | .observe o :: rest, s => o s :: trace rest s

/-- Settings behind two sessions. -/
theorem exec_append (p q : List (Command S O)) (s : S) : exec (p ++ q) s = exec q (exec p s) := by
  induction p generalizing s with
  | nil => rfl
  | cons c p ih => cases c <;> exact ih _

/-- The second of two sessions observes under the settings that the first leaves behind. -/
theorem trace_append (p q : List (Command S O)) (s : S) :
    trace (p ++ q) s = trace p s ++ trace q (exec p s) := by
  induction p generalizing s with
  | nil => rfl
  | cons c p ih =>
    cases c with
    | change f => exact ih (f s)
    | observe o => exact congrArg (o s :: ·) (ih s)

/-- A kind of observations that does not depend on the settings is that of the sessions one by
one. -/
theorem filterMap_trace_flatMap {A B : Type*} {block : A → List (Command S O)} {kind : O → Option B}
    {seen : A → List B} (h : ∀ a s, (trace (block a) s).filterMap kind = seen a) (as : List A)
    (s : S) : (trace (as.flatMap block) s).filterMap kind = as.flatMap seen := by
  induction as generalizing s with
  | nil => rfl
  | cons a as ih =>
    rw [List.flatMap_cons, trace_append, List.filterMap_append, h, ih, List.flatMap_cons]

/-- What is observed in a repeated session is observed in one of the repetitions. -/
theorem mem_trace_replicate {A : Type*} (block : A → List (Command S O)) (a : A) (n : ℕ) (s : S)
    (o : O) : o ∈ trace ((List.replicate n a).flatMap block) s ↔
      ∃ j < n, o ∈ trace (block a) (exec ((List.replicate j a).flatMap block) s) := by
  induction n with
  | zero => simp [trace]
  | succ n ih =>
    rw [List.replicate_succ', List.flatMap_append, List.flatMap_singleton, trace_append,
      List.mem_append, ih, Nat.exists_lt_succ_right]

/-! ## Messages and workloads -/

/-- What a session shows: a message that is sent, or a workload with what it runs under. -/
inductive Output (M W : Type*)
  | sent (message : M)
  | work (under : W)

section

variable {M W : Type*}

/-- The message that is sent. -/
def Output.message? : Output M W → Option M
  | sent message => some message
  | work _ => none

/-- A session that sends messages and runs workloads. -/
abbrev Session (S M W : Type*) := List (Command S (Output M W))

/-- A message is sent. -/
def send (message : M) : Command S (Output M W) := .observe fun _ => .sent message

/-- A workload runs, under what it sees of the settings. -/
def workload (view : S → W) : Command S (Output M W) := .observe fun s => .work (view s)

/-- A workload between two messages. -/
def measure (before after : M) (view : S → W) : Session S M W :=
  [send before, workload view, send after]

/-- Messages do not change settings. -/
theorem exec_sends (messages : List M) (s : S) :
    exec (messages.map send : Session S M W) s = s := by
  induction messages with
  | nil => rfl
  | cons m messages ih => exact ih

/-- Of messages only these are seen. -/
theorem trace_sends (messages : List M) (s : S) :
    trace (messages.map send : Session S M W) s = messages.map .sent := by
  induction messages with
  | nil => rfl
  | cons m messages ih => exact congrArg (_ :: ·) ih

/-- Messages are no workloads. -/
theorem work_notMem_sends (messages : List M) (s : S) (w : W) :
    .work w ∉ trace (messages.map send : Session S M W) s := by
  rw [trace_sends, List.mem_map]
  rintro ⟨m, -, h⟩
  contradiction

/-- What is sent are the messages. -/
theorem message_trace_sends (messages : List M) (s : S) :
    (trace (messages.map send : Session S M W) s).filterMap Output.message? = messages := by
  rw [trace_sends, List.filterMap_map]
  exact List.filterMap_some

end

/-! ## Parts that each change one setting -/

section

variable {I V A : Type*} [DecidableEq I] {block : A → List (Command (I → V) O)} {key : A → I}
  {turn : A → V → V}

/-- Sessions that each change one setting leave the other ones as they are. -/
theorem exec_flatMap_of_ne
    (h : ∀ a s, exec (block a) s = Function.update s (key a) (turn a (s (key a)))) {as : List A}
    {k : I} (hk : ∀ a ∈ as, key a ≠ k) (s : I → V) : exec (as.flatMap block) s k = s k := by
  induction as generalizing s with
  | nil => rfl
  | cons a as ih =>
    rw [List.flatMap_cons, exec_append, h, ih fun b hb => hk b (List.mem_cons_of_mem _ hb),
      Function.update_of_ne (hk a List.mem_cons_self).symm]

/-- Sessions that change different settings change each as its own session does. -/
theorem exec_flatMap_of_mem
    (h : ∀ a s, exec (block a) s = Function.update s (key a) (turn a (s (key a)))) {as : List A}
    (hnodup : (as.map key).Nodup) {a : A} (ha : a ∈ as) (s : I → V) :
    exec (as.flatMap block) s (key a) = turn a (s (key a)) := by
  induction as generalizing s with
  | nil => contradiction
  | cons b as ih =>
    obtain ⟨hfirst, hrest⟩ := List.nodup_cons.mp hnodup
    rw [List.flatMap_cons, exec_append, h]
    rcases List.mem_cons.mp ha with rfl | ha
    · have hne : ∀ c ∈ as, key c ≠ key a := fun c hc heq =>
        hfirst (heq ▸ List.mem_map_of_mem hc)
      rw [exec_flatMap_of_ne h hne, Function.update_self]
    · have hne : key a ≠ key b := fun heq => hfirst (heq ▸ List.mem_map_of_mem ha)
      rw [ih hrest ha, Function.update_of_ne hne]

end

/-! ## The value that was set last -/

section

variable {A V : Type*} (sets : List A → A → Option V)

/-- None of some parts, behind a history, sets the value. -/
def Kept (history parts : List A) : Prop :=
  ∀ front a back, parts = front ++ a :: back → sets (history ++ front) a = none

/-- A value was set last: it is the first one and all parts have kept it, or a part has set it and
all parts behind have kept it. -/
def SetLast (first : V) (parts : List A) (v : V) : Prop :=
  (first = v ∧ Kept sets [] parts) ∨ ∃ before a after, parts = before ++ a :: after ∧
    sets before a = some v ∧ Kept sets (before ++ [a]) after

/-- A sequence with one more element is cut at this one or in front of it. -/
theorem concat_eq_append_cons {parts front back : List A} {a b : A}
    (h : parts ++ [a] = front ++ b :: back) : (parts = front ∧ a = b ∧ back = []) ∨
      ∃ back', back = back' ++ [a] ∧ parts = front ++ b :: back' := by
  rcases List.eq_nil_or_concat' back with rfl | ⟨back', c, rfl⟩
  · obtain ⟨hparts, hlast⟩ := List.append_inj' h rfl
    exact Or.inl ⟨hparts, List.singleton_inj.mp hlast, rfl⟩
  · rw [← List.cons_append, ← List.append_assoc] at h
    obtain ⟨hparts, hlast⟩ := List.append_inj' h rfl
    exact Or.inr ⟨back', by rw [List.singleton_inj.mp hlast], hparts⟩

variable {sets}

/-- Parts and one more keep the value if they do and it does. -/
theorem kept_concat {history parts : List A} {a : A} :
    Kept sets history (parts ++ [a]) ↔
      Kept sets history parts ∧ sets (history ++ parts) a = none := by
  constructor
  · intro h
    refine ⟨fun front b back hsplit => ?_, h parts a [] rfl⟩
    exact h front b (back ++ [a]) (by rw [hsplit, List.append_assoc, List.cons_append])
  · rintro ⟨hparts, hlast⟩ front b back hsplit
    obtain ⟨rfl, rfl, -⟩ | ⟨back, rfl, hrest⟩ := concat_eq_append_cons hsplit
    · exact hlast
    · exact hparts front b back hrest

/-- A part that keeps the value does not change what was set last. -/
theorem setLast_concat_of_none {first : V} {parts : List A} {a : A} {v : V}
    (h : sets parts a = none) :
    SetLast sets first (parts ++ [a]) v ↔ SetLast sets first parts v := by
  constructor
  · rintro (⟨hfirst, hkept⟩ | ⟨before, b, after, hsplit, hset, hkept⟩)
    · exact Or.inl ⟨hfirst, (kept_concat.mp hkept).1⟩
    obtain ⟨rfl, rfl, -⟩ | ⟨after, rfl, rfl⟩ := concat_eq_append_cons hsplit
    · rw [h] at hset
      contradiction
    · exact Or.inr ⟨before, b, after, rfl, hset, (kept_concat.mp hkept).1⟩
  · rintro (⟨hfirst, hkept⟩ | ⟨before, b, after, rfl, hset, hkept⟩)
    · exact Or.inl ⟨hfirst, kept_concat.mpr ⟨hkept, h⟩⟩
    · refine Or.inr ⟨before, b, after ++ [a], by simp, hset, kept_concat.mpr ⟨hkept, ?_⟩⟩
      simpa using h

/-- A part that sets the value sets it last. -/
theorem setLast_concat_of_some {first : V} {parts : List A} {a : A} {u v : V}
    (h : sets parts a = some u) : SetLast sets first (parts ++ [a]) v ↔ u = v := by
  constructor
  · rintro (⟨-, hkept⟩ | ⟨before, b, after, hsplit, hset, hkept⟩)
    · have hlast := (kept_concat.mp hkept).2
      rw [List.nil_append, h] at hlast
      contradiction
    obtain ⟨rfl, rfl, -⟩ | ⟨after, rfl, rfl⟩ := concat_eq_append_cons hsplit
    · exact Option.some.inj (h.symm.trans hset)
    · have hlast := (kept_concat.mp hkept).2
      rw [List.append_assoc, List.singleton_append, h] at hlast
      contradiction
  · rintro rfl
    exact Or.inr ⟨parts, a, [], rfl, h, fun front b back hsplit => by simp at hsplit⟩

/-- A value that every part sets or keeps is the one that was set last. -/
theorem value_eq_iff_setLast (value : List A → V)
    (h : ∀ parts a, value (parts ++ [a]) = (sets parts a).getD (value parts)) (parts : List A)
    (v : V) : value parts = v ↔ SetLast sets (value []) parts v := by
  induction parts using List.reverseRecOn with
  | nil =>
    constructor
    · exact fun hv => Or.inl ⟨hv, fun front a back hsplit => by simp at hsplit⟩
    · rintro (⟨hv, -⟩ | ⟨before, a, after, hsplit, -, -⟩)
      · exact hv
      · simp at hsplit
  | append_singleton parts a ih =>
    rw [h]
    cases hset : sets parts a with
    | none => rw [setLast_concat_of_none hset, ← ih, Option.getD_none]
    | some u => rw [setLast_concat_of_some hset, Option.getD_some]

end

end Bench
