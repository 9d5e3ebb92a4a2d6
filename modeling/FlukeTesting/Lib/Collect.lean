import Mathlib.Data.List.Basic
import Mathlib.Data.List.Infix
import Mathlib.Tactic.Common

/-!
# Collecting runs of items from a marked stream

A stream carries items between start and stop marks, and a flush reports the runs collected
since the previous flush. The collector is a small state machine: a bounded list of runs, of
which the last may still be open. In automatic mode an item that finds no open run starts
one. Every element of the stream has a position, and a run remembers where it was started.

A flush clears the runs but leaves an open run open, so a run can be open without being
collected. That happens only where a flush meets an open run.
-/

namespace Collect

variable {A : Type*}

/-- One element of a marked stream. A flush may be told not to report. -/
inductive Mark (A : Type*)
  | start
  | stop
  | flush (written : Bool)
  | item (a : A)
  | other

/-- The item of an element, if it is one. -/
def Mark.item? : Mark A → Option A
  | item a => some a
  | _ => none

/-- Whether an element is a flush. -/
def Mark.isFlush : Mark A → Bool
  | flush _ => true
  | _ => false

/-- A run with the position of its start. -/
structure Run (A : Type*) where
  start : ℕ
  items : List A

/-- Append an item to the last run. -/
def addLast (a : A) : List (Run A) → List (Run A)
  | [] => []
  | [r] => [{ r with items := r.items ++ [a] }]
  | r :: s :: rest => r :: addLast a (s :: rest)

@[simp] theorem addLast_nil (a : A) : addLast a [] = [] := rfl

/-- Appending to the last run leaves the earlier ones alone. -/
@[simp] theorem addLast_concat (a : A) (runs : List (Run A)) (r : Run A) :
    addLast a (runs ++ [r]) = runs ++ [{ r with items := r.items ++ [a] }] := by
  induction runs with
  | nil => rfl
  | cons s runs ih =>
    cases runs with
    | nil => rfl
    | cons t runs => simpa [addLast] using ih

/-- Appending an item does not change the number of runs. -/
@[simp] theorem addLast_length (a : A) (runs : List (Run A)) :
    (addLast a runs).length = runs.length := by
  induction runs using List.reverseRecOn with
  | nil => rfl
  | append_singleton runs r => simp

/-- How runs are collected: at most `capacity` of them, started by items themselves or not. -/
structure Config where
  capacity : ℕ
  auto : Bool

/-- The runs since the last flush, whether the last of them is open, and the reports so far,
each with the position of its flush. -/
structure State (A : Type*) where
  runs : List (Run A)
  isOpen : Bool
  reports : List (ℕ × List (Run A))

/-- Nothing collected and nothing reported. -/
def State.empty : State A := ⟨[], false, []⟩

/-- A start mark opens a new run as long as there is room for one. -/
def State.start (cfg : Config) (n : ℕ) (c : State A) : State A :=
  if c.runs.length < cfg.capacity then
    { c with runs := c.runs ++ [⟨n, []⟩], isOpen := true }
  else c

/-- An item joins the open run. -/
def State.put (a : A) (c : State A) : State A :=
  if c.isOpen then { c with runs := addLast a c.runs } else c

/-- One element of the stream. A flush clears the runs but not the open flag. -/
def State.step (cfg : Config) (c : State A) : Mark A × ℕ → State A
  | (.start, n) => c.start cfg n
  | (.stop, _) => { c with isOpen := false }
  | (.flush written, n) =>
    { c with runs := [], reports := if written then c.reports ++ [(n, c.runs)] else c.reports }
  | (.item a, n) => (if cfg.auto && !c.isOpen then c.start cfg n else c).put a
  | (.other, _) => c

/-- The collector on a whole stream. -/
def State.run (cfg : Config) (c : State A) (marks : List (Mark A × ℕ)) : State A :=
  marks.foldl (State.step cfg) c

@[simp] theorem State.run_nil (cfg : Config) (c : State A) : c.run cfg [] = c := rfl

@[simp] theorem State.run_cons (cfg : Config) (c : State A) (m : Mark A × ℕ)
    (marks : List (Mark A × ℕ)) : c.run cfg (m :: marks) = (c.step cfg m).run cfg marks := rfl

/-- A stream in two parts is collected in two parts. -/
theorem State.run_append (cfg : Config) (c : State A) (front back : List (Mark A × ℕ)) :
    c.run cfg (front ++ back) = (c.run cfg front).run cfg back := List.foldl_append

/-- An open run is one of the collected runs. -/
def State.Backed (c : State A) : Prop := c.isOpen = true → c.runs ≠ []

/-- A start mark never leaves an open run uncollected. -/
theorem State.Backed.start {c : State A} (h : c.Backed) (cfg : Config) (n : ℕ) :
    (c.start cfg n).Backed := by
  unfold State.start
  split
  · intro _
    simp
  · exact h

/-- An item never leaves an open run uncollected. -/
theorem State.Backed.put {c : State A} (h : c.Backed) (a : A) : (c.put a).Backed := by
  unfold State.put
  split
  · intro hopen
    rw [← List.length_pos_iff_ne_nil, addLast_length, List.length_pos_iff_ne_nil]
    exact h hopen
  · exact h

/-- Only a flush that meets an open run can leave it uncollected. -/
theorem State.Backed.step {c : State A} (h : c.Backed) (cfg : Config) (m : Mark A × ℕ)
    (hflush : m.1.isFlush = true → c.isOpen = false) : (c.step cfg m).Backed := by
  obtain ⟨mark, n⟩ := m
  cases mark with
  | start => exact h.start cfg n
  | stop => exact fun hopen => absurd hopen Bool.false_ne_true
  | flush written =>
    intro hopen
    rw [State.step, hflush rfl] at hopen
    contradiction
  | item a =>
    refine State.Backed.put ?_ a
    split
    · exact h.start cfg n
    · exact h
  | other => exact h

/-- Reports are only ever added. -/
theorem State.reports_prefix_step (cfg : Config) (c : State A) (m : Mark A × ℕ) :
    c.reports <+: (c.step cfg m).reports := by
  have hstart (n : ℕ) : (c.start cfg n).reports = c.reports := by
    unfold State.start
    split <;> rfl
  obtain ⟨mark, n⟩ := m
  cases mark with
  | start => rw [State.step, hstart]
  | stop => exact List.prefix_rfl
  | flush written =>
    cases written with
    | false => exact List.prefix_rfl
    | true => exact List.prefix_append _ _
  | item a =>
    simp only [State.step, State.put]
    split <;> split <;> simp [hstart]
  | other => exact List.prefix_rfl

/-- The reports made on the way are an initial segment of all reports. -/
theorem State.reports_prefix_run (cfg : Config) (c : State A) (marks : List (Mark A × ℕ)) :
    c.reports <+: (c.run cfg marks).reports := by
  induction marks generalizing c with
  | nil => exact List.prefix_rfl
  | cons m rest ih => exact (c.reports_prefix_step cfg m).trans (ih (c.step cfg m))

/-- Without a flush, the collector reports nothing. -/
theorem step_reports (cfg : Config) (c : State A) (m : Mark A × ℕ)
    (hflush : m.1.isFlush = false) : (c.step cfg m).reports = c.reports := by
  have hstart (n : ℕ) : (c.start cfg n).reports = c.reports := by
    unfold State.start
    split <;> rfl
  obtain ⟨mark, n⟩ := m
  cases mark with
  | start => exact hstart n
  | stop => rfl
  | flush written => simp [Mark.isFlush] at hflush
  | item a =>
    simp only [State.step, State.put]
    split <;> split <;> simp [hstart]
  | other => rfl

/-- No flush of the stream meets an open run. -/
def NoFlushOpen (cfg : Config) : State A → List (Mark A × ℕ) → Prop
  | _, [] => True
  | c, m :: rest =>
    (m.1.isFlush = true → c.isOpen = false) ∧ NoFlushOpen cfg (c.step cfg m) rest

instance NoFlushOpen.decidable (cfg : Config) :
    (c : State A) → (marks : List (Mark A × ℕ)) → Decidable (NoFlushOpen cfg c marks)
  | _, [] => isTrue trivial
  | c, m :: rest =>
    have := NoFlushOpen.decidable cfg (c.step cfg m) rest
    inferInstanceAs (Decidable (_ ∧ _))

/-- The flushes of a stream in two parts are those of its parts. -/
theorem noFlushOpen_append (cfg : Config) (c : State A) (front back : List (Mark A × ℕ)) :
    NoFlushOpen cfg c (front ++ back) ↔
      NoFlushOpen cfg c front ∧ NoFlushOpen cfg (c.run cfg front) back := by
  induction front generalizing c with
  | nil => simp [NoFlushOpen]
  | cons m front ih => simp only [List.cons_append, NoFlushOpen, ih, State.run_cons, and_assoc]

/-- Whether an element may start a run. -/
def Mark.starts (auto : Bool) : Mark A → Bool
  | start => true
  | item _ => auto
  | _ => false

/-- Every collected run was started at a position in `Q` and holds items in `R` only. -/
def State.RunsFrom (Q : ℕ → Prop) (R : A → Prop) (c : State A) : Prop :=
  ∀ r ∈ c.runs, Q r.start ∧ ∀ a ∈ r.items, R a

section

variable {Q : ℕ → Prop} {R : A → Prop} {c : State A}

/-- A start mark adds a run without items. -/
theorem State.RunsFrom.start (h : c.RunsFrom Q R) (cfg : Config) {n : ℕ} (hn : Q n) :
    (c.start cfg n).RunsFrom Q R := by
  unfold State.start
  split
  · intro r hr
    rcases List.mem_append.mp hr with hold | hnew
    · exact h r hold
    · rw [List.mem_singleton.mp hnew]
      exact ⟨hn, by simp⟩
  · exact h

/-- An item is added to the last run. -/
theorem State.RunsFrom.put (h : c.RunsFrom Q R) {a : A} (ha : R a) : (c.put a).RunsFrom Q R := by
  unfold State.put
  split
  · intro r hr
    rcases List.eq_nil_or_concat c.runs with hnil | ⟨runs, last, hruns⟩
    · simp [hnil] at hr
    · rw [List.concat_eq_append] at hruns
      simp only [hruns, addLast_concat, List.mem_append, List.mem_singleton] at hr
      rcases hr with hold | rfl
      · exact h r (by simp [hruns, hold])
      · obtain ⟨hstart, hitems⟩ := h last (by simp [hruns])
        refine ⟨hstart, fun b hb => ?_⟩
        rcases List.mem_append.mp hb with hold | hnew
        · exact hitems b hold
        · rwa [List.mem_singleton.mp hnew]
  · exact h

/-- An element changes the runs by its own position and item. -/
theorem State.RunsFrom.step (h : c.RunsFrom Q R) (cfg : Config) (m : Mark A × ℕ)
    (hstart : m.1.starts cfg.auto = true → Q m.2) (hitem : ∀ a, m.1.item? = some a → R a) :
    (c.step cfg m).RunsFrom Q R := by
  obtain ⟨mark, n⟩ := m
  cases mark with
  | start => exact h.start cfg (hstart rfl)
  | stop => exact h
  | flush written => exact fun r hr => absurd hr (by simp [State.step])
  | item a =>
    refine State.RunsFrom.put ?_ (hitem a rfl)
    split
    · rename_i hauto
      rw [Bool.and_eq_true] at hauto
      exact h.start cfg (hstart hauto.1)
    · exact h
  | other => exact h

/-- A stream changes the runs by its own positions and items. -/
theorem State.RunsFrom.run (h : c.RunsFrom Q R) (cfg : Config) (marks : List (Mark A × ℕ))
    (hstart : ∀ m ∈ marks, m.1.starts cfg.auto = true → Q m.2)
    (hitem : ∀ m ∈ marks, ∀ a, m.1.item? = some a → R a) : (c.run cfg marks).RunsFrom Q R := by
  induction marks generalizing c with
  | nil => exact h
  | cons m rest ih =>
    exact ih (h.step cfg m (hstart m (by simp)) (hitem m (by simp)))
      (fun m' hm' => hstart m' (List.mem_cons_of_mem _ hm'))
      fun m' hm' => hitem m' (List.mem_cons_of_mem _ hm')

/-- Without a flush, collected runs stay. -/
theorem State.starts_prefix_step (cfg : Config) (c : State A) (m : Mark A × ℕ)
    (hflush : m.1.isFlush = false) :
    c.runs.map Run.start <+: (c.step cfg m).runs.map Run.start := by
  have hstart (n : ℕ) : c.runs.map Run.start <+: (c.start cfg n).runs.map Run.start := by
    unfold State.start
    split
    · simp
    · exact List.prefix_rfl
  have hput (d : State A) (a : A) : (d.put a).runs.map Run.start = d.runs.map Run.start := by
    unfold State.put
    split
    · rcases List.eq_nil_or_concat d.runs with hnil | ⟨runs, last, hruns⟩
      · simp [hnil]
      · simp [hruns]
    · rfl
  obtain ⟨mark, n⟩ := m
  cases mark with
  | start => exact hstart n
  | stop => exact List.prefix_rfl
  | flush written => simp [Mark.isFlush] at hflush
  | item a =>
    rw [State.step, hput]
    split
    · exact hstart n
    · exact List.prefix_rfl
  | other => exact List.prefix_rfl

/-- Along a stream without flushes, collected runs stay. -/
theorem State.starts_prefix_run (cfg : Config) (c : State A) (marks : List (Mark A × ℕ))
    (hflush : ∀ m ∈ marks, m.1.isFlush = false) :
    c.runs.map Run.start <+: (c.run cfg marks).runs.map Run.start := by
  induction marks generalizing c with
  | nil => exact List.prefix_rfl
  | cons m rest ih =>
    exact (c.starts_prefix_step cfg m (hflush m (by simp))).trans
      (ih (c.step cfg m) fun m' hm' => hflush m' (List.mem_cons_of_mem _ hm'))

end

end Collect
