import FlukeTesting.Lib.Collect

/-!
# Recording tests

A bench announces a client, begins a test, opens and closes its runs and finishes it, and all the
while items arrive. The recorder keeps for every finished test what was announced for it and the
items of its runs. It knows no bounds and expects an orderly sequence, in which no run is opened
before the last one is closed, and no test is finished before its last run is closed.

On an orderly sequence a collector of bounded size has the first runs of the recorder.
-/

namespace Recording

open Collect

variable {C T A : Type*}

/-- One element of the sequence. -/
inductive Input (C T A : Type*)
  | announce (client : C)
  | begin (test : T)
  | start
  | stop
  | finish
  | take (a : A)
  | note
  deriving DecidableEq

/-- An input with its item replaced. -/
def Input.map {B : Type*} (f : A → B) : Input C T A → Input C T B
  | announce client => .announce client
  | begin test => .begin test
  | start => .start
  | stop => .stop
  | finish => .finish
  | take a => .take (f a)
  | note => .note

/-- What is kept of a finished test, with the position of its end. -/
structure Record (C T A : Type*) where
  client : Option C
  test : Option T
  runs : List (Run A)
  line : ℕ

/-- The recorder: what was announced since the last test was finished, and the tests so far. -/
structure State (C T A : Type*) where
  client : Option C
  test : Option T
  runs : List (Run A)
  isOpen : Bool
  records : List (Record C T A)

/-- Between two tests. -/
def State.idle (records : List (Record C T A)) : State C T A := ⟨none, none, [], false, records⟩

/-- An item joins the open run. -/
def State.take (a : A) (r : State C T A) : State C T A :=
  if r.isOpen then { r with runs := addLast a r.runs } else r

/-- One step of the recorder. -/
def State.step (r : State C T A) : Input C T A × ℕ → State C T A
  | (.announce client, _) => { r with client := some client }
  | (.begin test, _) => { r with test := some test }
  | (.start, n) => { r with runs := r.runs ++ [⟨n, []⟩], isOpen := true }
  | (.stop, _) => { r with isOpen := false }
  | (.finish, n) => .idle (r.records ++ [⟨r.client, r.test, r.runs, n⟩])
  | (.take a, _) => r.take a
  | (.note, _) => r

/-- The recorder on a whole sequence. -/
def State.run (r : State C T A) (inputs : List (Input C T A × ℕ)) : State C T A :=
  inputs.foldl State.step r

@[simp] theorem State.run_nil (r : State C T A) : r.run [] = r := rfl

@[simp] theorem State.run_cons (r : State C T A) (i : Input C T A × ℕ)
    (inputs : List (Input C T A × ℕ)) : r.run (i :: inputs) = (r.step i).run inputs := rfl

/-- A sequence in two parts is recorded in two parts. -/
theorem State.run_append (r : State C T A) (front back : List (Input C T A × ℕ)) :
    r.run (front ++ back) = (r.run front).run back := List.foldl_append

/-- Runs are opened and tests finished only while no run is open. -/
def Input.Fits (r : State C T A) : Input C T A → Prop
  | .start | .finish => r.isOpen = false
  | _ => True

/-- Every input of a sequence fits the state in which it arrives. -/
def Orderly : State C T A → List (Input C T A × ℕ) → Prop
  | _, [] => True
  | r, i :: inputs => i.1.Fits r ∧ Orderly (r.step i) inputs

/-- A sequence in two parts is orderly if its parts are. -/
theorem orderly_append (r : State C T A) (front back : List (Input C T A × ℕ)) :
    Orderly r (front ++ back) ↔ Orderly r front ∧ Orderly (r.run front) back := by
  induction front generalizing r with
  | nil => simp [Orderly]
  | cons i front ih => simp only [List.cons_append, Orderly, ih, State.run_cons, and_assoc]

/-- An open run is one of the recorded runs. -/
def State.Backed (r : State C T A) : Prop := r.isOpen = true → r.runs ≠ []

/-- No input leaves a run open without having it. -/
theorem State.Backed.step {r : State C T A} (h : r.Backed) (i : Input C T A × ℕ) :
    (r.step i).Backed := by
  obtain ⟨input, n⟩ := i
  cases input with
  | announce client => exact h
  | begin test => exact h
  | start =>
    intro _
    simp [State.step]
  | stop => exact fun hopen => absurd hopen Bool.false_ne_true
  | finish => exact fun hopen => absurd hopen Bool.false_ne_true
  | take a =>
    change (r.take a).Backed
    unfold State.take
    split
    · intro hopen
      rw [← List.length_pos_iff_ne_nil, addLast_length, List.length_pos_iff_ne_nil]
      exact h hopen
    · exact h
  | note => exact h

/-- Records are kept. -/
theorem State.records_step (r : State C T A) (i : Input C T A × ℕ) :
    r.records <+: (r.step i).records := by
  obtain ⟨input, n⟩ := i
  cases input with
  | finish => exact List.prefix_append _ _
  | take a =>
    change r.records <+: (r.take a).records
    unfold State.take
    split <;> exact List.prefix_rfl
  | announce | begin | start | stop | note => exact List.prefix_rfl

/-- Whatever follows, the records so far are the first ones. -/
theorem State.records_run (r : State C T A) (inputs : List (Input C T A × ℕ)) :
    r.records <+: (r.run inputs).records := by
  induction inputs generalizing r with
  | nil => exact List.prefix_rfl
  | cons i inputs ih => exact (r.records_step i).trans (ih (r.step i))

/-- Whether an input finishes a test. -/
def Input.isFinish : Input C T A → Bool
  | finish => true
  | _ => false

/-- Whether an input opens a run. -/
def Input.isStart : Input C T A → Bool
  | start => true
  | _ => false

/-- Every end of a test makes a record, and nothing else does. -/
theorem State.length_records_run (r : State C T A) (inputs : List (Input C T A × ℕ)) :
    (r.run inputs).records.length =
      r.records.length + (inputs.map Prod.fst).countP Input.isFinish := by
  induction inputs generalizing r with
  | nil => rfl
  | cons i inputs ih =>
    obtain ⟨input, n⟩ := i
    rw [State.run_cons, ih, List.map_cons, List.countP_cons]
    cases input with
    | finish => simp [State.step, State.idle, Input.isFinish]; omega
    | take a =>
      have htake : (r.take a).records = r.records := by
        unfold State.take
        split <;> rfl
      simp [State.step, htake, Input.isFinish]
    | announce | begin | start | stop | note => simp [State.step, Input.isFinish]

/-- Without the end of a test no record is made. -/
theorem State.records_run_of_not_finish (r : State C T A) {inputs : List (Input C T A × ℕ)}
    (h : ∀ i ∈ inputs, i.1 ≠ .finish) : (r.run inputs).records = r.records := by
  have hnone : (inputs.map Prod.fst).countP Input.isFinish = 0 := by
    rw [List.countP_eq_zero]
    intro i hi hfinish
    obtain ⟨j, hj, rfl⟩ := List.mem_map.mp hi
    apply h j hj
    cases hinput : j.1 <;> simp [hinput, Input.isFinish] at hfinish ⊢
  apply ((r.records_run inputs).eq_of_length _).symm
  rw [r.length_records_run, hnone, Nat.add_zero]

/-- The inputs are orderly and lead from one state to another. -/
def Leads (r : State C T A) (inputs : List (Input C T A × ℕ)) (r' : State C T A) : Prop :=
  Orderly r inputs ∧ r.run inputs = r'

/-- No inputs lead nowhere. -/
theorem Leads.refl (r : State C T A) : Leads r [] r := ⟨trivial, rfl⟩

/-- One input that fits leads to the next state. -/
theorem Leads.single {r : State C T A} {i : Input C T A × ℕ} (h : i.1.Fits r) :
    Leads r [i] (r.step i) := ⟨⟨h, trivial⟩, rfl⟩

/-- What leads to a state and from it on leads all the way. -/
theorem Leads.append {r s t : State C T A} {front back : List (Input C T A × ℕ)}
    (hfront : Leads r front s) (hback : Leads s back t) : Leads r (front ++ back) t := by
  obtain ⟨horderly, rfl⟩ := hfront
  obtain ⟨horderly', rfl⟩ := hback
  exact ⟨(orderly_append r front back).mpr ⟨horderly, horderly'⟩, r.run_append front back⟩

/-! ## A collector of bounded size -/

/-- The mark of an input, for a collector that reports every test or leaves some out. -/
def Input.mark (written : Bool) : Input C T A → Mark A
  | start => .start
  | stop => .stop
  | finish => .flush written
  | take a => .item a
  | announce _ | begin _ | note => .other

/-- The collector has the first runs, and has the last one open if it is among them. -/
structure Bounded (capacity : ℕ) (c : Collect.State A) (r : State C T A) : Prop where
  runs : c.runs = r.runs.take capacity
  isOpen : c.isOpen = (r.isOpen && decide (r.runs.length ≤ capacity))

/-- A collector that has as many runs as it can ignores all further ones. -/
theorem Bounded.step {cfg : Config} (hauto : cfg.auto = false) {c : Collect.State A}
    {r : State C T A} (h : Bounded cfg.capacity c r) {i : Input C T A × ℕ} (hfits : i.1.Fits r)
    (written : Bool) :
    Bounded cfg.capacity (c.step cfg (i.1.mark written, i.2)) (r.step i) := by
  obtain ⟨input, n⟩ := i
  cases input with
  | start =>
    have hclosed : r.isOpen = false := hfits
    have hlength : c.runs.length = min cfg.capacity r.runs.length := by
      rw [h.runs, List.length_take]
    simp only [Input.mark, Collect.State.step, State.step, Collect.State.start]
    by_cases hroom : r.runs.length < cfg.capacity
    · have hall : c.runs = r.runs := by rw [h.runs, List.take_of_length_le hroom.le]
      rw [if_pos (by omega)]
      refine ⟨?_, ?_⟩
      · rw [List.take_of_length_le (by simp; omega)]
        exact congrArg (· ++ [⟨n, []⟩]) hall
      · simp
        omega
    · rw [if_neg (by omega)]
      refine ⟨?_, ?_⟩
      · rw [List.take_append_of_le_length (by omega)]
        exact h.runs
      · rw [h.isOpen, hclosed]
        simp
        omega
  | stop => exact ⟨h.runs, rfl⟩
  | finish =>
    have hclosed : r.isOpen = false := hfits
    refine ⟨List.take_nil.symm, ?_⟩
    change c.isOpen = false
    rw [h.isOpen, hclosed]
    rfl
  | take a =>
    simp only [Input.mark, Collect.State.step, State.step, hauto, Bool.false_and,
      Bool.false_eq_true,
      if_false, Collect.State.put, State.take, h.isOpen]
    cases hopen : r.isOpen with
    | false => simpa [hopen] using h
    | true =>
      by_cases hroom : r.runs.length ≤ cfg.capacity
      · have hall : c.runs = r.runs := by rw [h.runs, List.take_of_length_le hroom]
        refine ⟨?_, ?_⟩
        · rw [if_pos (by simpa using hroom), if_pos rfl, hall,
            List.take_of_length_le (by rwa [addLast_length])]
        · rw [if_pos (by simpa using hroom), if_pos rfl, addLast_length]
      · obtain ⟨runs, last, hruns⟩ := List.eq_nil_or_concat r.runs |>.resolve_left
          (List.ne_nil_of_length_pos (by omega))
        rw [List.concat_eq_append] at hruns
        have hfull : cfg.capacity ≤ runs.length := by
          rw [hruns, List.length_append, List.length_singleton] at hroom
          omega
        rw [if_neg (by simpa using hroom), if_pos rfl]
        refine ⟨?_, ?_⟩
        · rw [hruns, addLast_concat, List.take_append_of_le_length hfull, h.runs, hruns,
            List.take_append_of_le_length hfull]
        · rw [h.isOpen, hopen, addLast_length]
  | announce | begin | note => exact ⟨h.runs, h.isOpen⟩

/-- A bounded collector with an open run has it. -/
theorem Bounded.backed {capacity : ℕ} (hcapacity : 0 < capacity) {c : Collect.State A}
    {r : State C T A} (h : Bounded capacity c r) (hback : r.Backed) : c.Backed := by
  intro hopen hnil
  rw [h.isOpen, Bool.and_eq_true] at hopen
  rw [h.runs, List.take_eq_nil_iff] at hnil
  exact hnil.elim hcapacity.ne' (hback hopen.1)

/-! ## The items of the runs -/

/-- All items of runs have a property. -/
def RunsHold (P : A → Prop) (runs : List (Run A)) : Prop := ∀ run ∈ runs, ∀ a ∈ run.items, P a

/-- All recorded items have a property. -/
structure State.Holds (P : A → Prop) (r : State C T A) : Prop where
  runs : RunsHold P r.runs
  records : ∀ record ∈ r.records, RunsHold P record.runs

/-- Appending an item that has the property keeps it. -/
theorem RunsHold.addLast {P : A → Prop} {runs : List (Run A)} (h : RunsHold P runs) {a : A}
    (ha : P a) : RunsHold P (Collect.addLast a runs) := by
  rcases List.eq_nil_or_concat runs with rfl | ⟨front, last, rfl⟩
  · exact h
  · intro run hrun b hb
    rw [List.concat_eq_append, addLast_concat, List.mem_append, List.mem_singleton] at hrun
    rcases hrun with hfront | rfl
    · exact h run (by simp [hfront]) b hb
    · rcases List.mem_append.mp hb with hb | hb
      · exact h last (by simp) b hb
      · exact List.mem_singleton.mp hb ▸ ha

/-- An input whose item has the property keeps it. -/
theorem State.Holds.step {P : A → Prop} {r : State C T A} (h : r.Holds P) {i : Input C T A × ℕ}
    (hi : ∀ a, i.1 = .take a → P a) : (r.step i).Holds P := by
  obtain ⟨input, n⟩ := i
  cases input with
  | take a =>
    change (r.take a).Holds P
    unfold State.take
    split
    · exact ⟨h.runs.addLast (hi a rfl), h.records⟩
    · exact h
  | start =>
    refine ⟨fun run hrun a ha => ?_, h.records⟩
    rcases List.mem_append.mp hrun with hrun | hrun
    · exact h.runs run hrun a ha
    · rw [List.mem_singleton.mp hrun] at ha
      exact absurd ha List.not_mem_nil
  | finish =>
    refine ⟨fun _ hrun => absurd hrun List.not_mem_nil, fun record hrecord => ?_⟩
    rcases List.mem_append.mp hrecord with hrecord | hrecord
    · exact h.records record hrecord
    · rw [List.mem_singleton.mp hrecord]
      exact h.runs
  | announce | begin | stop | note => exact ⟨h.runs, h.records⟩

/-- A sequence whose items have the property keeps it. -/
theorem State.Holds.run {P : A → Prop} {r : State C T A} (h : r.Holds P)
    {inputs : List (Input C T A × ℕ)} (hinputs : ∀ i ∈ inputs, ∀ a, i.1 = .take a → P a) :
    (r.run inputs).Holds P := by
  induction inputs generalizing r with
  | nil => exact h
  | cons i inputs ih =>
    exact ih (h.step (hinputs i (by simp))) fun j hj => hinputs j (List.mem_cons_of_mem _ hj)

/-! ## Other items on other positions, and earlier records -/

section

variable {B : Type*} (f : A → B) (g : ℕ → ℕ)

/-- A run with other items on other positions. -/
def relabelRun (run : Run A) : Run B := ⟨g run.start, run.items.map f⟩

/-- A record with other items on other positions. -/
def Record.relabel (r : Record C T A) : Record C T B :=
  ⟨r.client, r.test, r.runs.map (relabelRun f g), g r.line⟩

/-- A recorder with other items on other positions. -/
def State.relabel (r : State C T A) : State C T B :=
  ⟨r.client, r.test, r.runs.map (relabelRun f g), r.isOpen, r.records.map (Record.relabel f g)⟩

/-- An input with another item on another position. -/
def relabelInput (i : Input C T A × ℕ) : Input C T B × ℕ := (i.1.map f, g i.2)

/-- A step with other items on other positions. -/
theorem State.relabel_step (r : State C T A) (i : Input C T A × ℕ) :
    (r.step i).relabel f g = (r.relabel f g).step (relabelInput f g i) := by
  obtain ⟨input, n⟩ := i
  cases input with
  | take a =>
    have hlast : (addLast a r.runs).map (relabelRun f g) =
        addLast (f a) (r.runs.map (relabelRun f g)) := by
      rcases List.eq_nil_or_concat r.runs with hnil | ⟨runs, last, hruns⟩
      · rw [hnil]
        rfl
      · rw [hruns, List.concat_eq_append, addLast_concat, List.map_append, List.map_append,
          List.map_singleton, List.map_singleton, addLast_concat]
        simp [relabelRun]
    cases hopen : r.isOpen <;>
      simp [State.step, State.take, State.relabel, relabelInput, Input.map, hopen, hlast]
  | start => simp [State.step, State.relabel, relabelInput, Input.map, relabelRun]
  | finish =>
    simp [State.step, State.relabel, relabelInput, Input.map, State.idle, Record.relabel]
  | announce | begin | stop | note => rfl

/-- A whole sequence with other items on other positions. -/
theorem State.relabel_run (r : State C T A) (inputs : List (Input C T A × ℕ)) :
    (r.run inputs).relabel f g = (r.relabel f g).run (inputs.map (relabelInput f g)) := by
  induction inputs generalizing r with
  | nil => rfl
  | cons i inputs ih => rw [State.run_cons, ih, State.relabel_step, List.map_cons, State.run_cons]

/-- Order does not depend on items and positions. -/
theorem orderly_relabel (r : State C T A) (inputs : List (Input C T A × ℕ)) :
    Orderly (r.relabel f g) (inputs.map (relabelInput f g)) ↔ Orderly r inputs := by
  induction inputs generalizing r with
  | nil => exact Iff.rfl
  | cons i inputs ih =>
    have hfits : (relabelInput f g i).1.Fits (r.relabel f g) ↔ i.1.Fits r := by
      obtain ⟨input, n⟩ := i
      cases input <;> exact Iff.rfl
    rw [List.map_cons, Orderly, Orderly, hfits, ← State.relabel_step, ih]

end

/-- A recorder behind earlier records. -/
def State.behind (records : List (Record C T A)) (r : State C T A) : State C T A :=
  { r with records := records ++ r.records }

/-- A step behind earlier records. -/
theorem State.behind_step (records : List (Record C T A)) (r : State C T A)
    (i : Input C T A × ℕ) : (r.step i).behind records = (r.behind records).step i := by
  obtain ⟨input, n⟩ := i
  cases input with
  | take a => cases hopen : r.isOpen <;> simp [State.step, State.take, State.behind, hopen]
  | finish => simp [State.step, State.behind, State.idle]
  | announce | begin | start | stop | note => rfl

/-- A whole sequence behind earlier records. -/
theorem State.behind_run (records : List (Record C T A)) (r : State C T A)
    (inputs : List (Input C T A × ℕ)) :
    (r.run inputs).behind records = (r.behind records).run inputs := by
  induction inputs generalizing r with
  | nil => rfl
  | cons i inputs ih => rw [State.run_cons, ih, State.behind_step, State.run_cons]

/-- Order does not depend on earlier records. -/
theorem orderly_behind (records : List (Record C T A)) (r : State C T A)
    (inputs : List (Input C T A × ℕ)) : Orderly (r.behind records) inputs ↔ Orderly r inputs := by
  induction inputs generalizing r with
  | nil => exact Iff.rfl
  | cons i inputs ih =>
    have hfits : i.1.Fits (r.behind records) ↔ i.1.Fits r := by
      obtain ⟨input, n⟩ := i
      cases input <;> exact Iff.rfl
    rw [Orderly, Orderly, hfits, ← State.behind_step, ih]

end Recording
