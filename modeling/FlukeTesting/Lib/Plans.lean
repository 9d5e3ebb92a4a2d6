import Mathlib.Algebra.GroupWithZero.Nat
import Mathlib.Data.List.Forall2
import FlukeTesting.Lib.Recorder

/-!
# Recording what was planned

A plan is a test with its rounds: an announcement perhaps, a beginning, the two marks of every run
with some notes behind them, an end, and some notes behind that. Whatever items arrive in between,
and wherever the sequence is broken off, the inputs of plans are orderly and yield one record for
each plan that is complete, whose runs hold the items between their two marks.
-/

namespace Recording

open Collect

variable {C T A : Type*}

/-! ## Inputs with the items behind them -/

/-- An input with its position, and the items that arrive before the next one. -/
structure Entry (C T A : Type*) where
  input : Input C T A
  line : ℕ
  items : List (A × ℕ)

/-- Items as inputs. -/
def itemInputs (items : List (A × ℕ)) : List (Input C T A × ℕ) :=
  items.map fun (a, n) => (.take a, n)

/-- The inputs of an entry. -/
def Entry.inputs (e : Entry C T A) : List (Input C T A × ℕ) :=
  (e.input, e.line) :: itemInputs e.items

/-- The inputs of a sequence of entries. -/
def inputsOf (entries : List (Entry C T A)) : List (Input C T A × ℕ) :=
  entries.flatMap Entry.inputs

@[simp] theorem inputsOf_nil : inputsOf ([] : List (Entry C T A)) = [] := rfl

@[simp] theorem inputsOf_cons (e : Entry C T A) (entries : List (Entry C T A)) :
    inputsOf (e :: entries) = e.inputs ++ inputsOf entries := rfl

@[simp] theorem inputsOf_append (front back : List (Entry C T A)) :
    inputsOf (front ++ back) = inputsOf front ++ inputsOf back := List.flatMap_append

/-- The run between an entry and the next input. -/
def Entry.window (e : Entry C T A) : Run A := ⟨e.line, e.items.map Prod.fst⟩

/-- The run that an entry opens, if it opens one. -/
def Entry.run? (e : Entry C T A) : Option (Run A) :=
  match e.input with
  | .start => some e.window
  | _ => none

/-- The runs that entries open, each with the items up to the next input. -/
def windows (entries : List (Entry C T A)) : List (Run A) := entries.filterMap Entry.run?

@[simp] theorem windows_append (front back : List (Entry C T A)) :
    windows (front ++ back) = windows front ++ windows back := List.filterMap_append

/-- An entry that opens a run adds its window. -/
theorem windows_cons_start {e : Entry C T A} (h : e.input = .start) (entries : List (Entry C T A)) :
    windows (e :: entries) = e.window :: windows entries :=
  List.filterMap_cons_some (by rw [Entry.run?, h])

/-- An entry that opens no run adds none. -/
theorem windows_cons_of_ne {e : Entry C T A} (h : e.input ≠ .start) (entries : List (Entry C T A)) :
    windows (e :: entries) = windows entries := by
  apply List.filterMap_cons_none
  unfold Entry.run?
  split
  · exact absurd ‹_› h
  · rfl

/-- Windows are as many as the entries that open a run. -/
theorem length_windows (entries : List (Entry C T A)) :
    (windows entries).length = (entries.map Entry.input).countP Input.isStart := by
  induction entries with
  | nil => rfl
  | cons e entries ih =>
    rw [List.map_cons, List.countP_cons]
    by_cases hstart : e.input = .start
    · rw [windows_cons_start hstart, List.length_cons, ih, hstart]
      rfl
    · have hother : e.input.isStart = false := by
        cases hinput : e.input with
        | start => exact absurd hinput hstart
        | announce | begin | stop | finish | take | note => rfl
      rw [windows_cons_of_ne hstart, ih, hother]
      rfl

/-- Items that find no open run are dropped. -/
theorem leads_items_closed {r : State C T A} (h : r.isOpen = false) (items : List (A × ℕ)) :
    Leads r (itemInputs items) r := by
  induction items with
  | nil => exact .refl r
  | cons p items ih =>
    have hstep : r.step (.take p.1, p.2) = r := by simp [State.step, State.take, h]
    have hfirst : Leads r [(.take p.1, p.2)] r := ⟨⟨trivial, trivial⟩, hstep⟩
    exact hfirst.append ih

/-- Items that find a run open are appended to it. -/
theorem leads_items_open {r : State C T A} (h : r.isOpen = true) {runs : List (Run A)}
    {last : Run A} (hruns : r.runs = runs ++ [last]) (items : List (A × ℕ)) :
    Leads r (itemInputs items)
      { r with runs := runs ++ [{ last with items := last.items ++ items.map Prod.fst }] } := by
  induction items generalizing r last with
  | nil =>
    refine ⟨trivial, ?_⟩
    simp [itemInputs, ← hruns]
  | cons p items ih =>
    have hfirst : Leads r [(.take p.1, p.2)]
        { r with runs := runs ++ [{ last with items := last.items ++ [p.1] }] } := by
      refine ⟨⟨trivial, trivial⟩, ?_⟩
      simp [State.step, State.take, h, hruns]
    have hrest := ih (r := { r with runs := runs ++ [{ last with items := last.items ++ [p.1] }] })
      h rfl
    have hitems : itemInputs (p :: items) =
        ([(.take p.1, p.2)] ++ itemInputs items : List (Input C T A × ℕ)) := rfl
    rw [hitems]
    simpa using hfirst.append hrest

/-- An entry that neither opens a run nor finds one open has the effect of its input. -/
theorem Entry.leads {r : State C T A} (e : Entry C T A) (hopen : r.isOpen = false)
    (hstart : e.input ≠ .start) : Leads r e.inputs (r.step (e.input, e.line)) := by
  have hfits : e.input.Fits r := by
    cases hinput : e.input with
    | start => exact absurd hinput hstart
    | finish => exact hopen
    | announce | begin | stop | take | note => trivial
  have hclosed : (r.step (e.input, e.line)).isOpen = false := by
    cases hinput : e.input with
    | start => exact absurd hinput hstart
    | take a => simp [State.step, State.take, hopen]
    | stop | finish => rfl
    | announce | begin | note => exact hopen
  exact (Leads.single (i := (e.input, e.line)) hfits).append (leads_items_closed hclosed e.items)

/-- The two entries of a run record it. -/
theorem leads_window {r : State C T A} (hopen : r.isOpen = false) {e e' : Entry C T A}
    (hstart : e.input = .start) (hstop : e'.input = .stop) :
    Leads r (e.inputs ++ e'.inputs) { r with runs := r.runs ++ [e.window] } := by
  have hfirst : Leads r [(e.input, e.line)]
      { r with runs := r.runs ++ [⟨e.line, []⟩], isOpen := true } := by
    rw [hstart]
    exact Leads.single (i := (.start, e.line)) hopen
  have hitems := leads_items_open
    (r := { r with runs := r.runs ++ [⟨e.line, []⟩], isOpen := true }) rfl rfl e.items
  have hstep : Leads { r with runs := r.runs ++ [e.window], isOpen := true }
      [(e'.input, e'.line)] { r with runs := r.runs ++ [e.window] } := by
    rw [hstop]
    refine ⟨⟨trivial, trivial⟩, ?_⟩
    simp [State.step, hopen]
  have hrest := leads_items_closed (r := { r with runs := r.runs ++ [e.window] }) hopen e'.items
  exact (hfirst.append hitems).append (hstep.append hrest)

/-! ## Plans -/

/-- A test with its rounds: the number of notes behind the run of each, and behind the test. -/
structure Plan (C T : Type*) where
  client : Option C
  test : T
  rounds : List ℕ
  notes : ℕ

/-- The inputs of a round: a run and the notes behind it. -/
def roundInputs (notes : ℕ) : List (Input C T A) := .start :: .stop :: List.replicate notes .note

/-- The inputs of a plan up to the end of its last round. -/
def Plan.opening (p : Plan C T) : List (Input C T A) :=
  p.client.elim [] (fun c => [.announce c]) ++ .begin p.test :: p.rounds.flatMap roundInputs

/-- The inputs of a plan up to the end of its test. -/
def Plan.inputs (p : Plan C T) : List (Input C T A) := p.opening ++ [.finish]

/-- All inputs of a plan. -/
def Plan.session (p : Plan C T) : List (Input C T A) :=
  p.inputs ++ List.replicate p.notes .note

/-- Only the end of a test finishes it. -/
theorem Plan.finish_notMem (p : Plan C T) : (.finish : Input C T A) ∉ p.opening := by
  unfold Plan.opening
  cases p.client <;> simp [roundInputs]

/-- Notes change nothing. -/
theorem leads_notes {r : State C T A} (hopen : r.isOpen = false) {entries : List (Entry C T A)}
    (h : ∀ e ∈ entries, e.input = .note) : Leads r (inputsOf entries) r := by
  induction entries with
  | nil => exact .refl r
  | cons e entries ih =>
    have hnote := h e (by simp)
    have hfirst := e.leads hopen (by simp [hnote])
    rw [hnote] at hfirst
    exact hfirst.append (ih fun e' he' => h e' (List.mem_cons_of_mem _ he'))

/-- Notes open no run. -/
theorem windows_of_notes {entries : List (Entry C T A)} (h : ∀ e ∈ entries, e.input = .note) :
    windows entries = [] := by
  induction entries with
  | nil => rfl
  | cons e entries ih =>
    rw [windows_cons_of_ne (by simp [h e])]
    exact ih fun e' he' => h e' (List.mem_cons_of_mem _ he')

/-- Rounds add their runs. -/
theorem leads_rounds {r : State C T A} (hopen : r.isOpen = false) (rounds : List ℕ)
    {entries : List (Entry C T A)} (h : entries.map Entry.input = rounds.flatMap roundInputs) :
    Leads r (inputsOf entries) { r with runs := r.runs ++ windows entries } := by
  induction rounds generalizing r entries with
  | nil =>
    rw [List.flatMap_nil, List.map_eq_nil_iff] at h
    subst h
    exact ⟨trivial, by simp [windows]⟩
  | cons notes rounds ih =>
    rw [List.flatMap_cons] at h
    obtain ⟨round, later, rfl, hround, hlater⟩ := List.map_eq_append_iff.mp h
    obtain ⟨e, round, rfl, hstart, hround⟩ := List.map_eq_cons_iff.mp hround
    obtain ⟨e', round, rfl, hstop, hround⟩ := List.map_eq_cons_iff.mp hround
    have hnotes : ∀ n ∈ round, n.input = .note := fun n hn =>
      List.eq_of_mem_replicate (hround ▸ List.mem_map_of_mem hn)
    have hwindow := leads_window hopen hstart hstop
    have hquiet := leads_notes (r := { r with runs := r.runs ++ [e.window] }) hopen hnotes
    have hnone := windows_of_notes hnotes
    have hrest := ih (r := { r with runs := r.runs ++ [e.window] }) hopen hlater
    have hwindows : windows (e :: e' :: round ++ later) = e.window :: windows later := by
      rw [windows_append, windows_cons_start hstart, windows_cons_of_ne (by simp [hstop]), hnone]
      rfl
    have hinputs : inputsOf (e :: e' :: round ++ later) =
        (e.inputs ++ e'.inputs) ++ (inputsOf round ++ inputsOf later) := by simp
    rw [hinputs, hwindows]
    simpa using hwindow.append (hquiet.append hrest)

/-- An announcement in front of a test, if there is one, is all there is. -/
theorem leads_announcement (records : List (Record C T A)) (client : Option C)
    {entries : List (Entry C T A)}
    (h : entries.map Entry.input = client.elim [] (fun c => [.announce c])) :
    Leads (.idle records) (inputsOf entries) { State.idle records with client := client } ∧
      windows entries = [] := by
  cases client with
  | none =>
    rw [Option.elim_none, List.map_eq_nil_iff] at h
    subst h
    exact ⟨.refl _, rfl⟩
  | some c =>
    rw [Option.elim_some, List.map_eq_singleton_iff] at h
    obtain ⟨e, rfl, hannounce⟩ := h
    have hlead := e.leads (r := State.idle records) rfl (by simp [hannounce])
    rw [hannounce] at hlead
    rw [inputsOf_cons, inputsOf_nil, List.append_nil, windows_cons_of_ne (by simp [hannounce])]
    exact ⟨hlead, rfl⟩

/-- The entries of the inputs of a plan: an announcement perhaps, the beginning, the rounds, whose
runs are all there are, and the end. -/
theorem Plan.entries_eq (p : Plan C T) {entries : List (Entry C T A)}
    (h : entries.map Entry.input = p.inputs) :
    ∃ front b rounds e, entries = front ++ b :: (rounds ++ [e]) ∧
      front.map Entry.input = p.client.elim [] (fun c => [.announce c]) ∧
      b.input = .begin p.test ∧ rounds.map Entry.input = p.rounds.flatMap roundInputs ∧
      e.input = .finish ∧ windows entries = windows rounds := by
  rw [Plan.inputs, Plan.opening, List.append_assoc] at h
  obtain ⟨front, later, rfl, hfront, hlater⟩ := List.map_eq_append_iff.mp h
  obtain ⟨b, later, rfl, hbegin, hlater⟩ := List.map_eq_cons_iff.mp hlater
  obtain ⟨rounds, last, rfl, hrounds, hlast⟩ := List.map_eq_append_iff.mp hlater
  obtain ⟨e, rfl, hfinish⟩ := List.map_eq_singleton_iff.mp hlast
  refine ⟨front, b, rounds, e, rfl, hfront, hbegin, hrounds, hfinish, ?_⟩
  rw [windows_append, (leads_announcement [] p.client hfront).2,
    windows_cons_of_ne (by simp [hbegin]), windows_append, windows_cons_of_ne (by simp [hfinish])]
  simp [windows]

/-- The record of a plan from the entries of its inputs. -/
def Plan.record (p : Plan C T) (entries : List (Entry C T A)) : Record C T A where
  client := p.client
  test := some p.test
  runs := windows entries
  line := (entries.getLast?.map Entry.line).getD 0

/-- A plan that is followed to its end makes its record. -/
theorem Plan.leads (p : Plan C T) (records : List (Record C T A)) {entries : List (Entry C T A)}
    (h : entries.map Entry.input = p.inputs) :
    Leads (.idle records) (inputsOf entries) (.idle (records ++ [p.record entries])) := by
  obtain ⟨front, b, rounds, e, rfl, hfront, hbegin, hrounds, hfinish, hwindows⟩ := p.entries_eq h
  have hclient := (leads_announcement records p.client hfront).1
  have htest : Leads { State.idle records with client := p.client } b.inputs
      { State.idle records with client := p.client, test := some p.test } := by
    have hlead := b.leads (r := { State.idle records with client := p.client }) rfl
      (by simp [hbegin])
    rwa [hbegin] at hlead
  have hruns : Leads { State.idle records with client := p.client, test := some p.test }
      (inputsOf rounds)
      { State.idle records with client := p.client, test := some p.test, runs := windows rounds } :=
    leads_rounds rfl p.rounds hrounds
  have hline : (front ++ b :: (rounds ++ [e])).getLast? = some e := by
    rw [← List.cons_append, ← List.append_assoc, List.getLast?_concat]
  have hrecord : p.record (front ++ b :: (rounds ++ [e])) =
      ⟨p.client, some p.test, windows rounds, e.line⟩ := by
    rw [Plan.record, hwindows, hline]
    rfl
  have hend : Leads
      { State.idle records with client := p.client, test := some p.test, runs := windows rounds }
      e.inputs (.idle (records ++ [p.record (front ++ b :: (rounds ++ [e]))])) := by
    have hlead := e.leads (r := { State.idle records with
      client := p.client, test := some p.test, runs := windows rounds }) rfl (by simp [hfinish])
    rw [hrecord]
    rwa [hfinish] at hlead
  have hinputs : inputsOf (front ++ b :: (rounds ++ [e])) =
      inputsOf front ++ (b.inputs ++ (inputsOf rounds ++ e.inputs)) := by simp
  rw [hinputs]
  exact hclient.append (htest.append (hruns.append hend))

/-- A plan that is broken off is orderly and makes no record. -/
theorem Plan.broken (p : Plan C T) (records : List (Record C T A)) {entries : List (Entry C T A)}
    (h : entries.map Entry.input <+: p.opening) :
    Orderly (.idle records) (inputsOf entries) ∧
      ((State.idle records).run (inputsOf entries)).records = records := by
  obtain ⟨missing, hmissing⟩ := h
  constructor
  · -- the missing entries would complete the test
    have hcomplete : (entries ++ (missing ++ [Input.finish]).map
        fun i => (⟨i, 0, []⟩ : Entry C T A)).map Entry.input = p.inputs := by
      rw [Plan.inputs, ← hmissing]
      simp [Function.comp_def]
    have horderly := (p.leads records hcomplete).1
    rw [inputsOf_append, orderly_append] at horderly
    exact horderly.1
  · apply State.records_run_of_not_finish
    intro i hi
    obtain ⟨e, he, hmem⟩ := List.mem_flatMap.mp hi
    rcases List.mem_cons.mp hmem with rfl | hitem
    · intro hfinish
      apply p.finish_notMem (A := A)
      rw [← hmissing, ← hfinish]
      exact List.mem_append_left _ (List.mem_map_of_mem he)
    · obtain ⟨a, -, rfl⟩ := List.mem_map.mp hitem
      exact fun hfinish => by contradiction

/-- The inputs of a plan bring no items. -/
theorem Plan.map_session {B : Type*} (p : Plan C T) (f : A → B) :
    (p.session : List (Input C T A)).map (Input.map f) = p.session := by
  have hround (notes : ℕ) : (roundInputs notes : List (Input C T A)).map (Input.map f) =
      roundInputs notes := by simp [roundInputs, Input.map]
  have hrounds : (p.rounds.flatMap roundInputs : List (Input C T A)).map (Input.map f) =
      p.rounds.flatMap roundInputs := by
    rw [List.map_flatMap]
    exact congrArg (List.flatMap · p.rounds) (funext hround)
  unfold Plan.session Plan.inputs Plan.opening
  rw [List.map_append, List.map_append, List.map_append, List.map_cons, hrounds]
  cases p.client <;> simp [Input.map]

/-- The number of inputs of a plan up to the end of its test. -/
def Plan.length (p : Plan C T) : ℕ := (p.inputs : List (Input C T Unit)).length

/-- The inputs of a plan are as many for all kinds of items. -/
theorem Plan.length_inputs (p : Plan C T) : (p.inputs : List (Input C T A)).length = p.length := by
  have hround (notes : ℕ) : (roundInputs notes : List (Input C T A)).length =
      (roundInputs notes : List (Input C T Unit)).length := by simp [roundInputs]
  unfold Plan.length Plan.inputs Plan.opening
  cases p.client <;> simp [List.length_flatMap, hround]

/-- The records of plans from entries that follow them, as far as they go. -/
def recordsOf : List (Plan C T) → List (Entry C T A) → List (Record C T A)
  | [], _ => []
  | p :: plans, entries =>
    if p.length ≤ entries.length then
      p.record (entries.take p.length) :: recordsOf plans (entries.drop (p.length + p.notes))
    else []

/-- Inputs that neither open a run nor finish a test are orderly and make no record. -/
theorem run_closing {r : State C T A} (hopen : r.isOpen = false) {entries : List (Entry C T A)}
    (h : ∀ e ∈ entries, e.input ≠ .start ∧ e.input ≠ .finish) :
    Orderly r (inputsOf entries) ∧ (r.run (inputsOf entries)).records = r.records := by
  induction entries generalizing r with
  | nil => exact ⟨trivial, rfl⟩
  | cons e entries ih =>
    obtain ⟨hstart, hfinish⟩ := h e (by simp)
    obtain ⟨hfirst, hrun⟩ := e.leads hopen hstart
    have hstep : (r.step (e.input, e.line)).isOpen = false ∧
        (r.step (e.input, e.line)).records = r.records := by
      cases hinput : e.input with
      | start => exact absurd hinput hstart
      | finish => exact absurd hinput hfinish
      | take a => simp [State.step, State.take, hopen]
      | stop => exact ⟨rfl, rfl⟩
      | announce | begin | note => exact ⟨hopen, rfl⟩
    obtain ⟨hrest, hrecords⟩ := ih hstep.1 fun e' he' => h e' (List.mem_cons_of_mem _ he')
    rw [inputsOf_cons, orderly_append, State.run_append, hrun, hrecords, hstep.2]
    exact ⟨⟨hfirst, hrest⟩, rfl⟩

/-- Entries that follow inputs, or break off before, are some that follow the first inputs and some
that follow the rest. -/
theorem split_prefix {entries : List (Entry C T A)} {front back : List (Input C T A)}
    (h : entries.map Entry.input <+: front ++ back) :
    (entries.take front.length).map Entry.input <+: front ∧
      (entries.drop front.length).map Entry.input <+: back := by
  have hfront := h.take front.length
  have hback := h.drop front.length
  rw [List.take_left, ← List.map_take] at hfront
  rw [List.drop_left, ← List.map_drop] at hback
  exact ⟨hfront, hback⟩

/-- A front that is as long as what it follows has all of it. -/
theorem map_take_eq_of_prefix {X Y : Type*} {f : X → Y} {xs : List X} {ys : List Y} {n : ℕ}
    (h : (xs.take n).map f <+: ys) (hn : ys.length = n) (hlong : n ≤ xs.length) :
    (xs.take n).map f = ys := by
  apply h.eq_of_length
  rw [hn, List.length_map, List.length_take, min_eq_left hlong]

/-- Entries that break off before the end of a plan follow its opening. -/
theorem Plan.prefix_opening (p : Plan C T) {entries : List (Entry C T A)}
    (h : entries.map Entry.input <+: p.inputs) (hshort : entries.length < p.length) :
    entries.map Entry.input <+: p.opening := by
  apply List.prefix_of_prefix_length_le h (List.prefix_append _ _)
  have hsize := p.length_inputs (A := A)
  rw [Plan.inputs, List.length_append, List.length_singleton] at hsize
  rw [List.length_map]
  omega

/-- Entries that follow plans and what closes them, or break off before, are orderly and make the
records of the plans that are complete. -/
theorem run_plans (plans : List (Plan C T)) {closing : List (Input C T A)}
    (hclosing : ∀ i ∈ closing, i ≠ .start ∧ i ≠ .finish) (records : List (Record C T A))
    {entries : List (Entry C T A)}
    (h : entries.map Entry.input <+: plans.flatMap Plan.session ++ closing) :
    Orderly (.idle records) (inputsOf entries) ∧
      ((State.idle records).run (inputsOf entries)).records =
        records ++ recordsOf plans entries := by
  induction plans generalizing records entries with
  | nil =>
    rw [recordsOf, List.append_nil]
    exact run_closing (r := State.idle records) rfl fun e he =>
      hclosing _ (h.subset (List.mem_map_of_mem he))
  | cons p plans ih =>
    rw [List.flatMap_cons, Plan.session, List.append_assoc, List.append_assoc] at h
    obtain ⟨hplan, hlater⟩ := split_prefix h
    obtain ⟨hnotes, hback⟩ := split_prefix hlater
    rw [p.length_inputs] at hplan hnotes hback
    rw [List.length_replicate] at hnotes hback
    rw [List.drop_drop] at hback
    have hinputs : inputsOf entries = inputsOf (entries.take p.length) ++
        (inputsOf ((entries.drop p.length).take p.notes) ++
          inputsOf (entries.drop (p.length + p.notes))) := by
      rw [← inputsOf_append, ← List.drop_drop, List.take_append_drop, ← inputsOf_append,
        List.take_append_drop]
    rw [recordsOf]
    by_cases hlong : p.length ≤ entries.length
    · have hwhole := map_take_eq_of_prefix hplan p.length_inputs hlong
      have hfirst := p.leads records hwhole
      have hquiet := leads_notes (r := State.idle (records ++ [p.record (entries.take p.length)]))
        rfl fun e he => List.eq_of_mem_replicate (hnotes.subset (List.mem_map_of_mem he))
      obtain ⟨hrest, hrecords⟩ := ih (records ++ [p.record (entries.take p.length)]) hback
      have hlead := hfirst.append hquiet
      rw [if_pos hlong, hinputs, ← List.append_assoc]
      constructor
      · exact (orderly_append _ _ _).mpr ⟨hlead.1, hlead.2 ▸ hrest⟩
      · rw [State.run_append, hlead.2, hrecords, List.append_assoc]
        rfl
    · have hall : entries.take p.length = entries := List.take_of_length_le (by omega)
      rw [hall] at hplan
      rw [if_neg hlong, List.append_nil]
      exact p.broken records (p.prefix_opening hplan (Nat.lt_of_not_le hlong))

/-- A record of plans has the client and the name of one of them. -/
theorem mem_recordsOf {plans : List (Plan C T)} {entries : List (Entry C T A)}
    {r : Record C T A} (h : r ∈ recordsOf plans entries) :
    ∃ p ∈ plans, r.client = p.client ∧ r.test = some p.test := by
  induction plans generalizing entries with
  | nil => exact absurd h List.not_mem_nil
  | cons p plans ih =>
    rw [recordsOf] at h
    split at h
    · rcases List.mem_cons.mp h with rfl | hrest
      · exact ⟨p, by simp, rfl, rfl⟩
      · obtain ⟨p', hp', hr⟩ := ih hrest
        exact ⟨p', List.mem_cons_of_mem _ hp', hr⟩
    · exact absurd h List.not_mem_nil

/-! ## Sequences with items at any time -/

/-- Whether an input brings an item. -/
def Input.isTake : Input C T A → Bool
  | take _ => true
  | _ => false

/-- The items in front of all inputs, and every input with the items behind it. -/
def cutItems : List (Input C T A × ℕ) → List (A × ℕ) × List (Entry C T A)
  | [] => ([], [])
  | (.take a, n) :: rest => ((a, n) :: (cutItems rest).1, (cutItems rest).2)
  | (i, n) :: rest => ([], ⟨i, n, (cutItems rest).1⟩ :: (cutItems rest).2)

/-- Cutting at the inputs loses nothing. -/
theorem inputsOf_cutItems (inputs : List (Input C T A × ℕ)) :
    itemInputs (cutItems inputs).1 ++ inputsOf (cutItems inputs).2 = inputs := by
  induction inputs with
  | nil => rfl
  | cons i rest ih =>
    obtain ⟨input, n⟩ := i
    cases input with
    | take a => exact congrArg (_ :: ·) ih
    | announce | begin | start | stop | finish | note => exact congrArg (_ :: ·) ih

/-- The inputs of the entries are those that bring no item. -/
theorem map_input_cutItems (inputs : List (Input C T A × ℕ)) :
    (cutItems inputs).2.map Entry.input =
      (inputs.map Prod.fst).filter fun i => !i.isTake := by
  induction inputs with
  | nil => rfl
  | cons i rest ih =>
    obtain ⟨input, n⟩ := i
    cases input with
    | take a => exact ih
    | announce | begin | start | stop | finish | note => exact congrArg (_ :: ·) ih

/-- Inputs that follow plans and what closes them, with items at any time, and that may break off,
are orderly and make the records of the plans that are complete. -/
theorem run_session (plans : List (Plan C T)) {closing : List (Input C T A)}
    (hclosing : ∀ i ∈ closing, i ≠ .start ∧ i ≠ .finish) {inputs : List (Input C T A × ℕ)}
    (h : (inputs.map Prod.fst).filter (fun i => !i.isTake) <+:
      plans.flatMap Plan.session ++ closing) :
    Orderly (.idle []) inputs ∧
      ((State.idle []).run inputs).records = recordsOf plans (cutItems inputs).2 := by
  rw [← map_input_cutItems] at h
  have hlead := leads_items_closed (r := (State.idle [] : State C T A)) rfl (cutItems inputs).1
  obtain ⟨horderly, hrecords⟩ := run_plans plans hclosing [] h
  have hsplit := inputsOf_cutItems inputs
  constructor
  · rw [← hsplit, orderly_append, hlead.2]
    exact ⟨hlead.1, horderly⟩
  · rw [← hsplit, State.run_append, hlead.2, hrecords, List.nil_append, hsplit]

/-- The records are as many as the tests that are finished. -/
theorem length_recordsOf (plans : List (Plan C T)) {closing : List (Input C T A)}
    (hclosing : ∀ i ∈ closing, i ≠ .start ∧ i ≠ .finish) {inputs : List (Input C T A × ℕ)}
    (h : (inputs.map Prod.fst).filter (fun i => !i.isTake) <+:
      plans.flatMap Plan.session ++ closing) :
    (recordsOf plans (cutItems inputs).2).length =
      ((inputs.map Prod.fst).filter fun i => !i.isTake).countP Input.isFinish := by
  have hother : ∀ i ∈ inputs.map Prod.fst, i.isFinish = true ↔
      (i.isFinish && !i.isTake) = true := by
    intro i _
    cases i <;> simp [Input.isFinish, Input.isTake]
  rw [← (run_session plans hclosing h).2, State.length_records_run, List.countP_filter,
    List.countP_congr hother]
  exact Nat.zero_add _

/-- A plan has an end. -/
theorem Plan.length_pos (p : Plan C T) : 0 < p.length := by
  simp [Plan.length, Plan.inputs]

/-- The number of inputs of a plan with its notes. -/
theorem Plan.length_session (p : Plan C T) :
    (p.session : List (Input C T A)).length = p.length + p.notes := by
  rw [Plan.session, List.length_append, p.length_inputs, List.length_replicate]

/-- A plan makes a record if the entries go on to its last input. -/
theorem lt_length_recordsOf_iff {plans : List (Plan C T)} {entries : List (Entry C T A)} {k : ℕ}
    {p : Plan C T} (hp : plans[k]? = some p) :
    k < (recordsOf plans entries).length ↔
      ((plans.take k).map fun p => p.length + p.notes).sum + p.length ≤ entries.length := by
  induction plans generalizing entries k with
  | nil => exact absurd hp (by simp)
  | cons first plans ih =>
    rw [recordsOf]
    cases k with
    | zero =>
      obtain rfl : first = p := by simpa using hp
      rw [List.take_zero, List.map_nil, List.sum_nil, Nat.zero_add]
      split
      · rename_i hle
        exact iff_of_true (Nat.succ_pos _) hle
      · rename_i hle
        exact iff_of_false (Nat.lt_irrefl 0) hle
    | succ k =>
      have hpos := p.length_pos
      rw [List.take_succ_cons, List.map_cons, List.sum_cons]
      split
      · rw [List.length_cons, Nat.add_lt_add_iff_right, ih hp, List.length_drop]
        omega
      · simp only [List.length_nil]
        omega

/-! ## Where the runs of a record come from -/

/-- The entries behind a record: those of the earlier plans, and then those of its own. -/
theorem recordsOf_getElem? {plans : List (Plan C T)} {closing : List (Input C T A)}
    {entries : List (Entry C T A)}
    (h : entries.map Entry.input <+: plans.flatMap Plan.session ++ closing) {k : ℕ}
    {r : Record C T A} (hr : (recordsOf plans entries)[k]? = some r) :
    ∃ p, plans[k]? = some p ∧ ∃ front block back, entries = front ++ (block ++ back) ∧
      front.map Entry.input = (plans.take k).flatMap Plan.session ∧
      block.map Entry.input = p.inputs ∧ r = p.record block := by
  induction plans generalizing entries k with
  | nil => exact absurd hr (by simp [recordsOf])
  | cons p plans ih =>
    rw [List.flatMap_cons, List.append_assoc] at h
    have hwhole := split_prefix h
    rw [Plan.session, List.append_assoc] at h
    obtain ⟨hplan, -⟩ := split_prefix h
    rw [p.length_inputs] at hplan
    rw [p.length_session] at hwhole
    rw [recordsOf] at hr
    split at hr
    · rename_i hlong
      cases k with
      | zero =>
        obtain rfl : p.record (entries.take p.length) = r := by simpa using hr
        refine ⟨p, rfl, [], entries.take p.length, entries.drop p.length, ?_, rfl, ?_, rfl⟩
        · rw [List.nil_append, List.take_append_drop]
        · exact map_take_eq_of_prefix hplan p.length_inputs hlong
      | succ k =>
        obtain ⟨p', hp', front, block, back, hsplit, hfront, hblock, hrecord⟩ := ih hwhole.2 hr
        have hlength : p.length + p.notes ≤ entries.length := by
          by_contra hshort
          rw [List.drop_of_length_le (by omega)] at hsplit
          have hblock' : block = [] := by simp_all
          simp [hblock', Plan.inputs] at hblock
        refine ⟨p', hp', entries.take (p.length + p.notes) ++ front, block, back, ?_, ?_, hblock,
          hrecord⟩
        · rw [List.append_assoc, ← hsplit, List.take_append_drop]
        · rw [List.map_append, hfront, List.take_succ_cons, List.flatMap_cons]
          apply congrArg (· ++ _)
          exact map_take_eq_of_prefix hwhole.1 p.length_session hlength
    · exact absurd hr (by simp)

/-- Between the two marks of a run there is no other input, and the runs are in the order of their
rounds. -/
theorem windows_of_rounds (rounds : List ℕ) {entries : List (Entry C T A)}
    (h : entries.map Entry.input = rounds.flatMap roundInputs) :
    (windows entries).length = rounds.length ∧
      ∀ i run, (windows entries)[i]? = some run → ∃ front e e' back,
        entries = front ++ e :: e' :: back ∧ (windows front).length = i ∧
        e.input = .start ∧ e'.input = .stop ∧ run = e.window := by
  induction rounds generalizing entries with
  | nil =>
    rw [List.flatMap_nil, List.map_eq_nil_iff] at h
    subst h
    simp [windows]
  | cons notes rounds ih =>
    rw [List.flatMap_cons] at h
    obtain ⟨round, later, rfl, hround, hlater⟩ := List.map_eq_append_iff.mp h
    obtain ⟨e, round, rfl, hstart, hround⟩ := List.map_eq_cons_iff.mp hround
    obtain ⟨e', round, rfl, hstop, hround⟩ := List.map_eq_cons_iff.mp hround
    have hnone := windows_of_notes fun n hn =>
      List.eq_of_mem_replicate (hround ▸ List.mem_map_of_mem hn)
    have hwindows (later : List (Entry C T A)) :
        windows (e :: e' :: round ++ later) = e.window :: windows later := by
      rw [windows_append, windows_cons_start hstart, windows_cons_of_ne (by simp [hstop]), hnone]
      rfl
    obtain ⟨hlength, hruns⟩ := ih hlater
    rw [hwindows]
    refine ⟨by rw [List.length_cons, List.length_cons, hlength], fun i run hrun => ?_⟩
    cases i with
    | zero =>
      obtain rfl : e.window = run := by simpa using hrun
      exact ⟨[], e, e', round ++ later, rfl, rfl, hstart, hstop, rfl⟩
    | succ i =>
      rw [List.getElem?_cons_succ] at hrun
      obtain ⟨front, f, f', back, hsplit, hi, hf⟩ := hruns i run hrun
      refine ⟨e :: e' :: round ++ front, f, f', back, by rw [hsplit]; simp, ?_, hf⟩
      rw [hwindows, List.length_cons, hi]

/-- The runs of a record are as many as the rounds of its plan and in their order, and between the
two marks of a run there is no other input. -/
theorem Plan.windows_spec (p : Plan C T) {entries : List (Entry C T A)}
    (h : entries.map Entry.input = p.inputs) :
    (windows entries).length = p.rounds.length ∧
      ∀ i run, (windows entries)[i]? = some run → ∃ front e e' back,
        entries = front ++ e :: e' :: back ∧ (windows front).length = i ∧
        e.input = .start ∧ e'.input = .stop ∧ run = e.window := by
  obtain ⟨front, b, rounds, e, rfl, hfront, hbegin, hrounds, -, hwindows⟩ := p.entries_eq h
  obtain ⟨hlength, hruns⟩ := windows_of_rounds p.rounds hrounds
  rw [hwindows]
  refine ⟨hlength, fun i run hrun => ?_⟩
  obtain ⟨before, f, f', back, hsplit, hi, hf⟩ := hruns i run hrun
  refine ⟨front ++ b :: before, f, f', back ++ [e], by rw [hsplit]; simp, ?_, hf⟩
  rw [windows_append, (leads_announcement [] p.client hfront).2,
    windows_cons_of_ne (by simp [hbegin]), List.nil_append, hi]

/-- Items are no other inputs. -/
theorem filter_itemInputs (items : List (A × ℕ)) :
    ((itemInputs items : List (Input C T A × ℕ)).map Prod.fst).filter (fun i => !i.isTake) =
      [] := by
  rw [List.filter_eq_nil_iff]
  intro i hi
  obtain ⟨j, hj, rfl⟩ := List.mem_map.mp hi
  obtain ⟨a, -, rfl⟩ := List.mem_map.mp hj
  simp [Input.isTake]

/-- The inputs of entries without their items. -/
theorem filter_inputsOf {entries : List (Entry C T A)}
    (h : ∀ e ∈ entries, e.input.isTake = false) :
    ((inputsOf entries).map Prod.fst).filter (fun i => !i.isTake) = entries.map Entry.input := by
  induction entries with
  | nil => rfl
  | cons e entries ih =>
    rw [inputsOf_cons, List.map_append, List.filter_append,
      ih fun e' he' => h e' (List.mem_cons_of_mem _ he'), Entry.inputs, List.map_cons,
      List.filter_cons_of_pos (by simp [h e]), filter_itemInputs]
    rfl

/-- Nothing of a plan in front of its last input finishes its test. -/
theorem Plan.countP_isFinish_front (p : Plan C T) {front back : List (Entry C T A)}
    {e : Entry C T A} (h : (front ++ e :: back).map Entry.input = p.inputs) :
    (front.map Entry.input).countP Input.isFinish = 0 := by
  have hopening : front.map Entry.input <+: p.opening := by
    have hinputs : front.map Entry.input <+: p.inputs := by
      rw [← h, List.map_append]
      exact List.prefix_append _ _
    apply List.prefix_of_prefix_length_le hinputs (List.prefix_append _ _)
    have hlength := congrArg List.length h
    rw [Plan.inputs] at hlength
    simp only [List.length_map, List.length_append, List.length_cons, List.length_nil] at hlength ⊢
    omega
  rw [List.countP_eq_zero]
  intro i hi hfinish
  apply p.finish_notMem (A := A)
  have hmem := hopening.subset hi
  cases i with
  | finish => exact hmem
  | announce | begin | start | stop | take | note => exact absurd hfinish Bool.false_ne_true

/-- A plan finishes one test. -/
theorem Plan.countP_isFinish_session (p : Plan C T) :
    (p.session : List (Input C T A)).countP Input.isFinish = 1 := by
  have hopening : (p.opening : List (Input C T A)).countP Input.isFinish = 0 := by
    rw [List.countP_eq_zero]
    intro i hi hfinish
    cases i with
    | finish => exact p.finish_notMem hi
    | announce | begin | start | stop | take | note => exact absurd hfinish Bool.false_ne_true
  rw [Plan.session, Plan.inputs, List.append_assoc, List.countP_append, hopening]
  simp only [List.cons_append, List.nil_append, List.countP_cons, List.countP_replicate]
  rfl

/-- The number of runs of a test that is not finished. -/
def Input.countRun (n : ℕ) : Input C T A → ℕ
  | start => n + 1
  | finish => 0
  | _ => n

/-- While no test is finished its runs are counted. -/
theorem foldl_countRun_of_not_finish (n : ℕ) {inputs : List (Input C T A)}
    (h : inputs.countP Input.isFinish = 0) :
    inputs.foldl Input.countRun n = n + inputs.countP Input.isStart := by
  induction inputs generalizing n with
  | nil => rfl
  | cons i inputs ih =>
    rw [List.countP_cons] at h
    rw [List.foldl_cons, ih _ (Nat.eq_zero_of_add_eq_zero_right h), List.countP_cons]
    cases i with
    | finish => simp [Input.isFinish] at h
    | start => simp [Input.countRun, Input.isStart]; omega
    | announce | begin | stop | take | note => simp [Input.countRun, Input.isStart]

/-- Behind a plan the runs are counted anew. -/
theorem Plan.foldl_countRun_session (p : Plan C T) (n : ℕ) :
    (p.session : List (Input C T A)).foldl Input.countRun n = 0 := by
  have hnotes : (List.replicate p.notes (.note : Input C T A)).foldl Input.countRun 0 = 0 := by
    rw [foldl_countRun_of_not_finish] <;>
      simp [List.countP_replicate, Input.isFinish, Input.isStart]
  rw [Plan.session, Plan.inputs, List.append_assoc, List.foldl_append]
  exact hnotes

/-- Behind plans the runs are counted anew. -/
theorem foldl_countRun_plans (plans : List (Plan C T)) :
    (plans.flatMap Plan.session : List (Input C T A)).foldl Input.countRun 0 = 0 := by
  induction plans with
  | nil => rfl
  | cons p plans ih => rw [List.flatMap_cons, List.foldl_append, p.foldl_countRun_session, ih]

/-- Plans finish as many tests as they are. -/
theorem countP_isFinish_plans (plans : List (Plan C T)) :
    (plans.flatMap Plan.session : List (Input C T A)).countP Input.isFinish = plans.length := by
  induction plans with
  | nil => rfl
  | cons p plans ih =>
    rw [List.flatMap_cons, List.countP_append, p.countP_isFinish_session, ih, List.length_cons,
      Nat.add_comm]

/-- What stands between two entries that follow each other, and what inputs stand in front. -/
theorem cutItems_adjacent {inputs : List (Input C T A × ℕ)} {front back : List (Entry C T A)}
    {e e' : Entry C T A} (h : (cutItems inputs).2 = front ++ e :: e' :: back) :
    ∃ before after, inputs = before ++ (e.input, e.line) ::
      (itemInputs e.items ++ (e'.input, e'.line) :: after) ∧
      (before.map Prod.fst).filter (fun i => !i.isTake) = front.map Entry.input := by
  have hnone : ∀ f ∈ front, f.input.isTake = false := by
    intro f hf
    have hmem : f.input ∈ (cutItems inputs).2.map Entry.input := by
      rw [h]
      exact List.mem_map_of_mem (List.mem_append_left _ hf)
    rw [map_input_cutItems, List.mem_filter] at hmem
    simpa using hmem.2
  refine ⟨itemInputs (cutItems inputs).1 ++ inputsOf front,
    itemInputs e'.items ++ inputsOf back, ?_, ?_⟩
  · conv_lhs => rw [← inputsOf_cutItems inputs, h]
    simp [Entry.inputs]
  · rw [List.map_append, List.filter_append, filter_itemInputs, filter_inputsOf hnone,
      List.nil_append]

/-- The positions of the entries are in the order of the positions of the inputs. -/
theorem map_line_cutItems (inputs : List (Input C T A × ℕ)) :
    ((cutItems inputs).2.map Entry.line).Sublist (inputs.map Prod.snd) := by
  induction inputs with
  | nil => exact List.Sublist.refl []
  | cons i rest ih =>
    obtain ⟨input, n⟩ := i
    cases input with
    | take a => exact ih.cons n
    | announce | begin | start | stop | finish | note => exact ih.cons_cons n

/-- The positions of the runs are in the order of those of the entries. -/
theorem map_start_windows (entries : List (Entry C T A)) :
    ((windows entries).map Run.start).Sublist (entries.map Entry.line) := by
  induction entries with
  | nil => exact List.Sublist.refl []
  | cons e entries ih =>
    by_cases hstart : e.input = .start
    · rw [windows_cons_start hstart]
      exact ih.cons_cons e.line
    · rw [windows_cons_of_ne hstart]
      exact ih.cons e.line

end Recording
