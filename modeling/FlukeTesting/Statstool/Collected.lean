import FlukeTesting.Lib.Collect
import FlukeTesting.Statstool.Events

/-!
# The run array refines the abstract collector

The parser keeps its runs in a fixed array with an index and an open flag. As an abstract
collector it holds the list of the runs in the slots `0..index`. Every event that goes on
moves the collector by the mark of the event, the initialised slots are exactly the collected
ones, and an out-of-range index is reached only by a sample that finds the open flag set and
no run.
-/

namespace FlukeTesting.Statstool

open Imperative Collect

/-- Reading all positions of a list in order gives the list. -/
theorem mapM_range_eq {A : Type*} (read : ℕ → Option A) (values : List A)
    (h : ∀ i < values.length, read i = values[i]?) :
    (List.range values.length).mapM read = some values := by
  induction values using List.reverseRecOn with
  | nil => rfl
  | append_singleton values a ih =>
    have hfront : ∀ i < values.length, read i = values[i]? := by
      intro i hi
      rw [h i (by simp; omega), List.getElem?_append_left hi]
    have hlast : read values.length = some a := by
      rw [h values.length (by simp), List.getElem?_concat_length]
    rw [List.length_append, List.length_singleton, List.range_succ, List.mapM_append, ih hfront]
    simp [hlast]

/-- Appending a value changes no position but the new one. -/
theorem getElem?_concat_of_ne {A : Type*} (values : List A) (a : A) {i : ℕ}
    (h : i ≠ values.length) : (values ++ [a])[i]? = values[i]? := by
  rcases Nat.lt_or_gt_of_ne h with hlt | hgt
  · rw [List.getElem?_append_left hlt]
  · rw [List.getElem?_eq_none (by simp; omega), List.getElem?_eq_none (by omega)]

/-- An array that holds a list, updated just behind it, holds the extended list. -/
theorem update_concat {A B : Type*} {n : ℕ} (f : A → B) (data : Fin n → Option B)
    (values : List A) (a : A) (h : values.length < n)
    (hdata : ∀ i : Fin n, i.val ≠ values.length → data i = values[i.val]?.map f) (i : Fin n) :
    Function.update data ⟨values.length, h⟩ (some (f a)) i = (values ++ [a])[i.val]?.map f := by
  by_cases hi : i = ⟨values.length, h⟩
  · subst hi
    simp
  · have hne : i.val ≠ values.length := fun heq => hi (Fin.ext heq)
    rw [Function.update_of_ne hi, hdata i hne, getElem?_concat_of_ne values a hne]

section

variable {K : Type*}

/-- The report in an output, if it is one. -/
def Output.report? : Output K → Option (Report K)
  | .report r => some r
  | _ => none

/-- The calls of `data_analyse` so far. -/
def State.reports (s : State K) : List (Report K) := s.out.filterMap Output.report?

@[simp] theorem State.reports_emit_stdout (s : State K) (pieces : List (Piece K)) :
    (s.emit (.stdout pieces)).reports = s.reports := by
  simp [State.reports, State.emit, Output.report?]

@[simp] theorem State.reports_emit_stderr (s : State K) (pieces : List (Piece K)) :
    (s.emit (.stderr pieces)).reports = s.reports := by
  simp [State.reports, State.emit, Output.report?]

@[simp] theorem State.reports_emit_report (s : State K) (r : Report K) :
    (s.emit (.report r)).reports = s.reports ++ [r] := by
  simp [State.reports, State.emit, Output.report?]

/-- What the end of a test leaves of the state. -/
def State.ended (s : State K) : State K :=
  { s with
    testBegin := false, data := fun _ => none, hostname := [], kernel := [], test := [], index := -1 }

@[simp] theorem State.reports_ended (s : State K) : s.ended.reports = s.reports := rfl

variable [Field K]

/-- The collector that the options ask for. -/
def collector (ctx : Context K) : Config := ⟨maxTestRuns, ctx.opts.statsAllSamples⟩

/-- Whether the end of a test on a line is reported: a report to a file needs the file. -/
def Context.written (ctx : Context K) (line : ℕ) : Bool :=
  !ctx.opts.extractResults || ctx.env.fopen line

/-- The report at the end of a test, on the given runs. -/
def State.endReport (ctx : Context K) (line : ℕ) (runs : List (Slot K)) (s : State K) : Report K :=
  let arch := s.arch.getD .unknown
  { file := if ctx.opts.extractResults then some (reportName s.hostname s.kernel s.test arch)
      else none
    heading := if ctx.opts.extractResults then reportHeading s.hostname s.kernel arch s.test
      else []
    runs, line, analysis := dataAnalyse ctx.opts ctx.env.sqrt runs }

/-- The report of an open run behind the read loop, on the given runs. -/
def openReport (ctx : Context K) (line : ℕ) (runs : List (Slot K)) : Report K :=
  { file := none, heading := [], runs, line,
    analysis := dataAnalyse ctx.opts ctx.env.sqrt runs }

/-- The mark of an event for a time origin. -/
def Event.mark (ctx : Context K) (origin : K) : Event K × ℕ → Mark (Point K)
  | (.testEnd, line) => .flush (ctx.written line)
  | (.testRunBegin, _) => .start
  | (.testRunEnd, _) => .stop
  | (.sample sec text, line) => .item ⟨sec - origin, sampleValue text * ctx.scaleBy, line⟩
  | _ => .other

/-- With a known architecture, a report under `-x` goes to the named file. -/
theorem writeReport_extract (ctx : Context K) (line : ℕ) (s : State K) (arch : Arch)
    (hx : ctx.opts.extractResults = true) (harch : s.arch = some arch) :
    writeReport ctx line s =
      if ctx.env.fopen line then
        analyseTo ctx line (some (reportName s.hostname s.kernel s.test arch))
          (reportHeading s.hostname s.kernel arch s.test) s
      else .next (s.emit (.stderr [lit "Cannot create ",
        .str (reportName s.hostname s.kernel s.test arch), lit "\n"])) := by
  unfold writeReport
  rw [if_pos hx]
  split
  · rename_i hnone
    rw [hnone] at harch
    contradiction
  · rename_i a ha
    rw [ha, Option.some.injEq] at harch
    rw [harch]

variable [LinearOrder K]

/-- The slot that a collected run fills. -/
def Slot.ofRun (r : Run (Point K)) : Slot K := r.items.foldl Slot.store (.fresh r.start)

/-- The initialised slots are `0..index` and hold the given runs. -/
structure Holds (s : State K) (runs : List (Run (Point K))) : Prop where
  index : s.index = runs.length - 1
  room : runs.length ≤ maxTestRuns
  data : ∀ i : Fin maxTestRuns, s.data i = runs[i.val]?.map Slot.ofRun

/-- The parser state and the abstract collector hold the same runs and made the same reports. -/
structure Represents (s : State K) (c : Collect.State (Point K)) : Prop extends
    Holds s c.runs where
  isOpen : s.testRunBegin = c.isOpen
  reports : (s.reports.map fun r => (r.line, r.runs)) =
    c.reports.map fun (n, runs) => (n, runs.map Slot.ofRun)

/-- The parser starts with nothing collected. -/
theorem represents_initial : Represents (.initial : State K) .empty where
  index := rfl
  room := Nat.zero_le _
  data _ := rfl
  isOpen := rfl
  reports := rfl

namespace Holds

variable {s : State K} {runs : List (Run (Point K))}

/-- The slots depend on the index and the array alone. -/
theorem congr {t : State K} (h : Holds s runs) (hindex : t.index = s.index)
    (hdata : t.data = s.data) : Holds t runs where
  index := hindex.trans h.index
  room := h.room
  data i := by rw [hdata, h.data]

/-- The argument `index+1` is the number of collected runs. -/
theorem count_eq (h : Holds s runs) : s.count = runs.length := by
  rw [State.count, h.index]
  omega

/-- Every slot handed to `data_analyse` is initialised. -/
theorem slots_eq (h : Holds s runs) : s.slots s.count = some (runs.map Slot.ofRun) := by
  have hlen : (runs.map Slot.ofRun).length = runs.length := List.length_map _
  rw [State.slots, h.count_eq, ← hlen]
  apply mapM_range_eq _ _
  intro i hi
  rw [hlen] at hi
  rw [dif_pos (hi.trans_le h.room), h.data, List.getElem?_map]

/-- `data_analyse` is called on the collected runs. -/
theorem analyseTo_eq (h : Holds s runs) (ctx : Context K) (line : ℕ) (file : Option Text)
    (heading : List (Piece K)) :
    analyseTo ctx line file heading s = .next (s.emit (.report
      { file, heading, runs := runs.map Slot.ofRun, line,
        analysis := dataAnalyse ctx.opts ctx.env.sqrt (runs.map Slot.ofRun) })) := by
  unfold analyseTo
  rw [h.slots_eq]

/-- `data_free` releases all initialised slots. -/
theorem dataFree_eq (h : Holds s runs) : dataFree s = .next { s with data := fun _ => none } := by
  have hdata : (fun i : Fin maxTestRuns => if i.val < s.count then none else s.data i) =
      fun _ => none := by
    funext i
    split
    · rfl
    · rename_i hi
      rw [h.count_eq] at hi
      rw [h.data, List.getElem?_eq_none (by omega), Option.map_none]
  unfold dataFree
  rw [h.slots_eq]
  simp only [hdata]

end Holds

namespace Represents

variable {s : State K} {c : Collect.State (Point K)}

/-- The representation depends on the run array, the open flag and the reports alone. -/
theorem congr {t : State K} (h : Represents s c) (hindex : t.index = s.index)
    (hdata : t.data = s.data) (hopen : t.testRunBegin = s.testRunBegin)
    (hreports : t.reports = s.reports) : Represents t c where
  toHolds := h.toHolds.congr hindex hdata
  isOpen := hopen.trans h.isOpen
  reports := by rw [hreports, h.reports]

/-- Printing the text of a tag leaves the runs alone. -/
theorem announce (h : Represents s c) (ctx : Context K) (tagged plain : String) (arg : Text) :
    Represents (announce ctx tagged plain arg s) c := by
  unfold Statstool.announce
  split
  · exact h
  · exact h.congr rfl rfl rfl (by simp)

/-- `test_run_begin` is the start mark. -/
theorem testRunBegin_eq (h : Represents s c) (ctx : Context K) (line : ℕ) :
    ∃ t, testRunBegin line s = .next t ∧ Represents t (c.start (collector ctx) line) := by
  have hindex : s.index + 1 = c.runs.length := by
    rw [h.index]
    omega
  unfold testRunBegin
  simp only [hindex]
  by_cases hroom : c.runs.length < maxTestRuns
  · have hle : ¬ (maxTestRuns : ℤ) ≤ c.runs.length := by exact_mod_cast hroom.not_ge
    rw [if_neg hle, slotAt_natCast c.runs.length hroom]
    refine ⟨_, rfl, ?_⟩
    have hstart : c.start (collector ctx) line =
        { c with runs := c.runs ++ [⟨line, []⟩], isOpen := true } := if_pos hroom
    rw [hstart]
    refine ⟨⟨by simp, by simpa using Nat.succ_le_of_lt hroom, fun i => ?_⟩, rfl, h.reports⟩
    exact update_concat Slot.ofRun s.data c.runs ⟨line, []⟩ hroom (fun i _ => h.data i) i
  · have hle : (maxTestRuns : ℤ) ≤ c.runs.length := by exact_mod_cast Nat.le_of_not_lt hroom
    rw [if_pos hle]
    refine ⟨_, rfl, ?_⟩
    have hstart : c.start (collector ctx) line = c := if_neg hroom
    rw [hstart]
    exact h.congr rfl rfl rfl (by simp)

/-- Storing a point in the open run appends it to the last collected run. Without one, the
index is -1 and the store leaves the array. -/
theorem storePoint_cases (h : Represents s c) (hopen : c.isOpen = true) (ctx : Context K)
    (p : Point K) :
    (ctx.env.calloc p.line = false ∧ ∃ t, storePoint ctx p s = .stop t ∧ Represents t c) ∨
    (ctx.env.calloc p.line = true ∧ c.runs = [] ∧
      storePoint ctx p s = .fault .slotIndex s) ∨
    (ctx.env.calloc p.line = true ∧ c.runs ≠ [] ∧
      ∃ t, storePoint ctx p s = .next t ∧ Represents t (c.put p)) := by
  unfold storePoint
  cases hcalloc : ctx.env.calloc p.line with
  | false => exact Or.inl ⟨rfl, _, rfl, h.congr rfl rfl rfl (by simp)⟩
  | true =>
    apply Or.inr
    rcases List.eq_nil_or_concat c.runs with hnil | ⟨runs, r, hruns⟩
    · have hslot : slotAt s.index = none := by
        unfold slotAt
        rw [h.index, hnil, dif_neg (by simp)]
      exact Or.inl ⟨rfl, hnil, by simp [hslot]⟩
    · rw [List.concat_eq_append] at hruns
      have hlt : runs.length < maxTestRuns := by
        have := h.room
        rw [hruns, List.length_append, List.length_singleton] at this
        omega
      have hslot : slotAt s.index = some ⟨runs.length, hlt⟩ := by
        rw [h.index, hruns]
        simpa using slotAt_natCast runs.length hlt
      have hdata : s.data ⟨runs.length, hlt⟩ = some (Slot.ofRun r) := by
        rw [h.data, hruns]
        simp
      refine Or.inr ⟨rfl, by simp [hruns], ?_⟩
      simp only [if_true, hslot, hdata]
      refine ⟨_, rfl, ?_⟩
      have hput : c.put p = { c with runs := runs ++ [{ r with items := r.items ++ [p] }] } := by
        rw [Collect.State.put, if_pos hopen, hruns, addLast_concat]
      rw [hput]
      refine ⟨⟨by simp [h.index, hruns], by simpa using Nat.succ_le_of_lt hlt, fun i => ?_⟩,
        h.isOpen, h.reports⟩
      have hstore : (Slot.ofRun r).store p = Slot.ofRun { r with items := r.items ++ [p] } := by
        simp [Slot.ofRun]
      rw [hstore]
      refine update_concat Slot.ofRun s.data runs _ hlt (fun j hj => ?_) i
      rw [h.data, hruns, getElem?_concat_of_ne runs r hj]

/-- The `SAMPLE` handler appends to the open run, after opening one under `-a` if none is.
It leaves the loop without memory and leaves the array if the flag is set without a run. -/
theorem sample_cases (h : Represents s c) (ctx : Context K) (line : ℕ) (sec : K) (text : Text) :
    let p : Point K := ⟨sec, sampleValue text * ctx.scaleBy, line⟩
    let d := if (collector ctx).auto && !c.isOpen then c.start (collector ctx) line else c
    (d.isOpen = true ∧ ctx.env.calloc line = false ∧
      ∃ t, sample ctx line sec text s = .stop t ∧ Represents t d) ∨
    (d.isOpen = true ∧ ctx.env.calloc line = true ∧ d.runs = [] ∧
      ∃ t, sample ctx line sec text s = .fault .slotIndex t ∧ Represents t d) ∨
    ((d.isOpen = true → ctx.env.calloc line = true ∧ d.runs ≠ []) ∧
      ∃ t, sample ctx line sec text s = .next t ∧ Represents t (d.put p)) := by
  intro p d
  obtain ⟨t, ht, hd⟩ : ∃ t, (if ctx.opts.statsAllSamples && !s.testRunBegin then
      testRunBegin line s else .next s) = .next t ∧ Represents t d := by
    have hcond : (ctx.opts.statsAllSamples && !s.testRunBegin) =
        ((collector ctx).auto && !c.isOpen) := by rw [h.isOpen]; rfl
    rw [hcond]
    by_cases hauto : ((collector ctx).auto && !c.isOpen) = true
    · simpa only [d, if_pos hauto] using h.testRunBegin_eq ctx line
    · exact ⟨s, if_neg hauto, by simpa only [d, if_neg hauto] using h⟩
  have hsample : sample ctx line sec text s =
      if t.testRunBegin then storePoint ctx p t else .next t := by
    rw [sample, ht]
    rfl
  rw [hsample, hd.isOpen]
  cases hopen : d.isOpen with
  | false => exact Or.inr (Or.inr ⟨by simp, t, rfl, by simpa [Collect.State.put, hopen] using hd⟩)
  | true =>
    rcases hd.storePoint_cases hopen ctx p with
      ⟨hcalloc, u, hu, hdu⟩ | ⟨hcalloc, hnil, hu⟩ | ⟨hcalloc, hruns, u, hu, hdu⟩
    · exact Or.inl ⟨rfl, hcalloc, u, hu, hdu⟩
    · exact Or.inr (Or.inl ⟨rfl, hcalloc, hnil, t, hu, hd⟩)
    · exact Or.inr (Or.inr ⟨fun _ => ⟨hcalloc, hruns⟩, u, hu, hdu⟩)

/-- The `TEST_END` handler reports the collected runs and forgets runs, client and test, but
neither the architecture nor the open flag. -/
theorem testEnd_cases (h : Represents s c) (ctx : Context K) (line : ℕ) :
    (ctx.opts.extractResults = true ∧ s.arch = none ∧
      testEnd ctx line s = .fault .archUninitialised { s with testBegin := false }) ∨
    ((ctx.opts.extractResults = true → s.arch ≠ none) ∧ ctx.written line = true ∧
      testEnd ctx line s = .next
        (s.emit (.report (s.endReport ctx line (c.runs.map Slot.ofRun)))).ended) ∨
    ((ctx.opts.extractResults = true → s.arch ≠ none) ∧ ctx.written line = false ∧
      ∃ pieces, testEnd ctx line s = .next (s.emit (.stderr pieces)).ended) := by
  have hbegin : Holds { s with testBegin := false } c.runs := h.toHolds.congr rfl rfl
  have hend (o : Output K) :
      (Outcome.next (({ s with testBegin := false } : State K).emit o)).bind (fun s =>
        (dataFree s).bind fun s => .next
          { s with hostname := [], kernel := [], test := [], index := -1 }) =
        (.next (s.emit o).ended : Outcome Fault (State K)) := by
    have hholds : Holds (({ s with testBegin := false } : State K).emit o) c.runs :=
      h.toHolds.congr rfl rfl
    rw [Outcome.next_bind, hholds.dataFree_eq]
    rfl
  unfold testEnd
  cases hx : ctx.opts.extractResults with
  | false =>
    refine Or.inr (Or.inl ⟨by simp, by simp [Context.written, hx], ?_⟩)
    simp only [writeReport, hx, Bool.false_eq_true, if_false, hbegin.analyseTo_eq, hend]
    simp [State.endReport, hx]
  | true =>
    rcases Option.eq_none_or_eq_some s.arch with harch | ⟨arch, harch⟩
    · exact Or.inl ⟨rfl, harch, by simp [writeReport, hx, harch]⟩
    · rw [writeReport_extract ctx line { s with testBegin := false } arch hx harch]
      apply Or.inr
      cases hf : ctx.env.fopen line with
      | false =>
        refine Or.inr ⟨by simp [harch], by simp [Context.written, hx, hf], ?_⟩
        rw [if_neg Bool.false_ne_true]
        exact ⟨_, hend _⟩
      | true =>
        refine Or.inl ⟨by simp [harch], by simp [Context.written, hf], ?_⟩
        rw [if_pos rfl, hbegin.analyseTo_eq, hend]
        simp [State.endReport, hx, harch]

/-- What follows the read loop reports an open run under `-a`, and does nothing else. -/
theorem finish_eq (h : Represents s c) (ctx : Context K) (line : ℕ) :
    finish ctx line s = .next (if ctx.opts.statsAllSamples && s.testRunBegin then
      ({ s with testRunBegin := false } : State K).emit
        (.report (openReport ctx line (c.runs.map Slot.ofRun))) else s) := by
  unfold finish
  split
  · have hholds : Holds { s with testRunBegin := false } c.runs := h.toHolds.congr rfl rfl
    rw [testRunEnd, Outcome.next_bind, hholds.analyseTo_eq]
    rfl
  · rfl

/-- An event either goes on and moves the collector by its mark, or ends the loop without
making a report. -/
theorem exec_cases (h : Represents s c) (ctx : Context K) (e : Event K × ℕ) :
    (∃ t, Event.exec ctx e s = .next t ∧
      Represents t (c.step (collector ctx) (Event.mark ctx s.startSecs e, e.2))) ∨
    ((∀ t, Event.exec ctx e s ≠ .next t) ∧
      ∃ d, Represents (Event.exec ctx e s).state d ∧ d.reports = c.reports) := by
  obtain ⟨event, line⟩ := e
  cases event with
  | unstrippable => exact Or.inr ⟨by simp [Event.exec], c, h, rfl⟩
  | time sec =>
    refine Or.inl ⟨_, rfl, ?_⟩
    unfold State.originate
    split
    · exact h.congr rfl rfl rfl rfl
    · exact h
  | testClient arg =>
    have hprint := h.announce ctx "info:client:" "Client: " arg
    simp only [Event.exec, Statstool.testClient]
    split
    · exact Or.inl ⟨_, rfl, hprint.congr rfl rfl rfl rfl⟩
    · exact Or.inr ⟨by simp, c, hprint, rfl⟩
  | testBegin arg =>
    have hprint := h.announce ctx "info:test-name:" "Test:   " arg
    simp only [Event.exec, Statstool.testBegin]
    split
    · exact Or.inl ⟨_, rfl, hprint.congr rfl rfl rfl rfl⟩
    · exact Or.inr ⟨by simp, c, hprint, rfl⟩
  | testEnd =>
    have hended (o : Output K) : Holds (s.emit o).ended [] := ⟨rfl, Nat.zero_le _, fun _ => rfl⟩
    rcases h.testEnd_cases ctx line with ⟨-, -, heq⟩ | ⟨-, hw, heq⟩ | ⟨-, hw, pieces, heq⟩
    · have hd : Represents { s with testBegin := false } c := h.congr rfl rfl rfl rfl
      exact Or.inr ⟨by simp [Event.exec, heq], c, by rw [Event.exec, heq]; exact hd, rfl⟩
    · refine Or.inl ⟨_, heq, ?_⟩
      simp only [Event.mark, Collect.State.step, hw]
      exact ⟨hended _, h.isOpen, by simp [h.reports, State.endReport]⟩
    · refine Or.inl ⟨_, heq, ?_⟩
      simp only [Event.mark, Collect.State.step, hw]
      exact ⟨hended _, h.isOpen, by simp [h.reports]⟩
  | testRunBegin => exact Or.inl (h.testRunBegin_eq ctx line)
  | testRunEnd => exact Or.inl ⟨_, rfl, h.toHolds.congr rfl rfl, rfl, h.reports⟩
  | sample sec text =>
    have hreports : (if (collector ctx).auto && !c.isOpen then c.start (collector ctx) line
        else c).reports = c.reports := by
      split
      · unfold Collect.State.start
        split <;> rfl
      · rfl
    rcases h.sample_cases ctx line (sec - s.startSecs) text with
      ⟨-, -, t, ht, hd⟩ | ⟨-, -, -, t, ht, hd⟩ | ⟨-, t, ht, hd⟩
    · exact Or.inr ⟨by simp [Event.exec, ht], _, by simpa [Event.exec, ht] using hd, hreports⟩
    · exact Or.inr ⟨by simp [Event.exec, ht], _, by simpa [Event.exec, ht] using hd, hreports⟩
    · exact Or.inl ⟨t, ht, hd⟩

/-- An event that goes on moves the collector by its mark. -/
theorem exec_next (h : Represents s c) {ctx : Context K} {e : Event K × ℕ} {t : State K}
    (hnext : Event.exec ctx e s = .next t) :
    Represents t (c.step (collector ctx) (Event.mark ctx s.startSecs e, e.2)) := by
  rcases h.exec_cases ctx e with ⟨u, hu, hd⟩ | ⟨hne, -⟩
  · rw [hnext, Outcome.next.injEq] at hu
    rwa [hu]
  · exact absurd hnext (hne t)

/-- An event that ends the loop leaves the runs of some collector and makes no report. -/
theorem exec_exit (h : Represents s c) {ctx : Context K} {e : Event K × ℕ}
    (hexit : ∀ t, Event.exec ctx e s ≠ .next t) :
    ∃ d, Represents (Event.exec ctx e s).state d ∧ d.reports = c.reports := by
  rcases h.exec_cases ctx e with ⟨t, ht, -⟩ | ⟨-, hd⟩
  · exact absurd ht (hexit t)
  · exact hd

end Represents

/-! ## Whole logs -/

/-- The time origin after an event. -/
def Event.origin (origin : K) : Event K × ℕ → K
  | (.time sec, _) => if origin < 0 then sec else origin
  | _ => origin

/-- The marks of a sequence of events from a time origin on. -/
def marks (ctx : Context K) : K → List (Event K × ℕ) → List (Mark (Point K) × ℕ)
  | _, [] => []
  | origin, e :: rest => (Event.mark ctx origin e, e.2) :: marks ctx (Event.origin origin e) rest

/-- Every event moves the time origin as its mark does. -/
theorem exec_origin (ctx : Context K) (e : Event K × ℕ) (s t : State K)
    (h : Event.exec ctx e s = .next t) : t.startSecs = Event.origin s.startSecs e := by
  have hkeep (sec : K) (handler : Handler) (he : e = (handler.event sec, e.2)) :
      t.startSecs = s.startSecs := by
    have := handler.exec_origin ctx e.2 sec s
    rwa [← he, h] at this
  obtain ⟨event, line⟩ := e
  cases event with
  | unstrippable => simp [Event.exec] at h
  | time sec =>
    simp only [Event.exec, Outcome.next.injEq] at h
    subst h
    unfold State.originate Event.origin
    split <;> rfl
  | testClient arg => exact hkeep 0 (.testClient arg) rfl
  | testBegin arg => exact hkeep 0 (.testBegin arg) rfl
  | testEnd => exact hkeep 0 .testEnd rfl
  | testRunBegin => exact hkeep 0 .testRunBegin rfl
  | testRunEnd => exact hkeep 0 .testRunEnd rfl
  | sample sec text => exact hkeep sec (.sample text) rfl

/-- A sequence of events that all go on moves the collector by its marks. -/
theorem forEach_represents {s t : State K} {c : Collect.State (Point K)} (h : Represents s c)
    (ctx : Context K) (events : List (Event K × ℕ))
    (hnext : forEach (Event.exec ctx) events s = .next t) :
    Represents t (c.run (collector ctx) (marks ctx s.startSecs events)) := by
  induction events generalizing s c with
  | nil =>
    rw [forEach_nil, Outcome.next.injEq] at hnext
    rwa [← hnext]
  | cons e rest ih =>
    obtain ⟨u, hu, ht⟩ := Outcome.bind_eq_next_iff.mp hnext
    rw [marks, State.run_cons, ← exec_origin ctx e s u hu]
    exact ih (h.exec_next hu) ht

end

end FlukeTesting.Statstool
