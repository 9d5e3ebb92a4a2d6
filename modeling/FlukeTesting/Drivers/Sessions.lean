import FlukeTesting.Drivers.Scripts

/-!
# From the driver to the reports

A log holds the messages of a driver in their order, and readings at any time between them. The
parser reports exactly the tests of the driver that ended in the log, each under its own name and
with the first 128 of its runs, and a run holds the readings between its two marks. It does not
matter where the readings fall, how many there are, and where the log breaks off.
-/

namespace FlukeTesting.Drivers

open Statstool Imperative

section

variable {K : Type*} [Field K]

/-- The lines of a log with messages, without their meaning. -/
def plainLines (log : List Line) : List LogLine := log.map fun l => l.toStampedLine.logLine

/-- The actions of a log, its readings at times since its first line. -/
def logActions (ctx : Context K) (log : List Line) :
    List (Recording.Input Client TestName (Point K) × ℕ) :=
  actionInputs ctx (logOrigin ctx (log.map Line.actionLine)) (log.map Line.actionLine)

/-- The messages of a log, each with the readings behind it. -/
def logEntries (ctx : Context K) (log : List Line) :
    List (Recording.Entry Client TestName (Point K)) := (Recording.cutItems (logActions ctx log)).2

/-- What a line on its position is for. -/
def Line.input (ctx : Context K) (origin : K) (l : Line) (n : ℕ) :
    Recording.Input Client TestName (Point K) :=
  l.said.action.map fun text =>
    ⟨textStamp ctx n l.toStampedLine.logLine.body - origin, sampleValue text * ctx.scaleBy, n⟩

/-- What the lines of a log are for, from a position on. -/
def lineInputs (ctx : Context K) (origin : K) (first : ℕ) (log : List Line) :
    List (Recording.Input Client TestName (Point K) × ℕ) :=
  (log.zipIdx first).map fun (l, n) => (l.input ctx origin n, n)

/-- What a line and the lines behind it are for. -/
theorem lineInputs_cons (ctx : Context K) (origin : K) (first : ℕ) (l : Line) (log : List Line) :
    lineInputs ctx origin first (l :: log) =
      (l.input ctx origin first, first) :: lineInputs ctx origin (first + 1) log := rfl

/-- What two logs are for one behind the other. -/
theorem lineInputs_append (ctx : Context K) (origin : K) (first : ℕ) (front back : List Line) :
    lineInputs ctx origin first (front ++ back) = lineInputs ctx origin first front ++
      lineInputs ctx origin (first + front.length) back := by
  rw [lineInputs, List.zipIdx_append, List.map_append]
  rfl

/-- What lines in two parts are for comes in two parts. -/
theorem lineInputs_eq_append {ctx : Context K} {origin : K} {first : ℕ} {log : List Line}
    {front back : List (Recording.Input Client TestName (Point K) × ℕ)}
    (h : lineInputs ctx origin first log = front ++ back) :
    ∃ lines rest, log = lines ++ rest ∧ lineInputs ctx origin first lines = front ∧
      lineInputs ctx origin (first + lines.length) rest = back := by
  obtain ⟨before, after, hzip, rfl, rfl⟩ := List.map_eq_append_iff.mp h
  obtain ⟨lines, rest, rfl, rfl, rfl⟩ := List.zipIdx_eq_append_iff.mp hzip
  exact ⟨lines, rest, rfl, rfl, rfl⟩

/-- What a line and more lines are for. -/
theorem lineInputs_eq_cons {ctx : Context K} {origin : K} {first n : ℕ} {log : List Line}
    {i : Recording.Input Client TestName (Point K)}
    {back : List (Recording.Input Client TestName (Point K) × ℕ)}
    (h : lineInputs ctx origin first log = (i, n) :: back) :
    ∃ l rest, log = l :: rest ∧ l.input ctx origin first = i ∧ first = n ∧
      lineInputs ctx origin (first + 1) rest = back := by
  obtain ⟨p, after, hzip, hp, rfl⟩ := List.map_eq_cons_iff.mp h
  obtain ⟨l, rest, rfl, rfl, rfl⟩ := List.zipIdx_eq_cons_iff.mp hzip
  exact ⟨l, rest, rfl, congrArg Prod.fst hp, congrArg Prod.snd hp, rfl⟩

/-- The actions of a log are those of its lines. -/
theorem logActions_eq (ctx : Context K) (log : List Line) : logActions ctx log =
    lineInputs ctx (logOrigin ctx (log.map Line.actionLine)) 0 log := by
  rw [logActions, actionInputs, List.zipIdx_map, List.map_map]
  rfl

/-- What lines are for without their readings is what their messages are for. -/
theorem filter_lineInputs (ctx : Context K) (origin : K) (first : ℕ) (log : List Line)
    (f : Text → Point K) :
    ((lineInputs ctx origin first log).map Prod.fst).filter (fun i => !i.isTake) =
      (logMessages log).map fun m => m.action.map f := by
  unfold lineInputs
  induction log generalizing first with
  | nil => rfl
  | cons l log ih =>
    rw [List.zipIdx_cons, List.map_cons, List.map_cons, List.filter_cons, logMessages,
      List.filterMap_cons]
    change (if (!(l.said.action.map _).isTake) = true then l.said.action.map _ :: _ else _) = _
    cases hsaid : l.said with
    | sample reading => exact ih (first + 1)
    | tag m =>
      have hkeep (g : Text → Point K) : m.action.map g = m.action.map f := by cases m <;> rfl
      have hnot : (!(m.action.map f).isTake) = true := by cases m <;> rfl
      rw [Said.action, hkeep, if_pos hnot, List.map_cons]
      exact congrArg (_ :: ·) (ih (first + 1))

omit [Field K] in
/-- What a driver sends behind its tests neither opens a run nor finishes a test. -/
theorem Driver.closing_inputs (d : Driver) {f : Text → Point K} :
    ∀ i ∈ (d.closing.map Message.action).map (Recording.Input.map f), i ≠ .start ∧ i ≠ .finish := by
  intro i hi
  obtain ⟨a, ha, rfl⟩ := List.mem_map.mp hi
  obtain ⟨m, hm, rfl⟩ := List.mem_map.mp ha
  have hmild := d.closing_mild m hm
  cases hm : m.action with
  | start => exact absurd hm hmild.1
  | finish => exact absurd hm hmild.2
  | announce | begin | stop | take | note => simp [Recording.Input.map]

/-- Every message of a log has its entry. -/
theorem length_logEntries (ctx : Context K) (log : List Line) :
    (logEntries ctx log).length = (logMessages log).length := by
  have hinputs := congrArg List.length (Recording.map_input_cutItems (logActions ctx log))
  rwa [logActions_eq, filter_lineInputs ctx _ 0 log fun _ => ⟨0, 0, 0⟩, List.length_map,
    List.length_map, ← logActions_eq] at hinputs

/-- The messages of a log of a driver are the first inputs of its plans. -/
theorem Driver.filter_prefix (ctx : Context K) (d : Driver) {log : List Line}
    (hlog : logMessages log <+: d.messages) :
    ((logActions ctx log).map Prod.fst).filter (fun i => !i.isTake) <+:
      d.plans.flatMap Recording.Plan.session ++
        (d.closing.map Message.action).map (Recording.Input.map fun _ => ⟨0, 0, 0⟩) := by
  have hall : (d.messages.map fun m => m.action.map fun _ => (⟨0, 0, 0⟩ : Point K)) =
      d.plans.flatMap Recording.Plan.session ++
        (d.closing.map Message.action).map (Recording.Input.map fun _ => ⟨0, 0, 0⟩) := by
    have hplans :=
      congrArg (List.map (Recording.Input.map fun _ => (⟨0, 0, 0⟩ : Point K))) d.actions
    rw [List.map_map, List.map_append, List.map_flatMap] at hplans
    rw [← funext fun p : Recording.Plan Client TestName =>
      p.map_session (A := Text) fun _ => (⟨0, 0, 0⟩ : Point K)]
    exact hplans
  rw [logActions_eq, filter_lineInputs ctx _ 0 log fun _ => ⟨0, 0, 0⟩, ← hall]
  exact hlog.map _

variable [LinearOrder K]

/-- The reports that a driver is owed for what a log holds of its messages. -/
def Driver.reports (ctx : Context K) (d : Driver) (log : List Line) : List (Report K) :=
  recordReports ctx (Recording.recordsOf d.plans (logEntries ctx log))

variable [IsStrictOrderedRing K]

/-- The time origin of a log is not negative. -/
theorem logOrigin_nonneg (ctx : Context K) (log : List Line) :
    0 ≤ logOrigin ctx (log.map Line.actionLine) := by
  cases log with
  | nil => exact le_rfl
  | cons l log => exact textStamp_nonneg ctx 0 l.toStampedLine

/-- On an orderly log the parser goes on to its end and reports what is recorded. -/
theorem dataParse_log (ctx : Context K) (junk : Buffer) {log : List Line}
    (hauto : ctx.opts.statsAllSamples = false) (hcalloc : ∀ n, ctx.env.calloc n = true)
    (horderly : Recording.Orderly (.idle []) (logActions ctx log))
    (hnamed : Named ctx ((Recording.State.idle []).run (logActions ctx log)).records) :
    ∃ s, dataParse ctx junk (logFile (plainLines log)) = .next s ∧ s.reports =
      recordReports ctx ((Recording.State.idle []).run (logActions ctx log)).records := by
  obtain ⟨s, hs, hreports⟩ := dataParse_records ctx junk (log.map Line.actionLine) hauto hcalloc
    (logOrigin_nonneg ctx log) horderly hnamed
  have hlines : (log.map Line.actionLine).map ActionLine.toLogLine = plainLines log := by
    rw [List.map_map]
    rfl
  rw [hlines] at hs
  exact ⟨s, hs, hreports⟩

/-- Whatever readings the log of a driver holds, and wherever it breaks off, the parser reports the
tests that ended in it. -/
theorem dataParse_driver (ctx : Context K) (junk : Buffer) (d : Driver) (log : List Line)
    (hlog : logMessages log <+: d.messages) (hauto : ctx.opts.statsAllSamples = false)
    (hcalloc : ∀ n, ctx.env.calloc n = true)
    (hannounced : ctx.opts.extractResults = true → d.Announces) :
    ∃ s, dataParse ctx junk (logFile (plainLines log)) = .next s ∧
      s.reports = d.reports ctx log := by
  obtain ⟨horderly, hrecords⟩ :=
    Recording.run_session d.plans d.closing_inputs (d.filter_prefix ctx hlog)
  have hnamed : Named ctx (((Recording.State.idle []).run (logActions ctx log)).records) := by
    intro hx r hr
    rw [hrecords] at hr
    obtain ⟨p, hp, hclient, htest⟩ := Recording.mem_recordsOf hr
    obtain ⟨script, hscript, rfl⟩ := List.mem_map.mp hp
    rw [hclient, htest]
    exact ⟨by simp [Script.plan, hannounced hx script hscript], rfl⟩
  obtain ⟨s, hs, hreports⟩ := dataParse_log ctx junk hauto hcalloc horderly hnamed
  exact ⟨s, hs, by rw [hreports, hrecords]; rfl⟩

end

end FlukeTesting.Drivers
