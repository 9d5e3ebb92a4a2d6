import FlukeTesting.Drivers.Sessions

/-!
# What a run holds

In the reports on the log of a driver, every test has its first 128 runs in their order. A run holds
exactly the readings of the log between the mark of its beginning and the mark of its end, and no
other message stands between these.
-/

namespace FlukeTesting.Drivers

open Statstool

section

variable {K : Type*} [Field K]

variable {ctx : Context K}

section

variable {origin : K} {l : Line} {n : ℕ}

/-- A line whose action opens a run is a mark of its beginning. -/
theorem Line.said_of_start (h : l.input ctx origin n = .start) :
    ∃ mark, l.said = .tag (.testRunBegin mark) := by
  unfold Line.input at h
  cases hsaid : l.said with
  | sample reading => simp [hsaid, Said.action, Recording.Input.map] at h
  | tag m => cases m <;> simp [hsaid, Said.action, Message.action, Recording.Input.map] at h ⊢

/-- A line whose action closes a run is a mark of its end. -/
theorem Line.said_of_stop (h : l.input ctx origin n = .stop) :
    ∃ mark, l.said = .tag (.testRunEnd mark) := by
  unfold Line.input at h
  cases hsaid : l.said with
  | sample reading => simp [hsaid, Said.action, Recording.Input.map] at h
  | tag m => cases m <;> simp [hsaid, Said.action, Message.action, Recording.Input.map] at h ⊢

/-- The point of a reading on its position: its time since the origin, and its scaled value. -/
def Line.Reads (ctx : Context K) (origin : K) (l : Line) (n : ℕ) (p : Point K) : Prop :=
  ∃ reading, l.said = .sample reading ∧
    p = ⟨textStamp ctx n l.toStampedLine.logLine.body - origin,
      sampleValue reading.text * ctx.scaleBy, n⟩

/-- A line whose action brings a point is a reading of it. -/
theorem Line.reads_of_take {p : Point K} (h : l.input ctx origin n = .take p) :
    l.Reads ctx origin n p := by
  unfold Line.input at h
  cases hsaid : l.said with
  | sample reading =>
    rw [hsaid] at h
    exact ⟨reading, hsaid, (Recording.Input.take.inj h).symm⟩
  | tag m => cases m <;> simp [hsaid, Said.action, Message.action, Recording.Input.map] at h

end

/-- The number of tests that ended. -/
def endedTests (messages : List Message) : ℕ :=
  (messages.map Message.action).countP Recording.Input.isFinish

/-- The number of runs that began since the last test ended. -/
def begunRuns (messages : List Message) : ℕ :=
  (messages.map Message.action).foldl Recording.Input.countRun 0

/-- A run holds what was measured in a run of a test, both counted from 0: it was opened by the mark
of its beginning, the next message is the mark of its end, and its points are the readings in
between. -/
def Measured (ctx : Context K) (log : List Line) (k i : ℕ) (slot : Slot K) : Prop :=
  ∃ front l readings l' back, log = front ++ l :: (readings ++ l' :: back) ∧
    endedTests (logMessages front) = k ∧ begunRuns (logMessages front) = i ∧
    (∃ mark, l.said = .tag (.testRunBegin mark)) ∧
    (∃ mark, l'.said = .tag (.testRunEnd mark)) ∧
    slot.openedAt = front.length ∧
    List.Forall₂ (fun (m : Line × ℕ) p =>
      m.1.Reads ctx (logOrigin ctx (log.map Line.actionLine)) m.2 p)
      (readings.zipIdx (front.length + 1)) slot.points

/-- The ends of tests among messages are those among their actions. -/
theorem countP_lineInputs (ctx : Context K) (origin : K) (first : ℕ) (log : List Line) :
    (((lineInputs ctx origin first log).map Prod.fst).filter fun i => !i.isTake).countP
      Recording.Input.isFinish = endedTests (logMessages log) := by
  rw [filter_lineInputs ctx origin first log fun _ => ⟨0, 0, 0⟩, endedTests, List.countP_map,
    List.countP_map]
  apply List.countP_congr
  intro m _
  cases m <;> exact Iff.rfl

/-- The runs that began among messages are those of their actions. -/
theorem foldl_countRun_lineInputs (ctx : Context K) (origin : K) (first : ℕ) (log : List Line) :
    (((lineInputs ctx origin first log).map Prod.fst).filter fun i => !i.isTake).foldl
      Recording.Input.countRun 0 = begunRuns (logMessages log) := by
  rw [filter_lineInputs ctx origin first log fun _ => ⟨0, 0, 0⟩, begunRuns, List.foldl_map,
    List.foldl_map]
  apply List.foldl_ext
  intro n m _
  cases m <;> rfl

/-- The positions of lines grow. -/
theorem pairwise_lineInputs (ctx : Context K) (origin : K) (first : ℕ) (log : List Line) :
    ((lineInputs ctx origin first log).map Prod.snd).Pairwise (· < ·) := by
  rw [lineInputs, List.map_map]
  change ((log.zipIdx first).map Prod.snd).Pairwise (· < ·)
  rw [List.zipIdx_map_snd]
  exact List.pairwise_lt_range'

variable [LinearOrder K]

/-- A run was opened where it starts. -/
theorem openedAt_ofRun (run : Collect.Run (Point K)) :
    (Slot.ofRun run).openedAt = run.start := congrArg Collect.Run.start (Slot.run_ofRun run)

/-- The run between two marks that follow each other holds what was measured. -/
theorem measured_of_adjacent {log : List Line}
    {e e' : Recording.Entry Client TestName (Point K)}
    {front back : List (Recording.Entry Client TestName (Point K))}
    (h : logEntries ctx log = front ++ e :: e' :: back) (hstart : e.input = .start)
    (hstop : e'.input = .stop) :
    Measured ctx log ((front.map Recording.Entry.input).countP Recording.Input.isFinish)
      ((front.map Recording.Entry.input).foldl Recording.Input.countRun 0)
      (Slot.ofRun e.window) := by
  obtain ⟨before, after, hinputs, hbefore⟩ := Recording.cutItems_adjacent h
  rw [logActions_eq] at hinputs
  obtain ⟨lines, rest, hlog, rfl, hrest⟩ := lineInputs_eq_append hinputs
  obtain ⟨l, rest, rfl, hl, hline, hrest⟩ := lineInputs_eq_cons hrest
  obtain ⟨readings, rest, rfl, hitems, hrest⟩ := lineInputs_eq_append hrest
  obtain ⟨l', rest, rfl, hl', -, -⟩ := lineInputs_eq_cons hrest
  rw [Nat.zero_add] at hline hitems
  rw [hstart] at hl
  rw [hstop] at hl'
  refine ⟨lines, l, readings, l', rest, hlog, ?_, ?_, Line.said_of_start hl,
    Line.said_of_stop hl', ?_, ?_⟩
  · rw [← hbefore, countP_lineInputs]
  · rw [← hbefore, foldl_countRun_lineInputs]
  · exact (openedAt_ofRun e.window).trans hline.symm
  · rw [Slot.points_ofRun, Recording.Entry.window]
    have hpairs : List.Forall₂ (fun (m : Line × ℕ) (q : Point K × ℕ) =>
        (m.1.input ctx (logOrigin ctx (log.map Line.actionLine)) m.2, m.2) = (.take q.1, q.2))
        (readings.zipIdx (lines.length + 1)) e.items := by
      have heq := List.forall₂_eq_eq_eq ▸ hitems
      rwa [lineInputs, Recording.itemInputs, List.forall₂_map_left_iff,
        List.forall₂_map_right_iff] at heq
    rw [List.forall₂_map_right_iff]
    exact hpairs.imp fun m q hq => Line.reads_of_take (Prod.mk.inj hq).1

/-- The report of a test, counted from 0: it has the first 128 runs of the test, the `i`-th of them
with what was measured in the `i`-th run. -/
structure Reported (ctx : Context K) (log : List Line) (k : ℕ) (script : Script) (r : Report K) :
    Prop where
  file : r.file = if ctx.opts.extractResults then
      script.client.map fun machine => Test.file ⟨machine.toClient, script.title.toTestName⟩
    else none
  runs : r.runs.length = min maxTestRuns script.iterations.length
  order : (r.runs.map Slot.openedAt).Pairwise (· < ·)
  measured : ∀ i slot, r.runs[i]? = some slot → Measured ctx log k i slot
  analysis : r.analysis = dataAnalyse ctx.opts ctx.env.sqrt r.runs

/-- The records of a driver make the reports of its tests. -/
theorem Driver.reported {d : Driver} {log : List Line} (hlog : logMessages log <+: d.messages)
    {k : ℕ} {record : Recording.Record Client TestName (Point K)}
    (hrecord : (Recording.recordsOf d.plans (logEntries ctx log))[k]? = some record) :
    ∃ script, d.scripts[k]? = some script ∧
      Reported ctx log k script (recordReport ctx record) := by
  have hprefix := d.filter_prefix ctx hlog
  rw [← Recording.map_input_cutItems] at hprefix
  obtain ⟨p, hp, front, block, back, hsplit, hfront, hblock, rfl⟩ :=
    Recording.recordsOf_getElem? hprefix hrecord
  rw [Driver.plans, List.getElem?_map] at hp
  obtain ⟨script, hscript, rfl⟩ := Option.map_eq_some_iff.mp hp
  obtain ⟨hlength, hruns⟩ := script.plan.windows_spec hblock
  have hslots : (recordReport ctx (script.plan.record block)).runs =
      ((Recording.windows block).take maxTestRuns).map Slot.ofRun := rfl
  have horder : ((Recording.windows block).map Collect.Run.start).Pairwise (· < ·) := by
    have hlines := pairwise_lineInputs ctx (logOrigin ctx (log.map Line.actionLine)) 0 log
    rw [← logActions_eq] at hlines
    apply List.Pairwise.sublist _ hlines
    apply (Recording.map_start_windows block).trans
    apply List.Sublist.trans _ (Recording.map_line_cutItems (logActions ctx log))
    apply List.Sublist.map
    rw [hsplit]
    exact (List.sublist_append_left block back).trans (List.sublist_append_right front _)
  have hearlier : (front.map Recording.Entry.input).countP Recording.Input.isFinish = k := by
    have hk : k ≤ d.plans.length := by
      rw [Driver.plans, List.length_map]
      exact (List.getElem?_eq_some_iff.mp hscript).1.le
    rw [hfront, Recording.countP_isFinish_plans, List.length_take, min_eq_left hk]
  refine ⟨script, hscript, ?_, ?_, ?_, ?_, rfl⟩
  · cases hclient : script.client <;>
      simp [recordReport, Recording.Plan.record, Script.plan, hclient]
  · rw [hslots, List.length_map, List.length_take, hlength]
    exact congrArg (min maxTestRuns) (List.length_map _)
  · have hopened : Slot.openedAt ∘ Slot.ofRun = (Collect.Run.start : Collect.Run (Point K) → ℕ) :=
      funext openedAt_ofRun
    rw [hslots, List.map_map, hopened, List.map_take]
    exact horder.sublist (List.take_sublist _ _)
  · intro i slot hslot
    rw [hslots, List.getElem?_map] at hslot
    obtain ⟨run, hrun, rfl⟩ := Option.map_eq_some_iff.mp hslot
    have hwindow : (Recording.windows block)[i]? = some run := by
      rw [List.getElem?_take] at hrun
      split at hrun
      · exact hrun
      · contradiction
    obtain ⟨before, e, e', after, hrounds, hi, hstart, hstop, rfl⟩ := hruns i run hwindow
    have hadjacent : logEntries ctx log = (front ++ before) ++ e :: e' :: (after ++ back) := by
      rw [logEntries, hsplit, hrounds]
      simp
    have hmeasured := measured_of_adjacent hadjacent hstart hstop
    rw [hrounds] at hblock
    have hnone := script.plan.countP_isFinish_front hblock
    rwa [List.map_append, List.countP_append, hearlier, hnone, Nat.add_zero, List.foldl_append,
      hfront, Recording.foldl_countRun_plans, Recording.foldl_countRun_of_not_finish _ hnone,
      ← Recording.length_windows, hi, Nat.zero_add] at hmeasured

variable [IsStrictOrderedRing K]

/-- Whatever readings the log of a driver holds, and wherever it breaks off, the parser goes on to
its end, and its reports are those of the tests whose messages are complete. -/
theorem dataParse_reported (ctx : Context K) (junk : Buffer) (d : Driver) (log : List Line)
    (hlog : logMessages log <+: d.messages) (hauto : ctx.opts.statsAllSamples = false)
    (hcalloc : ∀ n, ctx.env.calloc n = true) (hwritten : ∀ n, ctx.written n = true)
    (hannounced : ctx.opts.extractResults = true → d.Announces) :
    ∃ s, dataParse ctx junk (logFile (plainLines log)) = .next s ∧
      s.reports.length = (Recording.recordsOf d.plans (logEntries ctx log)).length ∧
      ∀ k r, s.reports[k]? = some r →
        ∃ script, d.scripts[k]? = some script ∧ Reported ctx log k script r := by
  obtain ⟨s, hs, hreports⟩ := dataParse_driver ctx junk d log hlog hauto hcalloc hannounced
  rw [Driver.reports, recordReports, List.filter_eq_self.mpr fun r _ => hwritten r.line] at hreports
  refine ⟨s, hs, by rw [hreports, List.length_map], fun k r hr => ?_⟩
  rw [hreports, List.getElem?_map] at hr
  obtain ⟨record, hrecord, rfl⟩ := Option.map_eq_some_iff.mp hr
  exact Driver.reported hlog hrecord

/-- Whatever readings the log of a driver holds, and wherever it breaks off, the parser goes on to
its end, and its reports are those of the tests that ended in it, in their order, each with the
first 128 runs of its test. This is without `-a`, while memory lasts and files can be created, and
under `-x` for the drivers that announce every test. -/
theorem driver_reports (ctx : Context K) (junk : Buffer) (d : Driver) (log : List Line)
    (hlog : logMessages log <+: d.messages) (hauto : ctx.opts.statsAllSamples = false)
    (hcalloc : ∀ n, ctx.env.calloc n = true) (hwritten : ∀ n, ctx.written n = true)
    (hannounced : ctx.opts.extractResults = true → d.Announces) :
    ∃ s, dataParse ctx junk (logFile (plainLines log)) = .next s ∧
      s.reports.length = endedTests (logMessages log) ∧
      ∀ k r, s.reports[k]? = some r →
        ∃ script, d.scripts[k]? = some script ∧ Reported ctx log k script r := by
  obtain ⟨s, hs, hlength, hreports⟩ :=
    dataParse_reported ctx junk d log hlog hauto hcalloc hwritten hannounced
  refine ⟨s, hs, ?_, hreports⟩
  rw [hlength, logEntries,
    Recording.length_recordsOf d.plans d.closing_inputs (d.filter_prefix ctx hlog), logActions_eq,
    countP_lineInputs]

end

/-- The stamp of a second of a minute. -/
def stampAt (second : Fin 60) : Stamp :=
  { startOfFebruary with
    second := second
    second_lt := second.isLt }

/-- A line of the log in a second of a minute. -/
def lineAt (second : Fin 60) (said : Said)
    (blank : said.text.head?.all Scanf.isSpace = true := by decide +kernel)
    (noNul : NUL ∉ (stampAt second).line said.text := by decide +kernel)
    (noNewline : '\n' ∉ (stampAt second).line said.text := by decide +kernel)
    (fits : ((stampAt second).line said.text).length + 1 < bufferSize := by decide +kernel) :
    Line where
  stamp := stampAt second
  rest := said.text
  blank c hc := by rwa [Option.mem_def.mp hc] at blank
  noNul := noNul
  noNewline := noNewline
  fits := fits
  said := said
  rest_eq := rfl

/-- A reading of the meter in amperes. -/
def readingOf (text : String)
    (noTag : ¬ tagKeyword <:+: sampleKeyword ++ text.toList := by decide +kernel) : Reading :=
  ⟨text.toList, noTag⟩

/-- A laptop. -/
def laptop : Machine where
  toClient := Statstool.laptop
  plain := by decide +kernel
  fits := by decide +kernel

/-- The log of one iteration of the idle test, with readings in front of, in and behind its run. -/
def idleLog : List Line := [
  lineAt 0 (.tag (.testClient laptop)),
  lineAt 1 (.tag (.testBegin idleTitle)),
  lineAt 2 (.sample (readingOf " 0.75")),
  lineAt 3 (.tag (.testRunBegin (.named idleTitle.payload))),
  lineAt 4 (.sample (readingOf " 0.5")),
  lineAt 5 (.sample (readingOf " 0.25")),
  lineAt 6 (.tag (.testRunEnd (.named idleTitle.payload))),
  lineAt 7 (.sample (readingOf " 0.75")),
  lineAt 8 (.tag (.testEnd idleTitle.payload))]

/-- The log of the idle test breaks off in front of `TEST_QUIT`. -/
theorem idleLog_prefix : logMessages idleLog <+: (idle laptop 1).messages :=
  ⟨testQuit, rfl⟩

/-- The idle test is reported, also under `-x`. -/
theorem idleLog_reports : ∃ s : State ℚ,
    dataParse extracting zeroBuffer (logFile (plainLines idleLog)) = .next s ∧
      s.reports.length = endedTests (logMessages idleLog) ∧
      ∀ k r, s.reports[k]? = some r →
        ∃ script, (idle laptop 1).scripts[k]? = some script ∧
          Reported extracting idleLog k script r :=
  driver_reports extracting zeroBuffer (idle laptop 1) idleLog idleLog_prefix rfl
    (fun _ => rfl) (fun _ => rfl) (fun _ => (Announcing.idle 1).announces)

end FlukeTesting.Drivers
