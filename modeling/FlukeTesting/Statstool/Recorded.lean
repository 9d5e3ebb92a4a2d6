import FlukeTesting.Lib.Recorder
import FlukeTesting.Statstool.Bounds
import FlukeTesting.Statstool.Extraction
import FlukeTesting.Statstool.SampleTimes

/-!
# The parser refines the recorder

A line of a log announces a client, begins or ends a test or one of its runs, brings a sample or
means nothing. On an orderly log of such lines the parser goes on to the end of the file, and its
reports are the records of the tests: one for every test that ends, with the client and the first
word of the name that were announced for it, and with the first 128 runs.

The log may hold any number of tests with any number of runs and samples, and the samples may
arrive at any time.
-/

namespace FlukeTesting.Statstool

open Imperative Collect Scanf

/-- What a line of a log does. -/
abbrev Action := Recording.Input Client TestName Text

/-- The handlers of an action. -/
def Action.handlers : Action → List Handler
  | .announce client => [.testClient client.arg]
  | .begin test => [.testBegin test.text]
  | .start => [.testRunBegin]
  | .stop => [.testRunEnd]
  | .finish => [.testEnd]
  | .take text => [.sample text]
  | .note => []

/-- The words of a client fit into their destinations. -/
def Client.Fits (client : Client) : Prop :=
  client.hostname.length < nameSize ∧ client.kernel.length < nameSize ∧
    client.machine.length < machineSize

instance (client : Client) : Decidable client.Fits := inferInstanceAs (Decidable (_ ∧ _ ∧ _))

/-- The words that an action copies fit into their destinations. -/
def Action.Fits : Action → Prop
  | .announce client => client.Fits
  | .begin test => test.firstWord.length < nameSize
  | _ => True

/-- A line of a log whose handlers are those of one action with words that fit. -/
structure ActionLine extends LogLine where
  action : Action
  handlers_eq : handlersOf (textAt body) = Action.handlers action
  fits' : Action.Fits action
  size_ge : 27 ≤ toLogLine.size

section

variable {K : Type*} [Field K]

/-- The action of a line on its position, with the time of a sample since the given origin. -/
def ActionLine.input (ctx : Context K) (origin : K) (l : ActionLine) (n : ℕ) :
    Recording.Input Client TestName (Point K) :=
  l.action.map fun text =>
    ⟨textStamp ctx n l.body - origin, sampleValue text * ctx.scaleBy, n⟩

/-- The actions of a log with their positions. -/
def actionInputs (ctx : Context K) (origin : K) (log : List ActionLine) :
    List (Recording.Input Client TestName (Point K) × ℕ) :=
  log.zipIdx.map fun (l, n) => (l.input ctx origin n, n)

variable [LinearOrder K]

/-- The report of a recorded test: under `-x` it goes to the file of the test. -/
def recordReport (ctx : Context K) (r : Recording.Record Client TestName (Point K)) : Report K where
  file := if ctx.opts.extractResults then
      r.client.bind fun client => r.test.map fun name => Test.file ⟨client, name⟩
    else none
  heading := if ctx.opts.extractResults then
      (r.client.bind fun client => r.test.map fun name =>
        reportHeading client.hostname client.kernel client.arch name.firstWord).getD []
    else []
  runs := (r.runs.take maxTestRuns).map Slot.ofRun
  analysis := dataAnalyse ctx.opts ctx.env.sqrt ((r.runs.take maxTestRuns).map Slot.ofRun)
  line := r.line

/-- The reports of recorded tests; one whose file cannot be created has none. -/
def recordReports (ctx : Context K) (records : List (Recording.Record Client TestName (Point K))) :
    List (Report K) :=
  (records.filter fun r => ctx.written r.line).map (recordReport ctx)

/-- The state of the parser holds what the recorder has. -/
structure Follows (ctx : Context K) (s : State K)
    (r : Recording.State Client TestName (Point K)) : Prop where
  collects : ∃ c, Represents s c ∧ Recording.Bounded maxTestRuns c r
  names : NamesFit s
  client : ∀ client ∈ r.client, s.client = (client.hostname, client.kernel, some client.arch)
  test : ∀ test ∈ r.test, s.test = test.firstWord
  reports : s.reports = recordReports ctx r.records

/-- The parser starts between two tests, whatever the time origin. -/
theorem follows_initial (ctx : Context K) (origin : K) :
    Follows ctx { State.initial with startSecs := origin } (.idle []) where
  collects := ⟨.empty, represents_initial.congr rfl rfl rfl rfl, rfl, rfl⟩
  names := ⟨by simp [State.initial, nameSize], by simp [State.initial, nameSize],
    by simp [State.initial, nameSize]⟩
  client := by simp [Recording.State.idle]
  test := by simp [Recording.State.idle]
  reports := rfl

/-- Under `-x`, a test that ends was announced with its client and its name. -/
def NamedEnd (ctx : Context K) (r : Recording.State Client TestName (Point K))
    (input : Recording.Input Client TestName (Point K)) : Prop :=
  ctx.opts.extractResults = true → input = .finish → r.client.isSome = true ∧ r.test.isSome = true

variable {ctx : Context K} {s : State K} {r : Recording.State Client TestName (Point K)}

/-- The report at the end of a test that was announced is that of its record. -/
theorem Follows.endReport_eq (h : Follows ctx s r) (hnamed : NamedEnd ctx r .finish) (n : ℕ) :
    s.endReport ctx n ((r.runs.take maxTestRuns).map Slot.ofRun) =
      recordReport ctx ⟨r.client, r.test, r.runs, n⟩ := by
  unfold State.endReport recordReport
  cases hx : ctx.opts.extractResults with
  | false => rfl
  | true =>
    obtain ⟨hclient, htest⟩ := hnamed hx rfl
    obtain ⟨client, hclient⟩ := Option.isSome_iff_exists.mp hclient
    obtain ⟨test, htest⟩ := Option.isSome_iff_exists.mp htest
    have hs := h.client client hclient
    simp only [State.client, Prod.mk.injEq] at hs
    simp [hclient, htest, hs, h.test test htest, Test.file]

/-- The end of a test makes its record. -/
theorem Follows.testEnd (h : Follows ctx s r) (hopen : r.isOpen = false)
    (hnamed : NamedEnd ctx r .finish) (n : ℕ) :
    ∃ t, Statstool.testEnd ctx n s = .next t ∧ t.startSecs = s.startSecs ∧
      Follows ctx t (r.step (.finish, n)) := by
  obtain ⟨c, hc, hbounded⟩ := h.collects
  have harch (hx : ctx.opts.extractResults = true) : s.arch ≠ none := by
    obtain ⟨client, hclient⟩ := Option.isSome_iff_exists.mp (hnamed hx rfl).1
    have hs := congrArg (·.2.2) (h.client client hclient)
    simp only [State.client] at hs
    simp [hs]
  have hended {o : Output K} {reports : List (Report K)}
      (heq : Statstool.testEnd ctx n s = .next (s.emit o).ended)
      (hreports : (s.emit o).reports = reports)
      (hrecords : reports = recordReports ctx (r.step (.finish, n)).records) :
      ∃ t, Statstool.testEnd ctx n s = .next t ∧ t.startSecs = s.startSecs ∧
        Follows ctx t (r.step (.finish, n)) := by
    refine ⟨_, heq, rfl, ?_⟩
    have hexec : Event.exec ctx (.testEnd, n) s = .next (s.emit o).ended := heq
    have hnext := hc.exec_next hexec
    exact {
      collects := ⟨_, hnext, by
        refine ⟨rfl, ?_⟩
        change c.isOpen = _
        rw [hbounded.isOpen, hopen]
        rfl⟩
      names := ⟨by simp [State.ended, nameSize], by simp [State.ended, nameSize],
        by simp [State.ended, nameSize]⟩
      client := by simp [Recording.State.step, Recording.State.idle]
      test := by simp [Recording.State.step, Recording.State.idle]
      reports := by rw [State.reports_ended, hreports, hrecords] }
  have hreport := h.endReport_eq hnamed n
  rw [← hbounded.runs] at hreport
  rcases hc.testEnd_cases ctx n with ⟨hx, hnone, -⟩ | ⟨-, hw, heq⟩ | ⟨-, hw, pieces, heq⟩
  · exact absurd hnone (harch hx)
  · apply hended heq rfl
    rw [State.reports_emit_report, hreport, h.reports]
    simp [recordReports, Recording.State.step, Recording.State.idle, hw]
  · apply hended heq rfl
    rw [State.reports_emit_stderr, h.reports]
    simp [recordReports, Recording.State.step, Recording.State.idle, hw]

/-- An event that is not the end of a test and touches no name keeps what the parser knows about the
test. -/
theorem Follows.of_exec (h : Follows ctx s r) {e : Event K × ℕ} {t : State K}
    (hnext : Event.exec ctx e s = .next t) (hend : e.1 ≠ .testEnd)
    {r' : Recording.State Client TestName (Point K)}
    (hbounded : ∀ c, Recording.Bounded maxTestRuns c r →
      Recording.Bounded maxTestRuns
        (c.step (collector ctx) (Event.mark ctx s.startSecs e, e.2)) r')
    (hnames : NamesFit t)
    (hclient : ∀ client ∈ r'.client, t.client = (client.hostname, client.kernel, some client.arch))
    (htest : ∀ test ∈ r'.test, t.test = test.firstWord) (hrecords : r'.records = r.records) :
    Follows ctx t r' where
  collects := by
    obtain ⟨c, hc, hbound⟩ := h.collects
    exact ⟨_, hc.exec_next hnext, hbounded c hbound⟩
  names := hnames
  client := hclient
  test := htest
  reports := by
    have hsame := exec_reports ctx e s hend
    rw [hnext] at hsame
    rw [hrecords, ← h.reports]
    exact hsame

/-- An announced client is known. -/
theorem Follows.announce (h : Follows ctx s r) {client : Client} (hfits : client.Fits) (n : ℕ) :
    ∃ t, Statstool.testClient ctx n client.arg s = .next t ∧ t.startSecs = s.startSecs ∧
      Follows ctx t (r.step (.announce client, n)) := by
  have hprint := announce_identity ctx "info:client:" "Client: " client.arg s
  have hnames := h.names.announce ctx "info:client:" "Client: " client.arg
  simp only [State.identity, Prod.mk.injEq] at hprint
  have heq : Statstool.testClient ctx n client.arg s = .next
      { Statstool.announce ctx "info:client:" "Client: " client.arg s with
        hostname := client.hostname, kernel := client.kernel, arch := some client.arch } := by
    simp only [Statstool.testClient, client.clientWords_arg]
    exact if_pos hfits
  refine ⟨_, heq, hprint.2.2.2.2, ?_⟩
  apply h.of_exec (e := (.testClient client.arg, n)) heq (by simp)
  · exact fun c hc => ⟨hc.runs, hc.isOpen⟩
  · exact ⟨hfits.1, hfits.2.1, hnames.test⟩
  · intro c hc
    obtain rfl : client = c := Option.some.inj hc
    rfl
  · intro test htest
    exact hprint.2.2.1.trans (h.test test htest)
  · rfl

/-- A test that begins is known by the first word of its name. -/
theorem Follows.begin (h : Follows ctx s r) {test : TestName}
    (hfits : test.firstWord.length < nameSize) (n : ℕ) :
    ∃ t, Statstool.testBegin ctx test.text s = .next t ∧ t.startSecs = s.startSecs ∧
      Follows ctx t (r.step (.begin test, n)) := by
  have hprint := announce_identity ctx "info:test-name:" "Test:   " test.text s
  have hnames := h.names.announce ctx "info:test-name:" "Test:   " test.text
  simp only [State.identity, Prod.mk.injEq] at hprint
  have heq : Statstool.testBegin ctx test.text s = .next
      { Statstool.announce ctx "info:test-name:" "Test:   " test.text s with
        test := test.firstWord, testBegin := true } := by
    simp only [Statstool.testBegin, test.testWord_text]
    exact if_pos hfits
  refine ⟨_, heq, hprint.2.2.2.2, ?_⟩
  apply h.of_exec (e := (.testBegin test.text, n)) heq (by simp)
  · exact fun c hc => ⟨hc.runs, hc.isOpen⟩
  · exact ⟨hnames.hostname, hnames.kernel, hfits⟩
  · intro client hclient
    rw [← h.client client hclient]
    simp only [State.client, hprint.1, hprint.2.1, hprint.2.2.2.1]
  · intro t ht
    obtain rfl : test = t := Option.some.inj ht
    rfl
  · rfl

/-- An event that keeps the names keeps what is known by them. -/
theorem Follows.of_identity (h : Follows ctx s r) {e : Event K × ℕ} {t : State K}
    (hnext : Event.exec ctx e s = .next t) (hend : e.1 ≠ .testEnd)
    (hidentity : t.identity = s.identity) {i : Recording.Input Client TestName (Point K) × ℕ}
    (hbounded : ∀ c, Recording.Bounded maxTestRuns c r → Recording.Bounded maxTestRuns
      (c.step (collector ctx) (Event.mark ctx s.startSecs e, e.2)) (r.step i))
    (hkeep : (r.step i).client = r.client ∧ (r.step i).test = r.test ∧
      (r.step i).records = r.records) :
    t.startSecs = s.startSecs ∧ Follows ctx t (r.step i) := by
  have hnames := h.names.of_identity hidentity
  simp only [State.identity, Prod.mk.injEq] at hidentity
  refine ⟨hidentity.2.2.2.2, h.of_exec hnext hend hbounded hnames ?_ ?_ hkeep.2.2⟩
  · intro client hclient
    rw [hkeep.1] at hclient
    rw [← h.client client hclient]
    simp only [State.client, hidentity.1, hidentity.2.1, hidentity.2.2.2.1]
  · intro test htest
    rw [hkeep.2.1] at htest
    exact hidentity.2.2.1.trans (h.test test htest)

/-- A sample is stored in the open run or dropped. -/
theorem Follows.sample (h : Follows ctx s r) (hauto : ctx.opts.statsAllSamples = false)
    (hback : r.Backed) {n : ℕ} (hcalloc : ctx.env.calloc n = true) (sec : K) (text : Text) :
    ∃ t, Event.exec ctx (.sample sec text, n) s = .next t ∧ t.startSecs = s.startSecs ∧
      Follows ctx t (r.step (.take ⟨sec - s.startSecs, sampleValue text * ctx.scaleBy, n⟩, n)) := by
  obtain ⟨c, hc, hbounded⟩ := h.collects
  have hbacked := hbounded.backed (by decide) hback
  obtain ⟨t, ht⟩ : ∃ t, Statstool.sample ctx n (sec - s.startSecs) text s = .next t := by
    have hcases := hc.sample_cases ctx n (sec - s.startSecs) text
    simp only [collector, hauto, Bool.false_and, Bool.false_eq_true, if_false] at hcases
    rcases hcases with ⟨-, hfail, -⟩ | ⟨hopen, -, hnil, -⟩ | ⟨-, t, ht, -⟩
    · rw [hcalloc] at hfail
      contradiction
    · exact absurd hnil (hbacked hopen)
    · exact ⟨t, ht⟩
  have hidentity : t.identity = s.identity := by
    have hends := sample_identity ctx n (sec - s.startSecs) text s
    rwa [ht] at hends
  refine ⟨t, ht, h.of_identity (e := (.sample sec text, n)) ht (by simp) hidentity ?_ ?_⟩
  · intro d hd
    have hmanual : (collector ctx).auto = false := hauto
    exact hd.step hmanual (i := (.take _, n)) trivial true
  · simp only [Recording.State.step, Recording.State.take]
    split <;> exact ⟨rfl, rfl, rfl⟩

/-- A line whose action fits makes the parser follow the recorder. -/
theorem Follows.step (h : Follows ctx s r) (hauto : ctx.opts.statsAllSamples = false)
    (hback : r.Backed) (l : ActionLine) {n : ℕ} (hcalloc : ctx.env.calloc n = true)
    (horigin : 0 ≤ s.startSecs) (hfits : (l.input ctx s.startSecs n).Fits r)
    (hnamed : NamedEnd ctx r (l.input ctx s.startSecs n)) :
    ∃ t, forEach (Event.exec ctx) (l.toLogLine.events ctx n) s = .next t ∧
      t.startSecs = s.startSecs ∧
        Follows ctx t (r.step (l.input ctx s.startSecs n, n)) := by
  have htime : s.originate (textStamp ctx n l.body) = s := if_neg horigin.not_gt
  have hevents : forEach (Event.exec ctx) (l.toLogLine.events ctx n) s =
      forEach (fun handler => Event.exec ctx (handler.event (textStamp ctx n l.body), n))
        (Action.handlers l.action) s := by
    rw [LogLine.events, l.handlers_eq, List.map_cons, List.map_map, forEach_cons, forEach_map]
    change (Outcome.next (s.originate (textStamp ctx n l.body))).bind _ = _
    rw [Outcome.next_bind, htime]
    rfl
  have hsingle (handler : Handler) :
      forEach (fun handler => Event.exec ctx (handler.event (textStamp ctx n l.body), n))
        [handler] s = Event.exec ctx (handler.event (textStamp ctx n l.body), n) s := by
    rw [forEach_cons, forEach_nil, Outcome.bind_next]
  have hmanual : (collector ctx).auto = false := hauto
  have hwords := l.fits'
  rw [hevents]
  unfold ActionLine.input at hfits hnamed ⊢
  cases haction : l.action with
  | announce client =>
    rw [haction] at hwords
    rw [Action.handlers, hsingle]
    exact h.announce hwords n
  | begin test =>
    rw [haction] at hwords
    rw [Action.handlers, hsingle]
    exact h.begin hwords n
  | start =>
    rw [haction] at hfits
    rw [Action.handlers, hsingle]
    obtain ⟨c, hc, -⟩ := h.collects
    obtain ⟨t, ht, -⟩ := hc.testRunBegin_eq ctx n
    have hidentity : t.identity = s.identity := by
      have hends := testRunBegin_identity n s
      rwa [ht] at hends
    refine ⟨t, ht, h.of_identity (e := (.testRunBegin, n)) ht (by simp) hidentity ?_
      ⟨rfl, rfl, rfl⟩⟩
    exact fun d hd => hd.step hmanual (i := (.start, n)) hfits true
  | stop =>
    rw [Action.handlers, hsingle]
    refine ⟨_, rfl, h.of_identity (e := (.testRunEnd, n)) rfl (by simp) rfl ?_ ⟨rfl, rfl, rfl⟩⟩
    exact fun d hd => hd.step hmanual (i := (.stop, n)) trivial true
  | finish =>
    rw [haction] at hfits hnamed
    rw [Action.handlers, hsingle]
    exact h.testEnd hfits hnamed n
  | take text =>
    rw [Action.handlers, hsingle]
    exact h.sample hauto hback hcalloc (textStamp ctx n l.body) text
  | note => exact ⟨s, rfl, rfl, h⟩

/-- The tests of a record were announced with their clients and names, as `-x` needs it. -/
def Named (ctx : Context K) (records : List (Recording.Record Client TestName (Point K))) : Prop :=
  ctx.opts.extractResults = true → ∀ r ∈ records, r.client.isSome = true ∧ r.test.isSome = true

/-- Lines whose actions are orderly make the parser follow the recorder. -/
theorem Follows.run (h : Follows ctx s r) (hauto : ctx.opts.statsAllSamples = false)
    (hback : r.Backed) (hcalloc : ∀ n, ctx.env.calloc n = true) (horigin : 0 ≤ s.startSecs)
    (log : List (ActionLine × ℕ))
    (horderly : Recording.Orderly r (log.map fun (l, n) => (l.input ctx s.startSecs n, n)))
    (hnamed : Named ctx (r.run (log.map fun (l, n) => (l.input ctx s.startSecs n, n))).records) :
    ∃ t, forEach (Event.exec ctx) (log.flatMap fun (l, n) => l.toLogLine.events ctx n) s = .next t ∧
      Follows ctx t (r.run (log.map fun (l, n) => (l.input ctx s.startSecs n, n))) := by
  induction log generalizing s r with
  | nil => exact ⟨s, rfl, h⟩
  | cons p log ih =>
    obtain ⟨l, n⟩ := p
    rw [List.map_cons] at horderly hnamed ⊢
    have hend : NamedEnd ctx r (l.input ctx s.startSecs n) := by
      intro hx hinput
      have hrecord := (r.step (l.input ctx s.startSecs n, n)).records_run
        (log.map fun (l, n) => (l.input ctx s.startSecs n, n))
      apply hnamed hx ⟨r.client, r.test, r.runs, n⟩
      apply hrecord.subset
      rw [hinput]
      simp [Recording.State.step, Recording.State.idle]
    obtain ⟨t, ht, hsecs, hfollows⟩ :=
      h.step hauto hback l (hcalloc n) horigin horderly.1 hend
    have hrest := ih hfollows (hback.step _) (hsecs ▸ horigin) (hsecs ▸ horderly.2)
      (hsecs ▸ hnamed)
    rw [hsecs] at hrest
    obtain ⟨u, hu, hlast⟩ := hrest
    exact ⟨u, by rw [List.flatMap_cons, forEach_append, ht, Outcome.next_bind, hu], hlast⟩

/-- The time origin of a log: the time stamp of its first line. -/
def logOrigin (ctx : Context K) (log : List ActionLine) : K :=
  (log.head?.map fun l => textStamp ctx 0 l.body).getD 0

/-- On a log of orderly actions the parser goes on to the end of the file, and its reports are the
records of the tests. -/
theorem dataParse_records [IsStrictOrderedRing K] (ctx : Context K) (junk : Buffer)
    (log : List ActionLine) (hauto : ctx.opts.statsAllSamples = false)
    (hcalloc : ∀ n, ctx.env.calloc n = true) (horigin : 0 ≤ logOrigin ctx log)
    (horderly : Recording.Orderly (.idle []) (actionInputs ctx (logOrigin ctx log) log))
    (hnamed : Named ctx
      ((Recording.State.idle []).run (actionInputs ctx (logOrigin ctx log) log)).records) :
    ∃ s, dataParse ctx junk (logFile (log.map ActionLine.toLogLine)) = .next s ∧
      s.reports = recordReports ctx
        ((Recording.State.idle []).run (actionInputs ctx (logOrigin ctx log) log)).records := by
  have hsize : ∀ l ∈ log.map ActionLine.toLogLine, 27 ≤ l.size := by
    intro l hl
    obtain ⟨a, -, rfl⟩ := List.mem_map.mp hl
    exact a.size_ge
  have hevents : textEvents ctx (log.map ActionLine.toLogLine) =
      log.zipIdx.flatMap fun (l, n) => l.toLogLine.events ctx n := by
    rw [textEvents, List.zipIdx_map, List.flatMap_map]
    rfl
  have hback : (Recording.State.idle [] : Recording.State Client TestName (Point K)).Backed :=
    fun hopen => absurd hopen Bool.false_ne_true
  obtain ⟨t, ht, hfollows⟩ := (follows_initial ctx (logOrigin ctx log)).run hauto hback hcalloc
    horigin log.zipIdx horderly hnamed
  -- the first line sets the time origin
  have hstart : forEach (Event.exec ctx) (textEvents ctx (log.map ActionLine.toLogLine))
      .initial = forEach (Event.exec ctx) (textEvents ctx (log.map ActionLine.toLogLine))
        { State.initial with startSecs := logOrigin ctx log } ∨ log = [] := by
    cases log with
    | nil => exact Or.inr rfl
    | cons l log =>
      left
      have hfirst : (State.initial : State K).originate (textStamp ctx 0 l.body) =
          State.originate { State.initial with startSecs := logOrigin ctx (l :: log) }
            (textStamp ctx 0 l.body) := by
        have hneg : (State.initial : State K).startSecs < 0 := neg_lt_zero.mpr one_pos
        have hnonneg : ¬ (logOrigin ctx (l :: log)) < 0 := horigin.not_gt
        rw [State.originate, State.originate, if_pos hneg, if_neg hnonneg]
        rfl
      rw [List.map_cons]
      change (Outcome.next ((State.initial : State K).originate _)).bind _ =
        (Outcome.next (State.originate _ _)).bind _
      rw [hfirst]
  have hloop : ∃ u, readLoop ctx (logLines junk (log.map ActionLine.toLogLine)) .initial = .next u ∧
      u.reports = t.reports := by
    rw [readLoop_eq_events, logEvents_logLines ctx junk _ hsize]
    rcases hstart with hsame | rfl
    · refine ⟨t, ?_, rfl⟩
      rw [hsame, hevents]
      exact ht
    · refine ⟨.initial, rfl, ?_⟩
      rw [List.zipIdx_nil, List.flatMap_nil, forEach_nil, Outcome.next.injEq] at ht
      rw [← ht]
      rfl
  obtain ⟨u, hu, hreports⟩ := hloop
  refine ⟨u, ?_, hreports.trans hfollows.reports⟩
  rw [dataParse_logFile, parseLines, hu]
  simp [finish, hauto]

end

end FlukeTesting.Statstool
