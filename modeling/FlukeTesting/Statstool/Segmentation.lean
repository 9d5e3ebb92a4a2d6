import FlukeTesting.Lib.Cut
import FlukeTesting.Statstool.Passing

/-!
# The reports are the declarative cut of the log

Without `-a`, and as long as no test ends in an open run, the calls of `data_analyse` receive
exactly what a cut of the whole log says: the runs between two `TEST_END`s, the first 128 of
them, each with the samples up to its end, at times since the first line. Flags, index,
re-used slots and the lazily set time origin have no other effect.
-/

namespace FlukeTesting.Statstool

open Imperative Collect

section

variable {K : Type*}

/-- A slot as a collected run. -/
def Slot.run (slot : Slot K) : Run (Point K) := ⟨slot.openedAt, slot.points⟩

/-- The runs that each call of `data_analyse` received, with the line that caused the call. -/
def State.analysed (s : State K) : List (ℕ × List (Run (Point K))) :=
  s.reports.map fun r => (r.line, r.runs.map Slot.run)

/-- Storing points appends them to the list and changes nothing else of the run. -/
theorem foldl_store_run [LinearOrder K] (items : List (Point K)) (slot : Slot K) :
    (items.foldl Slot.store slot).run = ⟨slot.openedAt, slot.points ++ items⟩ := by
  induction items generalizing slot with
  | nil => simp [Slot.run]
  | cons p items ih =>
    rw [List.foldl_cons, ih]
    simp [Slot.store, Slot.dataAppendPoint]

variable [Field K]

/-- The time stamp of the first line. -/
def firstStamp (ctx : Context K) : List Buffer → K
  | [] => 0
  | raw :: _ => (raw.strip.map (stamp ctx 0)).getD 0

/-- The marks of a log, with its samples at times since its first line. -/
def logMarks (ctx : Context K) (lines : List Buffer) : List (Mark (Point K) × ℕ) :=
  (logEvents ctx lines).map fun e => (Event.mark ctx (firstStamp ctx lines) e, e.2)

/-- The first event of a log takes the time stamp of its first line or cannot go on. -/
theorem logEvents_head {ctx : Context K} {lines : List Buffer} {e : Event K × ℕ}
    {rest : List (Event K × ℕ)} (h : logEvents ctx lines = e :: rest) :
    e = (.unstrippable, 0) ∨ e = (.time (firstStamp ctx lines), 0) := by
  cases lines with
  | nil => simp [logEvents] at h
  | cons raw lines =>
    rw [logEvents, List.zipIdx_cons, List.flatMap_cons] at h
    cases hstrip : raw.strip with
    | none =>
      have hline : lineEvents ctx raw 0 = [(.unstrippable, 0)] := by rw [lineEvents, hstrip]
      exact Or.inl (List.cons.inj ((congrArg (· ++ _) hline).symm.trans h)).1.symm
    | some b =>
      simp only [lineEvents, hstrip, List.map_cons, List.cons_append, List.cons.injEq] at h
      rw [firstStamp, hstrip, ← h.1]
      exact Or.inr rfl

/-- No tag handler stores a sample. -/
theorem tagHandlersOf_items (ctx : Context K) (origin sec : K) (line : ℕ) (str : ℕ → Text) :
    (tagHandlersOf str).filterMap (fun h => (Event.mark ctx origin (h.event sec, line)).item?) =
      [] := by
  unfold tagHandlersOf
  cases Search.find testClientKeyword (str 32) <;> split_ifs <;> rfl

/-- A line stores at most one sample, under its own number. -/
theorem lineEvents_items (ctx : Context K) (origin : K) (raw : Buffer) (line : ℕ) :
    ((items ((lineEvents ctx raw line).map fun e => (Event.mark ctx origin e, e.2))).map
      Point.line).Sublist [line] := by
  unfold lineEvents
  cases raw.strip with
  | none => simp [items, Event.mark, Mark.item?]
  | some b =>
    have htags := tagHandlersOf_items ctx origin (stamp ctx line b) line b.str
    have hsplit : items ((((Event.time (stamp ctx line b)) ::
        b.handlers.map (Handler.event (stamp ctx line b))).map (·, line)).map
          fun e => (Event.mark ctx origin e, e.2)) =
        b.handlers.filterMap fun h =>
          (Event.mark ctx origin (h.event (stamp ctx line b), line)).item? := by
      simp [items, Event.mark, Mark.item?, List.filterMap_map, Function.comp_def]
    rw [hsplit, Buffer.handlers, handlersOf, List.filterMap_append, htags]
    split <;> simp [Handler.event, Event.mark, Mark.item?]

/-- The samples of a log have rising line numbers. -/
theorem logMarks_lines (ctx : Context K) (lines : List Buffer) :
    ((items (logMarks ctx lines)).map Point.line).Pairwise (· < ·) := by
  have hsub (numbered : List (Buffer × ℕ)) (origin : K) :
      ((items ((numbered.flatMap fun p => lineEvents ctx p.1 p.2).map fun e =>
        (Event.mark ctx origin e, e.2))).map Point.line).Sublist (numbered.map Prod.snd) := by
    induction numbered with
    | nil => exact List.Sublist.refl []
    | cons p rest ih =>
      rw [List.flatMap_cons, List.map_append, items, List.filterMap_append, List.map_append]
      exact (lineEvents_items ctx origin p.1 p.2).append ih
  apply List.Pairwise.sublist (hsub lines.zipIdx (firstStamp ctx lines))
  rw [List.zipIdx_map_snd]
  exact List.pairwise_lt_range'

/-- The marks of a sequence of events in two parts are those of its parts. -/
theorem marks_append [LinearOrder K] (ctx : Context K) (origin : K)
    (front back : List (Event K × ℕ)) :
    ∃ later, marks ctx origin (front ++ back) = marks ctx origin front ++ marks ctx later back := by
  induction front generalizing origin with
  | nil => exact ⟨origin, rfl⟩
  | cons e front ih =>
    obtain ⟨later, hlater⟩ := ih (Event.origin origin e)
    exact ⟨later, by rw [List.cons_append, marks, hlater, marks, List.cons_append]⟩

variable [LinearOrder K]

/-- A slot filled by a run is that run. -/
@[simp] theorem Slot.run_ofRun (r : Run (Point K)) : (Slot.ofRun r).run = r :=
  foldl_store_run r.items (.fresh r.start)

/-- The calls of `data_analyse` received the runs that the abstract collector reported. -/
theorem Represents.analysed_eq {s : State K} {c : Collect.State (Point K)} (h : Represents s c) :
    s.analysed = c.reports := by
  have hruns : s.analysed = (s.reports.map fun r => (r.line, r.runs)).map fun p =>
      (p.1, p.2.map Slot.run) := by simp [State.analysed]
  rw [hruns, h.reports]
  simp [Function.comp_def]

/-- However the read loop ends, the reports so far are those of the events that went on. -/
theorem readLoop_front (ctx : Context K) (lines : List Buffer) :
    ∃ front back t, logEvents ctx lines = front ++ back ∧
      forEach (Event.exec ctx) front .initial = .next t ∧
      (readLoop ctx lines .initial).state.analysed =
        (Collect.State.empty.run (collector ctx) (marks ctx (-1) front)).reports ∧
      ∀ s, readLoop ctx lines .initial = .next s → back = [] := by
  rw [readLoop_eq_events]
  rcases forEach_exit (Event.exec ctx) (logEvents ctx lines) .initial with
    ⟨t, ht, -⟩ | ⟨e, t, ⟨front, back, hsplit, hfront⟩, hexec, hne⟩
  · have hrep := forEach_represents represents_initial ctx _ ht
    refine ⟨logEvents ctx lines, [], t, (List.append_nil _).symm, ht, ?_, fun _ _ => rfl⟩
    rw [ht]
    exact hrep.analysed_eq
  · have hrep := forEach_represents represents_initial ctx front hfront
    refine ⟨front, e :: back, t, hsplit, hfront, ?_, fun s hs => absurd hs (hne s)⟩
    obtain ⟨d, hd, hreports⟩ := hrep.exec_exit fun u => hexec ▸ hne u
    rw [← hexec, hd.analysed_eq, hreports]
    rfl

/-- If no test ends in an open run, no flush among the marks of events that go on meets one. -/
theorem noFlushOpen_marks {ctx : Context K} {s t : State K} {c : Collect.State (Point K)}
    (h : Represents s c) (events : List (Event K × ℕ))
    (hnext : forEach (Event.exec ctx) events s = .next t)
    (hclosed : ∀ n u, ComesTo (Event.exec ctx) events s (.testEnd, n) u →
      (ctx.opts.extractResults = true → u.arch ≠ none) → u.testRunBegin = false) :
    NoFlushOpen (collector ctx) c (marks ctx s.startSecs events) := by
  induction events generalizing s c with
  | nil => trivial
  | cons e rest ih =>
    obtain ⟨u, hu, ht⟩ := Outcome.bind_eq_next_iff.mp hnext
    refine ⟨fun hflush => ?_, ?_⟩
    · obtain ⟨hend, harch⟩ := h.flush_ends hu hflush
      rw [← h.isOpen]
      exact hclosed e.2 s ⟨[], rest, by rw [← hend]; rfl, rfl⟩ harch
    · rw [← exec_origin ctx e s u hu]
      refine ih (h.exec_next hu) ht fun n w ⟨front, back, hsplit, hw⟩ =>
        hclosed n w ⟨e :: front, back, ?_, ?_⟩
      · rw [hsplit, List.cons_append]
      · rw [forEach_cons, hu, Outcome.next_bind, hw]

/-- From a time origin that is not negative on, the origin stays. -/
theorem marks_of_nonneg (ctx : Context K) {origin : K} (h : 0 ≤ origin)
    (events : List (Event K × ℕ)) :
    marks ctx origin events = events.map fun e => (Event.mark ctx origin e, e.2) := by
  induction events with
  | nil => rfl
  | cons e rest ih =>
    have hkeep : Event.origin origin e = origin := by
      obtain ⟨event, n⟩ := e
      cases event with
      | time sec => exact if_neg h.not_gt
      | unstrippable | testClient | testBegin | testEnd | testRunBegin | testRunEnd | sample => rfl
    rw [marks, hkeep, ih, List.map_cons]

/-- The marks of events that go on are those of the log. -/
theorem marks_front [IsStrictOrderedRing K] {ctx : Context K} {lines : List Buffer}
    (hfirst : 0 ≤ firstStamp ctx lines) {front back : List (Event K × ℕ)} {t : State K}
    (hsplit : logEvents ctx lines = front ++ back)
    (hfront : forEach (Event.exec ctx) front .initial = .next t) :
    marks ctx (-1) front = front.map fun e => (Event.mark ctx (firstStamp ctx lines) e, e.2) := by
  cases front with
  | nil => rfl
  | cons e front =>
    rcases logEvents_head hsplit with rfl | rfl
    · simp [Event.exec] at hfront
    · have horigin : Event.origin (-1 : K) ((.time (firstStamp ctx lines) : Event K), 0) =
          firstStamp ctx lines := if_pos (neg_lt_zero.mpr one_pos)
      rw [marks, horigin, marks_of_nonneg ctx hfirst, List.map_cons]
      rfl

/-- Without `-a`, if no test ends in an open run, the calls of `data_analyse` receive the runs of the
cut of the events that go on, which are all events if the log is read to its end. -/
theorem analysed_eq_front [IsStrictOrderedRing K] {ctx : Context K} {lines : List Buffer}
    (hauto : ctx.opts.statsAllSamples = false) (hfirst : 0 ≤ firstStamp ctx lines)
    (hclosed : EndsClosed ctx lines) :
    ∃ front back t, logEvents ctx lines = front ++ back ∧
      forEach (Event.exec ctx) front .initial = .next t ∧
      (parseLines ctx lines).state.analysed =
        cut maxTestRuns (front.map fun e => (Event.mark ctx (firstStamp ctx lines) e, e.2)) ∧
      ∀ s, readLoop ctx lines .initial = .next s → back = [] := by
  obtain ⟨front, back, t, hsplit, hfront, hreports, hend⟩ := readLoop_front ctx lines
  have hopen : NoFlushOpen (collector ctx) .empty (marks ctx (-1) front) :=
    noFlushOpen_marks represents_initial front hfront fun n u ⟨before, after, hcut, hu⟩ =>
      hclosed n u ⟨before, after ++ back, by rw [hsplit, hcut]; simp, hu⟩
  refine ⟨front, back, t, hsplit, hfront, ?_, hend⟩
  rw [parseLines_state hauto, hreports, run_reports_eq_cut hauto .empty rfl rfl _ hopen,
    marks_front hfirst hsplit hfront]
  rfl

/-- Without `-a`, if no test ends in an open run, the calls of `data_analyse` receive the runs
of the cut of the log, call by call, and all of them if the log is read to its end. No sample
is received twice. -/
theorem analysed_eq_cut [IsStrictOrderedRing K] (ctx : Context K) (lines : List Buffer)
    (hauto : ctx.opts.statsAllSamples = false) (hfirst : 0 ≤ firstStamp ctx lines)
    (hclosed : EndsClosed ctx lines) :
    (parseLines ctx lines).state.analysed <+: cut maxTestRuns (logMarks ctx lines) ∧
    (∀ s, readLoop ctx lines .initial = .next s →
      (parseLines ctx lines).state.analysed = cut maxTestRuns (logMarks ctx lines)) ∧
    ((reportedItems (parseLines ctx lines).state.analysed).map Point.line).Pairwise (· < ·) := by
  obtain ⟨front, back, t, hsplit, hfront, hcut, hend⟩ := analysed_eq_front hauto hfirst hclosed
  have hmarks : logMarks ctx lines =
      front.map (fun e => (Event.mark ctx (firstStamp ctx lines) e, e.2)) ++
        back.map fun e => (Event.mark ctx (firstStamp ctx lines) e, e.2) := by
    rw [logMarks, hsplit, List.map_append]
  have hstarts : (parseLines ctx lines).state.analysed <+:
      cut maxTestRuns (logMarks ctx lines) := by
    rw [hcut, hmarks]
    exact cut_front maxTestRuns _ _
  refine ⟨hstarts, fun s hs => ?_, ?_⟩
  · rw [hcut, hmarks, hend s hs, List.map_nil, List.append_nil]
  · refine (logMarks_lines ctx lines).sublist (List.Sublist.map Point.line ?_)
    obtain ⟨front, back, t, hsplit, hfront, hreports, -⟩ := readLoop_front ctx lines
    rw [parseLines_state hauto, hreports]
    refine (List.sublist_append_left _ _).trans ((Collect.State.account_run _ _ _).trans ?_)
    rw [marks_front hfirst hsplit hfront, logMarks, hsplit, List.map_append]
    exact (List.sublist_append_left _ _).filterMap _

/-- If no flush among the marks of a log meets an open run, no test ends in one. -/
theorem EndsClosed.of_noFlushOpen {ctx : Context K} {lines : List Buffer}
    (h : NoFlushOpen (collector ctx) .empty (marks ctx (-1) (logEvents ctx lines))) :
    EndsClosed ctx lines := by
  rintro n s ⟨front, back, hsplit, hs⟩ -
  obtain ⟨later, hmarks⟩ := marks_append ctx (-1) front ((.testEnd, n) :: back)
  rw [hsplit, hmarks, noFlushOpen_append] at h
  rw [(forEach_represents represents_initial ctx front hs).isOpen]
  exact h.2.1 rfl

/-- Without `-a`, the calls of `data_analyse` receive the runs of the cut of every regular log, also
of one with runs that are never closed and marks that are out of place. -/
theorem Regular.analysed_eq [IsStrictOrderedRing K] {ctx : Context K} {lines : List Buffer}
    (h : Regular ctx lines) (hauto : ctx.opts.statsAllSamples = false)
    (hfirst : 0 ≤ firstStamp ctx lines) :
    (parseLines ctx lines).state.analysed = cut maxTestRuns (logMarks ctx lines) := by
  obtain ⟨s, hs⟩ := (readLoop_next_iff ctx lines).mpr h.allPass
  obtain ⟨front, back, t, hsplit, hfront, hcut, hend⟩ :=
    analysed_eq_front hauto hfirst (.of_noFlushOpen h.closed)
  rw [hcut, logMarks, hsplit, hend s hs, List.append_nil]

end

/-- A log of one test with one run, and with a sample behind it. -/
def oneRunLog : List LogLine :=
  [.ofText "2011-12-02T01:03:41.000000 TAG: TEST_RUN_BEGIN".toList,
    .ofText "2011-12-02T01:03:41.500000 SAMPLE: 0.25".toList,
    .ofText "2011-12-02T01:03:42.000000 TAG: TEST_RUN_END".toList,
    .ofText "2011-12-02T01:03:42.500000 SAMPLE: 0.50".toList,
    .ofText "2011-12-02T01:03:43.000000 TAG: TEST_END".toList]

/-- The parser cuts that log as it is meant to be cut. -/
theorem oneRunLog_cut :
    let ctx := plainContext {}
    let lines := logLines zeroBuffer oneRunLog
    (parseLines ctx lines).state.analysed <+: cut maxTestRuns (logMarks ctx lines) ∧
    (∀ s, readLoop ctx lines .initial = .next s →
      (parseLines ctx lines).state.analysed = cut maxTestRuns (logMarks ctx lines)) ∧
    ((reportedItems (parseLines ctx lines).state.analysed).map Point.line).Pairwise (· < ·) := by
  have hevents : logEvents (plainContext {}) (logLines zeroBuffer oneRunLog) =
      textEvents (plainContext {}) oneRunLog :=
    logEvents_logLines _ _ _ (by decide +kernel)
  have hopen : NoFlushOpen (collector (plainContext {})) .empty
      (marks (plainContext {}) (-1) (logEvents (plainContext {}) (logLines zeroBuffer oneRunLog))) := by
    rw [hevents]
    decide +kernel
  exact analysed_eq_cut (plainContext {}) (logLines zeroBuffer oneRunLog) rfl
    (by decide +kernel) (.of_noFlushOpen hopen)

end FlukeTesting.Statstool
