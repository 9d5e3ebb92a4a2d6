import FlukeTesting.Statstool.SlotSafety

/-!
# Where reports come from

A report of the read loop is made by the end of a test, of the runs that are collected there.
So the reports of a log are known from the states in which the parser meets its `TEST_END`s.
-/

namespace FlukeTesting.Statstool

open Imperative Collect

section

variable {K : Type*}

/-- Printing the text of a tag makes no report. -/
theorem announce_reports (ctx : Context K) (tagged plain : String) (arg : Text) (s : State K) :
    (announce ctx tagged plain arg s).reports = s.reports := by
  unfold announce
  split
  · rfl
  · exact s.reports_emit_stdout _

/-- The slots up to the index. -/
def State.collected (s : State K) : List (Slot K) := (s.slots s.count).getD []

variable [Field K]

/-- Opening a run makes no report. -/
theorem testRunBegin_reports (line : ℕ) (s : State K) :
    (testRunBegin line s).Ends fun t => t.reports = s.reports := by
  unfold testRunBegin Outcome.Ends
  dsimp only
  split
  · exact s.reports_emit_stderr _
  · split <;> rfl

/-- The end of a test on a line makes a report: it needs its file and the architecture for the
name of the file, if there is one. -/
def EndReports (ctx : Context K) (n : ℕ) (s : State K) : Prop :=
  (ctx.opts.extractResults = true → s.arch ≠ none) ∧ ctx.written n = true

variable [LinearOrder K]

/-- The slots up to the index are the collected runs. -/
theorem Holds.collected_eq {s : State K} {runs : List (Run (Point K))} (h : Holds s runs) :
    s.collected = runs.map Slot.ofRun := by
  rw [State.collected, h.slots_eq, Option.getD_some]

/-- Storing a sample makes no report. -/
theorem sample_reports (ctx : Context K) (line : ℕ) (sec : K) (text : Text) (s : State K) :
    (sample ctx line sec text s).Ends fun t => t.reports = s.reports := by
  refine Outcome.Ends.bind ?_ fun t ht => ?_
  · split
    · exact testRunBegin_reports line s
    · rfl
  · split
    · unfold storePoint Outcome.Ends
      split
      · split
        · exact ht
        · split <;> exact ht
      · exact (t.reports_emit_stderr _).trans ht
    · exact ht

/-- Only the end of a test makes reports. -/
theorem exec_reports (ctx : Context K) (e : Event K × ℕ) (s : State K) (h : e.1 ≠ .testEnd) :
    (Event.exec ctx e s).Ends fun t => t.reports = s.reports := by
  obtain ⟨event, n⟩ := e
  cases event with
  | unstrippable => rfl
  | time sec =>
    change (s.originate sec).reports = _
    unfold State.originate
    split <;> rfl
  | testClient arg =>
    simp only [Event.exec, testClient, Outcome.Ends]
    split <;> exact announce_reports ctx _ _ arg s
  | testBegin arg =>
    simp only [Event.exec, testBegin, Outcome.Ends]
    split <;> exact announce_reports ctx _ _ arg s
  | testEnd => exact absurd rfl h
  | testRunBegin => exact testRunBegin_reports n s
  | testRunEnd => rfl
  | sample sec text => exact sample_reports ctx n _ text s

/-- The end of a test makes one report of the collected runs if it goes on and has its file. -/
theorem Represents.testEnd_reports {s : State K} {c : Collect.State (Point K)}
    (h : Represents s c) (ctx : Context K) (n : ℕ) :
    (EndReports ctx n s ∧ ∃ t, testEnd ctx n s = .next t ∧
      t.reports = s.reports ++ [s.endReport ctx n s.collected]) ∨
    (¬ EndReports ctx n s ∧ (testEnd ctx n s).state.reports = s.reports) := by
  rw [h.toHolds.collected_eq]
  rcases h.testEnd_cases ctx n with
    ⟨hx, harch, heq⟩ | ⟨harch, hw, heq⟩ | ⟨-, hw, pieces, heq⟩
  · exact Or.inr ⟨fun hrep => hrep.1 hx harch, by rw [heq]; rfl⟩
  · exact Or.inl ⟨⟨harch, hw⟩, _, heq, by simp⟩
  · refine Or.inr ⟨fun hrep => ?_, by simp [heq]⟩
    rw [hrep.2] at hw
    contradiction

/-- Events only ever add reports. -/
theorem Represents.exec_reports_mono {s : State K} {c : Collect.State (Point K)}
    (h : Represents s c) (ctx : Context K) (e : Event K × ℕ) :
    (Event.exec ctx e s).Ends fun t => s.reports <+: t.reports := by
  by_cases he : e.1 = .testEnd
  · obtain ⟨event, n⟩ := e
    subst he
    change s.reports <+: (testEnd ctx n s).state.reports
    rcases h.testEnd_reports ctx n with ⟨-, t, ht, hreports⟩ | ⟨-, hreports⟩
    · rw [ht, Outcome.state_next, hreports]
      exact List.prefix_append _ _
    · rw [hreports]
  · have hsame : (Event.exec ctx e s).state.reports = s.reports := exec_reports ctx e s he
    change s.reports <+: (Event.exec ctx e s).state.reports
    rw [hsame]

/-- A report that was made stays until the end of the read loop. -/
theorem Visits.reports_mono {ctx : Context K} {lines : List Buffer} {s : State K}
    (h : Visits ctx lines s) : s.reports <+: (readLoop ctx lines .initial).state.reports := by
  obtain ⟨c, hc⟩ := h.represents
  obtain ⟨front, back, hsplit, hs⟩ := h
  rw [readLoop_eq_events, hsplit, forEach_append, hs, Outcome.next_bind]
  have hrest (events : List (Event K × ℕ)) (t : State K) (d : Collect.State (Point K))
      (hd : Represents t d) :
      (forEach (Event.exec ctx) events t).Ends fun u => t.reports <+: u.reports := by
    induction events generalizing t d with
    | nil => exact List.prefix_rfl
    | cons e rest ih =>
      have hstep := hd.exec_reports_mono ctx e
      rw [forEach_cons]
      cases hout : Event.exec ctx e t with
      | next u =>
        rw [hout] at hstep
        exact hstep.trans (ih u _ (hd.exec_next hout))
      | stop u => rwa [hout] at hstep
      | fault f u => rwa [hout] at hstep
  exact hrest back s c hc

/-- The end of a test that the parser meets makes its report. -/
theorem Meets.mem_reports {ctx : Context K} {lines : List Buffer} {n : ℕ} {s : State K}
    (h : Meets ctx lines (.testEnd, n) s) (hrep : EndReports ctx n s) :
    s.endReport ctx n s.collected ∈ (readLoop ctx lines .initial).state.reports := by
  obtain ⟨c, hc⟩ := Visits.represents h.reaches
  rcases hc.testEnd_reports ctx n with ⟨-, t, ht, hreports⟩ | ⟨hnot, -⟩
  · apply (Visits.reports_mono (h.step ht)).subset
    rw [hreports]
    simp
  · exact absurd hrep hnot

/-- A report is the one that the end of some test makes. -/
def MadeAt (ctx : Context K) (lines : List Buffer) (r : Report K) : Prop :=
  ∃ n s, Meets ctx lines (.testEnd, n) s ∧ EndReports ctx n s ∧ r = s.endReport ctx n s.collected

/-- An event adds no report but the one of the end of a test. -/
theorem Meets.reports_of_exec {ctx : Context K} {lines : List Buffer} {e : Event K × ℕ}
    {s : State K} (h : Meets ctx lines e s) (hs : ∀ r ∈ s.reports, MadeAt ctx lines r) :
    (Event.exec ctx e s).Ends fun t => ∀ r ∈ t.reports, MadeAt ctx lines r := by
  obtain ⟨c, hc⟩ := Visits.represents h.reaches
  by_cases he : e.1 = .testEnd
  · obtain ⟨event, n⟩ := e
    subst he
    change ∀ r ∈ (testEnd ctx n s).state.reports, MadeAt ctx lines r
    rcases hc.testEnd_reports ctx n with ⟨hrep, t, ht, hreports⟩ | ⟨-, hreports⟩
    · intro r hr
      rw [ht, Outcome.state_next, hreports, List.mem_append, List.mem_singleton] at hr
      rcases hr with hold | rfl
      · exact hs r hold
      · exact ⟨n, s, h, hrep, rfl⟩
    · rwa [hreports]
  · have hsame : (Event.exec ctx e s).state.reports = s.reports := exec_reports ctx e s he
    change ∀ r ∈ (Event.exec ctx e s).state.reports, MadeAt ctx lines r
    rwa [hsame]

/-- The reports of the read loop are those of the ends of tests that the parser meets. -/
theorem mem_reports_iff (ctx : Context K) (lines : List Buffer) (r : Report K) :
    r ∈ (readLoop ctx lines .initial).state.reports ↔ MadeAt ctx lines r := by
  constructor
  · have hvisit (t : State K) (h : Visits ctx lines t) : ∀ r ∈ t.reports, MadeAt ctx lines r := by
      refine Reaches.induction (P := fun u => ∀ r ∈ u.reports, MadeAt ctx lines r) ?_ ?_ h
      · intro r hr
        simp [State.initial, State.reports] at hr
      · intro e u v hmeets hv hu
        have := Meets.reports_of_exec hmeets hu
        rwa [hv] at this
    intro hr
    rw [readLoop_eq_events] at hr
    rcases forEach_exit (Event.exec ctx) (logEvents ctx lines) .initial with
      ⟨t, ht, hreach⟩ | ⟨e, t, hmeets, hexec, -⟩
    · rw [ht] at hr
      exact hvisit t hreach r hr
    · rw [← hexec] at hr
      exact Meets.reports_of_exec hmeets (hvisit t hmeets.reaches) r hr
  · rintro ⟨n, s, hmeets, hrep, rfl⟩
    exact hmeets.mem_reports hrep

/-- The read loop is left with this state, at the end of the file or without memory. -/
def LeftWith (ctx : Context K) (lines : List Buffer) (s : State K) : Prop :=
  readLoop ctx lines .initial = .next s ∨ readLoop ctx lines .initial = .stop s

/-- The state behind the read loop holds the runs of an abstract collector. -/
theorem LeftWith.represents {ctx : Context K} {lines : List Buffer} {s : State K}
    (h : LeftWith ctx lines s) : ∃ c, Represents s c := by
  unfold LeftWith at h
  rw [readLoop_eq_events] at h
  rcases forEach_exit (Event.exec ctx) (logEvents ctx lines) .initial with
    ⟨t, ht, hreach⟩ | ⟨e, t, hmeets, hexec, hne⟩
  · rcases h with hnext | hstop
    · exact ⟨_, forEach_represents represents_initial ctx _ hnext⟩
    · rw [ht] at hstop
      contradiction
  · rcases h with hnext | hstop
    · exact absurd hnext (hne s)
    · obtain ⟨c, hc⟩ := Visits.represents hmeets.reaches
      obtain ⟨d, hd, -⟩ := hc.exec_exit fun u => hexec ▸ hne u
      rw [hexec, hstop] at hd
      exact ⟨d, hd⟩

/-- What follows the read loop adds the report of an open run under `-a`, and nothing else. -/
theorem Represents.finish_reports {s : State K} {c : Collect.State (Point K)}
    (h : Represents s c) (ctx : Context K) (n : ℕ) :
    (finish ctx n s).state.reports = s.reports ++
      if ctx.opts.statsAllSamples && s.testRunBegin then [openReport ctx n s.collected]
      else [] := by
  rw [h.finish_eq, Outcome.state_next, h.toHolds.collected_eq]
  split
  · exact State.reports_emit_report _ _
  · rw [List.append_nil]

/-- A report is the one that the end of some test makes, or under `-a` the one of the run that is
open behind the read loop. -/
theorem mem_parseLines_reports_iff (ctx : Context K) (lines : List Buffer) (r : Report K) :
    r ∈ (parseLines ctx lines).state.reports ↔ MadeAt ctx lines r ∨
      ∃ s, LeftWith ctx lines s ∧ (ctx.opts.statsAllSamples && s.testRunBegin) = true ∧
        r = openReport ctx lines.length s.collected := by
  rw [← mem_reports_iff]
  have hleft {s : State K} (h : LeftWith ctx lines s) :
      r ∈ (finish ctx lines.length s).state.reports ↔ r ∈ s.reports ∨
        (ctx.opts.statsAllSamples && s.testRunBegin) = true ∧
          r = openReport ctx lines.length s.collected := by
    obtain ⟨c, hc⟩ := h.represents
    rw [hc.finish_reports, List.mem_append]
    split <;> simp [*]
  unfold parseLines LeftWith at *
  cases hloop : readLoop ctx lines .initial with
  | next s => simpa using hleft (Or.inl hloop)
  | stop s => simpa using hleft (Or.inr hloop)
  | fault f s => simp

/-- Every report prints the statistics of its runs. -/
theorem parseLines_analysis (ctx : Context K) (lines : List Buffer) :
    ∀ r ∈ (parseLines ctx lines).state.reports,
      r.analysis = dataAnalyse ctx.opts ctx.env.sqrt r.runs := by
  intro r hr
  rcases (mem_parseLines_reports_iff ctx lines r).mp hr with
    ⟨n, s, -, -, rfl⟩ | ⟨s, -, -, rfl⟩
  · rfl
  · rfl

/-- Without `-a`, nothing happens after the read loop. -/
theorem parseLines_state {ctx : Context K} (hauto : ctx.opts.statsAllSamples = false)
    (lines : List Buffer) :
    (parseLines ctx lines).state = (readLoop ctx lines .initial).state := by
  unfold parseLines finish
  rw [hauto]
  cases readLoop ctx lines .initial <;> rfl

end

end FlukeTesting.Statstool
