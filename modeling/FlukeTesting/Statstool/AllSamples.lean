import FlukeTesting.Lib.Single
import FlukeTesting.Statstool.Segmentation

/-!
# What `-a` makes of the tags

Under `-a` the statistics are meant to be those of one run of all samples, whatever tags the log
has. A sample that finds no open run opens one, and a run that is open at the end of the file is
reported. But the tags keep their effects: they close runs, open further ones, report them and
drop them. So the option does what it is meant to do exactly on undivided logs.
-/

namespace FlukeTesting.Statstool

open Imperative Collect

section

variable {K : Type*} [Field K] [LinearOrder K]

/-- The samples of a log, at the times that the parser gives them. -/
def logSamples (ctx : Context K) (lines : List Buffer) : List (Point K) :=
  items (marks ctx (-1) (logEvents ctx lines))

/-- The statistics that `data_parse` reports are those of one run of all samples. -/
def AllSamples (ctx : Context K) (lines : List Buffer) : Prop :=
  ∃ s r opened, parseLines ctx lines = .next s ∧ s.reports = [r] ∧
    r.runs = [Slot.ofRun ⟨opened, logSamples ctx lines⟩] ∧
    r.analysis = dataAnalyse ctx.opts ctx.env.sqrt r.runs

/-- A sample that is stored finds its open run collected. -/
theorem Represents.item_backed {ctx : Context K} {e : Event K × ℕ} {s t : State K}
    {c : Collect.State (Point K)} (h : Represents s c) (hnext : Event.exec ctx e s = .next t)
    {origin : K} (hitem : (Event.mark ctx origin e).item?.isSome = true) : c.Backed := by
  intro hopen
  obtain ⟨event, n⟩ := e
  cases event with
  | sample sec text =>
    have hsame : (if (collector ctx).auto && !c.isOpen then c.start (collector ctx) n else c) = c :=
      if_neg (by simp [hopen])
    have hcases := h.sample_cases ctx n (sec - s.startSecs) text
    rw [Event.exec] at hnext
    simp only [hsame, hnext] at hcases
    rcases hcases with ⟨-, -, u, hu, -⟩ | ⟨-, -, -, u, hu, -⟩ | ⟨hruns, -⟩
    · contradiction
    · contradiction
    · exact (hruns hopen).2
  | unstrippable | time | testClient | testBegin | testEnd | testRunBegin | testRunEnd =>
    simp [Event.mark, Mark.item?] at hitem

/-- The samples among events that go on find their open runs collected. -/
theorem itemsBacked_marks {ctx : Context K} {s t : State K} {c : Collect.State (Point K)}
    (h : Represents s c) (events : List (Event K × ℕ))
    (hnext : forEach (Event.exec ctx) events s = .next t) :
    ItemsBacked (collector ctx) c (marks ctx s.startSecs events) := by
  induction events generalizing s c with
  | nil => trivial
  | cons e rest ih =>
    obtain ⟨u, hu, ht⟩ := Outcome.bind_eq_next_iff.mp hnext
    refine ⟨h.item_backed hu, ?_⟩
    rw [← exec_origin ctx e s u hu]
    exact ih (h.exec_next hu) ht

/-- Only a sample without memory stops the loop. It is not stored, and nothing else is lost or
added. -/
theorem Represents.exec_stop {ctx : Context K} {e : Event K × ℕ} {s t : State K}
    {c : Collect.State (Point K)} (h : Represents s c) (hstop : Event.exec ctx e s = .stop t) :
    (∀ origin, (Event.mark ctx origin e).item? ≠ none) ∧
      ∃ d, Represents t d ∧ d.account = c.account := by
  obtain ⟨event, n⟩ := e
  cases event with
  | sample sec text =>
    refine ⟨fun _ => by simp [Event.mark, Mark.item?], ?_⟩
    have haccount : (if (collector ctx).auto && !c.isOpen then c.start (collector ctx) n
        else c).account = c.account := by
      split
      · unfold Collect.State.start Collect.State.account
        split <;> simp
      · rfl
    change sample ctx n (sec - s.startSecs) text s = .stop t at hstop
    rcases h.sample_cases ctx n (sec - s.startSecs) text with
      ⟨-, -, u, hu, hd⟩ | ⟨-, -, -, u, hu, -⟩ | ⟨-, u, hu, -⟩
    · rw [hu, Outcome.stop.injEq] at hstop
      exact ⟨_, hstop ▸ hd, haccount⟩
    · rw [hu] at hstop
      contradiction
    · rw [hu] at hstop
      contradiction
  | testClient arg =>
    simp only [Event.exec, Statstool.testClient] at hstop
    split at hstop <;> contradiction
  | testBegin arg =>
    simp only [Event.exec, Statstool.testBegin] at hstop
    split at hstop <;> contradiction
  | testEnd =>
    rw [Event.exec] at hstop
    rcases h.testEnd_cases ctx n with ⟨-, -, heq⟩ | ⟨-, -, heq⟩ | ⟨-, -, pieces, heq⟩ <;>
      rw [heq] at hstop <;> contradiction
  | testRunBegin =>
    obtain ⟨u, hu, -⟩ := h.testRunBegin_eq ctx n
    rw [Event.exec, hu] at hstop
    contradiction
  | unstrippable | time | testRunEnd => simp [Event.exec, Statstool.testRunEnd] at hstop

/-- The runs of the reports of a collector that reports its open run at the end. -/
def closedRuns (c : Collect.State (Point K)) (n : ℕ) : List (ℕ × List (Slot K)) :=
  (c.closed n).map fun (n, runs) => (n, runs.map Slot.ofRun)

/-- A slot tells the run that filled it. -/
theorem Slot.ofRun_injective : Function.Injective (Slot.ofRun (K := K)) := fun r r' h => by
  rw [← Slot.run_ofRun r, h, Slot.run_ofRun]

/-- The reports are one of one run with the given samples when the collector reports such a
run. -/
theorem closedRuns_single_iff {c : Collect.State (Point K)} {n : ℕ} {reports : List (Report K)}
    (h : (reports.map fun r => (r.line, r.runs)) = closedRuns c n) (samples : List (Point K)) :
    (∃ r opened, reports = [r] ∧ r.runs = [Slot.ofRun ⟨opened, samples⟩]) ↔
      ∃ k run, c.closed n = [(k, [run])] ∧ run.items = samples := by
  unfold closedRuns at h
  constructor
  · rintro ⟨r, opened, rfl, hruns⟩
    obtain ⟨⟨k, runs⟩, hclosed, hpair⟩ := List.map_eq_singleton_iff.mp h.symm
    have hslots : runs.map Slot.ofRun = r.runs := (Prod.mk.inj hpair).2
    rw [hruns] at hslots
    obtain ⟨run, rfl, hslot⟩ := List.map_eq_singleton_iff.mp hslots
    exact ⟨k, run, hclosed, by rw [Slot.ofRun_injective hslot]⟩
  · rintro ⟨k, run, hclosed, rfl⟩
    rw [hclosed] at h
    obtain ⟨r, hr, hpair⟩ := List.map_eq_singleton_iff.mp h
    exact ⟨r, run.start, hr, (Prod.mk.inj hpair).2⟩

/-- After the read loop, `-a` reports the run that is open. -/
theorem Represents.finish_closed {s : State K} {c : Collect.State (Point K)} (h : Represents s c)
    {ctx : Context K} (hall : ctx.opts.statsAllSamples = true) (n : ℕ) :
    ∃ t, finish ctx n s = .next t ∧ (t.reports.map fun r => (r.line, r.runs)) = closedRuns c n := by
  refine ⟨_, h.finish_eq ctx n, ?_⟩
  unfold closedRuns Collect.State.closed
  rw [hall, Bool.true_and, h.isOpen]
  split
  · rw [State.reports_emit_report]
    change (s.reports ++ _).map _ = _
    rw [List.map_append, h.reports, List.map_append]
    rfl
  · rw [List.append_nil]
    exact h.reports

/-- Under `-a`, a log that is read to its end gives the reports of the collector that reports
its open run at the end. -/
theorem parseLines_closed {ctx : Context K} (hall : ctx.opts.statsAllSamples = true)
    {lines : List Buffer} {s : State K} (hnext : readLoop ctx lines .initial = .next s) :
    ∃ t, parseLines ctx lines = .next t ∧
      (t.reports.map fun r => (r.line, r.runs)) =
        closedRuns (Collect.State.empty.run (collector ctx)
          (marks ctx (-1) (logEvents ctx lines))) lines.length := by
  have hevents := hnext
  rw [readLoop_eq_events] at hevents
  obtain ⟨t, ht, hruns⟩ :=
    (forEach_represents represents_initial ctx _ hevents).finish_closed hall lines.length
  exact ⟨t, by rw [parseLines, hnext]; exact ht, hruns⟩

/-- Under `-a`, a log that is left because a sample finds no memory misses that sample. -/
theorem not_allSamples_of_stop {ctx : Context K} (hall : ctx.opts.statsAllSamples = true)
    {lines : List Buffer} {s : State K} (hstop : readLoop ctx lines .initial = .stop s) :
    ¬ AllSamples ctx lines := by
  rintro ⟨t, r, opened, ht, hreports, hruns, -⟩
  have hevents := hstop
  rw [readLoop_eq_events] at hevents
  rcases forEach_exit (Event.exec ctx) (logEvents ctx lines) .initial with
    ⟨u, hu, -⟩ | ⟨e, u, ⟨front, back, hsplit, hfront⟩, hexec, -⟩
  · rw [hu] at hevents
    contradiction
  · have hrep := forEach_represents represents_initial ctx front hfront
    rw [hevents] at hexec
    obtain ⟨hitem, d, hd, haccount⟩ := hrep.exec_stop hexec
    obtain ⟨t', ht', hclosed⟩ := hd.finish_closed hall lines.length
    have hsame : t = t' := by
      rw [parseLines, hstop] at ht
      simpa using ht.symm.trans ht'
    rw [← hsame] at hclosed
    obtain ⟨k, run, hsingle, hitems⟩ := (closedRuns_single_iff hclosed _).mp ⟨r, opened, hreports, hruns⟩
    -- all samples of the log would have to be among those in front of the lost one
    have hlost : (logSamples ctx lines).length ≤ (items (marks ctx (-1) front)).length := by
      have hsub : (reportedItems (d.closed lines.length)).Sublist d.account := by
        unfold Collect.State.closed Collect.State.account
        split <;> simp [reportedItems]
      rw [haccount] at hsub
      have hfrontSub : (reportedItems (d.closed lines.length)).Sublist
          (items (marks ctx (-1) front)) := hsub.trans (Collect.State.account_run _ .empty _)
      rw [hsingle] at hfrontSub
      simpa [reportedItems, hitems] using hfrontSub.length_le
    obtain ⟨later, hmarks⟩ := marks_append ctx (-1) front (e :: back)
    rw [logSamples, hsplit, hmarks, items_append, marks, List.length_append] at hlost
    obtain ⟨p, hp⟩ := Option.ne_none_iff_exists'.mp (hitem later)
    simp [items, hp] at hlost

/-- Under `-a`, the statistics are those of one run of all samples exactly when every event of the
log lets the parser go on and the log is undivided. -/
theorem allSamples_iff (ctx : Context K) (lines : List Buffer)
    (hall : ctx.opts.statsAllSamples = true) :
    AllSamples ctx lines ↔ AllPass ctx .initial (logEvents ctx lines) ∧
      Undivided (collector ctx) (marks ctx (-1) (logEvents ctx lines)) := by
  rw [← readLoop_next_iff]
  have hcap : 2 ≤ (collector ctx).capacity := show 2 ≤ maxTestRuns by decide
  have hiff {s : State K} (hnext : readLoop ctx lines .initial = .next s) :
      (∃ r opened, (parseLines ctx lines).state.reports = [r] ∧
        r.runs = [Slot.ofRun ⟨opened, logSamples ctx lines⟩]) ↔
        Undivided (collector ctx) (marks ctx (-1) (logEvents ctx lines)) := by
    obtain ⟨t, ht, hruns⟩ := parseLines_closed hall hnext
    rw [ht, Outcome.state_next, closedRuns_single_iff hruns]
    have hevents : forEach (Event.exec ctx) (logEvents ctx lines) .initial = .next s := by
      rw [← readLoop_eq_events, hnext]
    exact closed_iff_undivided hall hcap (itemsBacked_marks represents_initial _ hevents) lines.length
  constructor
  · intro h
    cases hloop : readLoop ctx lines .initial with
    | next s =>
      obtain ⟨t, r, opened, ht, hreports, hruns, -⟩ := h
      exact ⟨⟨s, rfl⟩, (hiff hloop).mp ⟨r, opened, by rw [ht, Outcome.state_next, hreports], hruns⟩⟩
    | stop s => exact absurd h (not_allSamples_of_stop hall hloop)
    | fault f s =>
      obtain ⟨t, r, opened, ht, -⟩ := h
      rw [parseLines, hloop] at ht
      contradiction
  · rintro ⟨⟨s, hnext⟩, hundivided⟩
    obtain ⟨t, ht, -⟩ := parseLines_closed hall hnext
    obtain ⟨r, opened, hreports, hruns⟩ := (hiff hnext).mpr hundivided
    have hanalysis := parseLines_analysis ctx lines r (by rw [hreports]; simp)
    rw [ht, Outcome.state_next] at hreports
    exact ⟨t, r, opened, ht, hreports, hruns, hanalysis⟩

/-- A run filled with points is the bare run filled with the bare points. -/
theorem Slot.ofRun_bare (r : Run (Point K)) :
    (Slot.ofRun r).bare = Slot.ofRun ⟨0, r.items.map Point.bare⟩ := by
  have hstore (items : List (Point K)) (slot : Slot K) :
      (items.foldl Slot.store slot).bare = (items.map Point.bare).foldl Slot.store slot.bare := by
    induction items generalizing slot with
    | nil => rfl
    | cons p items ih =>
      rw [List.foldl_cons, List.map_cons, List.foldl_cons, ih]
      congr 1
      simp only [Slot.store, Slot.dataAppendPoint, Slot.bare, List.map_append, List.map_singleton]
      rfl
  exact hstore r.items (.fresh r.start)

/-- Two logs with the same samples, up to the lines on which they stand, have the same statistics
if both are reported as one run of all samples. -/
theorem AllSamples.analysis_eq {ctx : Context K} {lines lines' : List Buffer}
    (h : AllSamples ctx lines) (h' : AllSamples ctx lines')
    (hsame : (logSamples ctx lines).map Point.bare = (logSamples ctx lines').map Point.bare) :
    (parseLines ctx lines).state.reports.map Report.analysis =
      (parseLines ctx lines').state.reports.map Report.analysis := by
  obtain ⟨s, r, opened, hs, hreports, hruns, hanalysis⟩ := h
  obtain ⟨s', r', opened', hs', hreports', hruns', hanalysis'⟩ := h'
  have hbare (opened : ℕ) (samples : List (Point K)) :
      dataAnalyse ctx.opts ctx.env.sqrt [Slot.ofRun ⟨opened, samples⟩] =
        dataAnalyse ctx.opts ctx.env.sqrt [Slot.ofRun ⟨0, samples.map Point.bare⟩] := by
    rw [← dataAnalyse_bare, List.map_singleton, Slot.ofRun_bare]
  rw [hs, hs', Outcome.state_next, Outcome.state_next, hreports, hreports', List.map_singleton,
    List.map_singleton, hanalysis, hanalysis', hruns, hruns', hbare, hsame, ← hbare]

end

/-- A log with a tag between its samples. -/
def taggedLog : List LogLine :=
  [.ofText "2011-12-02T01:03:41.000000 SAMPLE: 0.25".toList,
    .ofText "2011-12-02T01:03:42.000000 TAG: TEST_RUN_BEGIN".toList,
    .ofText "2011-12-02T01:03:43.000000 SAMPLE: 0.50".toList]

/-- On that log, too, `-a` makes one run of all samples exactly if the log is undivided. -/
theorem taggedLog_allSamples_iff :
    let ctx := plainContext { statsAllSamples := true }
    let lines := logLines zeroBuffer taggedLog
    AllSamples ctx lines ↔ AllPass ctx .initial (logEvents ctx lines) ∧
      Undivided (collector ctx) (marks ctx (-1) (logEvents ctx lines)) :=
  allSamples_iff (plainContext { statsAllSamples := true }) (logLines zeroBuffer taggedLog) rfl

/-- Under `-a`, the tag makes two runs of the samples. -/
theorem taggedLog_not_allSamples :
    ¬ AllSamples (plainContext { statsAllSamples := true }) (logLines zeroBuffer taggedLog) := by
  rintro ⟨s, r, opened, hs, hreports, hruns, -⟩
  have htwo : (parseLines (plainContext { statsAllSamples := true })
      (logLines zeroBuffer taggedLog)).state.reports.map (fun r => r.runs.length) = [2] := by
    decide +kernel
  rw [hs, Outcome.state_next, hreports, List.map_singleton, hruns] at htwo
  exact absurd (List.cons.inj htwo).1 (by simp)

end FlukeTesting.Statstool
