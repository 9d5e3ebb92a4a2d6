import FlukeTesting.Lib.Simulation
import FlukeTesting.Lib.Transport
import FlukeTesting.Statstool.Extremes
import FlukeTesting.Statstool.RunStatistics
import Mathlib.Data.List.Forall2

/-!
# What the scale does to the statistics

The option `-X` multiplies every sample by a factor. A run of the parser with a factor simulates
the run with the factor one: the two go through the same events, open and report the same runs at
the same times, and hold the scaled samples. So the statistics scale with the factor, and the
deviations with its absolute value.
-/

namespace FlukeTesting.Statstool

open Imperative Collect Statistics

section

variable {K : Type*} [Field K]

/-- The program with another factor. -/
def Context.scaled (ctx : Context K) (k : K) : Context K := { ctx with scaleBy := k }

/-- A point with its value multiplied by a factor. -/
def Point.scale (k : K) (p : Point K) : Point K := { p with y := k * p.y }

/-- The marks under a factor are the scaled marks. -/
theorem Event.mark_scaled (ctx : Context K) (k origin : K) (e : Event K × ℕ) :
    Event.mark (ctx.scaled k) origin e = (Event.mark (ctx.scaled 1) origin e).map (Point.scale k) := by
  obtain ⟨event, n⟩ := e
  cases event with
  | sample sec text => simp [Event.mark, Mark.map, Point.scale, Context.scaled, mul_comm]
  | unstrippable | time | testClient | testBegin | testEnd | testRunBegin | testRunEnd => rfl

/-- The collector takes scaled marks to scaled runs. -/
theorem step_mark_scaled (ctx : Context K) (k origin origin' : K) (e : Event K × ℕ)
    (c : Collect.State (Point K)) (h : origin' = origin) :
    (c.map (Point.scale k)).step (collector (ctx.scaled k))
        (Event.mark (ctx.scaled k) origin' e, e.2) =
      (c.step (collector (ctx.scaled 1)) (Event.mark (ctx.scaled 1) origin e, e.2)).map
        (Point.scale k) := by
  rw [h, Event.mark_scaled]
  exact State.step_map (Point.scale k) (collector ctx) c (Event.mark (ctx.scaled 1) origin e, e.2)

variable [LinearOrder K]

/-- Two states of the parser agree but for the values of the samples, which are scaled in the second
one. -/
structure Alike (k : K) (s t : State K) : Prop where
  identity : t.identity = s.identity
  runs : ∃ c, Represents s c ∧ Represents t (c.map (Point.scale k))

/-- The parser starts alike. -/
theorem alike_initial (k : K) : Alike k (.initial : State K) .initial :=
  ⟨rfl, .empty, represents_initial, represents_initial⟩

/-- Two states still are alike if only their clients, tests and time origins have changed, in the
same way. -/
theorem Alike.congr {k : K} {s t s' t' : State K} (h : Alike k s t)
    (hid : t'.identity = s'.identity)
    (hs : ∀ c, Represents s c → Represents s' c) (ht : ∀ c, Represents t c → Represents t' c) :
    Alike k s' t' := by
  obtain ⟨-, c, hc, hd⟩ := h
  exact ⟨hid, c, hs _ hc, ht _ hd⟩

/-- Taking the time of a line leaves the runs alone. -/
theorem Represents.originate {s : State K} {c : Collect.State (Point K)} (h : Represents s c)
    (sec : K) : Represents (s.originate sec) c := by
  unfold State.originate
  split
  · exact h.congr rfl rfl rfl rfl
  · exact h

/-- Alike states take the same time origin. -/
theorem Alike.originate {k : K} {s t : State K} (h : Alike k s t) (sec : K) :
    Alike k (s.originate sec) (t.originate sec) := by
  refine h.congr ?_ (fun c hc => hc.originate sec) (fun c hc => hc.originate sec)
  have hid := h.identity
  simp only [State.identity, Prod.mk.injEq] at hid
  unfold State.originate
  rw [hid.2.2.2.2]
  split
  · simp [State.identity, hid]
  · exact h.identity

/-- Alike states print the text of a tag. -/
theorem Alike.announce {k : K} {s t : State K} (h : Alike k s t) (ctx : Context K)
    (tagged plain : String) (arg : Text) :
    Alike k (announce ctx tagged plain arg s) (announce ctx tagged plain arg t) := by
  refine h.congr ?_ (fun c hc => hc.announce ctx tagged plain arg)
    (fun c hc => hc.announce ctx tagged plain arg)
  rw [announce_identity, announce_identity, h.identity]

/-- Alike states take the same client. -/
theorem Alike.testClient_rel {k : K} {s t : State K} (h : Alike k s t) (ctx : Context K) (n : ℕ)
    (arg : Text) :
    Outcome.Rel (Alike k) (testClient (ctx.scaled 1) n arg s) (testClient (ctx.scaled k) n arg t) := by
  have hprint := h.announce ctx "info:client:" "Client: " arg
  have hid := hprint.identity
  simp only [State.identity, Prod.mk.injEq] at hid
  obtain ⟨hhostname, hkernel, htest, -, hstart⟩ := hid
  change Outcome.Rel (Alike k) (testClient ctx n arg s) (testClient ctx n arg t)
  unfold testClient
  simp only [hhostname, hkernel]
  split
  · refine .next (hprint.congr ?_ (fun c hc => hc.congr rfl rfl rfl rfl)
      (fun c hc => hc.congr rfl rfl rfl rfl))
    simp [State.identity, htest, hstart]
  · exact .fault _ hprint

/-- Alike states take the same test. -/
theorem Alike.testBegin_rel {k : K} {s t : State K} (h : Alike k s t) (ctx : Context K) (arg : Text) :
    Outcome.Rel (Alike k) (testBegin (ctx.scaled 1) arg s) (testBegin (ctx.scaled k) arg t) := by
  have hprint := h.announce ctx "info:test-name:" "Test:   " arg
  have hid := hprint.identity
  simp only [State.identity, Prod.mk.injEq] at hid
  obtain ⟨hhostname, hkernel, htest, harch, hstart⟩ := hid
  change Outcome.Rel (Alike k) (testBegin ctx arg s) (testBegin ctx arg t)
  unfold testBegin
  simp only [htest]
  split
  · refine .next (hprint.congr ?_ (fun c hc => hc.congr rfl rfl rfl rfl)
      (fun c hc => hc.congr rfl rfl rfl rfl))
    simp [State.identity, hhostname, hkernel, harch, hstart]
  · exact .fault _ hprint

/-- Alike states open a run. -/
theorem Alike.testRunBegin_rel {k : K} {s t : State K} (h : Alike k s t) (ctx : Context K) (n : ℕ) :
    Outcome.Rel (Alike k) (testRunBegin n s) (testRunBegin n t) := by
  obtain ⟨hid, c, hc, hd⟩ := h
  obtain ⟨u, hu, hcu⟩ := hc.testRunBegin_eq ctx n
  obtain ⟨v, hv, hdv⟩ := hd.testRunBegin_eq ctx n
  have hsu := testRunBegin_identity n s
  have htv := testRunBegin_identity n t
  rw [hu] at hsu ⊢
  rw [hv] at htv ⊢
  rw [State.start_map] at hdv
  exact .next ⟨htv.trans (hid.trans (Eq.symm hsu)), _, hcu, hdv⟩

/-- Alike states store a point and the scaled point. -/
theorem Alike.storePoint_rel {k : K} {s t : State K} (h : Alike k s t) (hopen : s.testRunBegin = true)
    (ctx : Context K) (p : Point K) :
    Outcome.Rel (Alike k) (storePoint ctx p s) (storePoint ctx (p.scale k) t) := by
  obtain ⟨hid, c, hc, hd⟩ := h
  have hsu := storePoint_identity ctx p s
  have htv := storePoint_identity ctx (p.scale k) t
  have hsame : (storePoint ctx (p.scale k) t).state.identity = (storePoint ctx p s).state.identity :=
    Eq.trans htv (hid.trans (Eq.symm hsu))
  have hcopen : c.isOpen = true := hc.isOpen ▸ hopen
  have hnil : (c.map (Point.scale k)).runs = [] ↔ c.runs = [] := List.map_eq_nil_iff
  rcases hc.storePoint_cases hcopen ctx p with
    ⟨hfail, u, hu, hcu⟩ | ⟨hmem, hruns, hu⟩ | ⟨hmem, hruns, u, hu, hcu⟩
  · rcases hd.storePoint_cases hcopen ctx (p.scale k) with
      ⟨-, v, hv, hdv⟩ | ⟨hmem, -, -⟩ | ⟨hmem, -, -⟩
    · rw [hu, hv] at hsame ⊢
      exact .stop ⟨hsame, _, hcu, hdv⟩
    · exact absurd (hmem.symm.trans hfail) (by decide)
    · exact absurd (hmem.symm.trans hfail) (by decide)
  · rcases hd.storePoint_cases hcopen ctx (p.scale k) with
      ⟨hfail, -, -⟩ | ⟨-, -, hv⟩ | ⟨-, hne, -⟩
    · exact absurd (hmem.symm.trans hfail) (by decide)
    · rw [hu, hv]
      exact .fault _ ⟨hid, _, hc, hd⟩
    · exact absurd (hnil.mpr hruns) hne
  · rcases hd.storePoint_cases hcopen ctx (p.scale k) with
      ⟨hfail, -, -⟩ | ⟨-, hempty, -⟩ | ⟨-, -, v, hv, hdv⟩
    · exact absurd (hmem.symm.trans hfail) (by decide)
    · exact absurd (hnil.mp hempty) hruns
    · rw [State.put_map] at hdv
      rw [hu, hv] at hsame ⊢
      exact .next ⟨hsame, _, hcu, hdv⟩

/-- Alike states have the same run open. -/
theorem Alike.isOpen {k : K} {s t : State K} (h : Alike k s t) :
    t.testRunBegin = s.testRunBegin := by
  obtain ⟨-, c, hc, hd⟩ := h
  rw [hd.isOpen, hc.isOpen]
  rfl

/-- Alike states store a sample and its scaled value. -/
theorem Alike.sample_rel {k : K} {s t : State K} (h : Alike k s t) (ctx : Context K) (n : ℕ) (sec : K)
    (text : Text) :
    Outcome.Rel (Alike k) (sample (ctx.scaled 1) n sec text s)
      (sample (ctx.scaled k) n sec text t) := by
  have hpoint : (⟨sec, sampleValue text * (ctx.scaled k).scaleBy, n⟩ : Point K) =
      Point.scale k ⟨sec, sampleValue text * (ctx.scaled 1).scaleBy, n⟩ := by
    simp [Point.scale, Context.scaled, mul_comm]
  unfold sample
  rw [hpoint, h.isOpen]
  refine Outcome.Rel.bind ?_ fun u v huv => ?_
  · change Outcome.Rel (Alike k) (if ctx.opts.statsAllSamples && !s.testRunBegin then _ else _)
      (if ctx.opts.statsAllSamples && !s.testRunBegin then _ else _)
    split
    · exact h.testRunBegin_rel ctx n
    · exact .next h
  · rw [huv.isOpen]
    split
    · rename_i hopen
      exact huv.storePoint_rel hopen ctx _
    · exact .next huv

/-- Alike states end a test. -/
theorem Alike.testEnd_rel {k : K} {s t : State K} (h : Alike k s t) (ctx : Context K) (n : ℕ) :
    Outcome.Rel (Alike k) (testEnd (ctx.scaled 1) n s) (testEnd (ctx.scaled k) n t) := by
  obtain ⟨hid, c, hc, hd⟩ := h
  have harch : t.arch = s.arch := congrArg (·.2.2.2.1) hid
  have hstart : t.startSecs = s.startSecs := congrArg (·.2.2.2.2) hid
  have hended (o o' : Output K) (hu : testEnd (ctx.scaled 1) n s = .next (s.emit o).ended)
      (hv : testEnd (ctx.scaled k) n t = .next (t.emit o').ended) :
      Outcome.Rel (Alike k) (testEnd (ctx.scaled 1) n s) (testEnd (ctx.scaled k) n t) := by
    have hcu := hc.exec_next (show Event.exec (ctx.scaled 1) (.testEnd, n) s = _ from hu)
    have hdv := hd.exec_next (show Event.exec (ctx.scaled k) (.testEnd, n) t = _ from hv)
    rw [step_mark_scaled ctx k s.startSecs _ _ c hstart] at hdv
    rw [hu, hv]
    refine .next ⟨?_, _, hcu, hdv⟩
    simp only [State.identity, Prod.mk.injEq] at hid
    simp [State.identity, State.ended, State.emit, hid]
  rcases hc.testEnd_cases (ctx.scaled 1) n with
    ⟨hx, hnone, hu⟩ | ⟨hx, hw, hu⟩ | ⟨hx, hw, pieces, hu⟩
  · rcases hd.testEnd_cases (ctx.scaled k) n with ⟨-, -, hv⟩ | ⟨hy, -, -⟩ | ⟨hy, -, -⟩
    · rw [hu, hv]
      exact .fault _ ⟨hid, c, hc.congr rfl rfl rfl rfl, hd.congr rfl rfl rfl rfl⟩
    · exact absurd (harch.trans hnone) (hy hx)
    · exact absurd (harch.trans hnone) (hy hx)
  · rcases hd.testEnd_cases (ctx.scaled k) n with ⟨hy, hnone, -⟩ | ⟨-, -, hv⟩ | ⟨-, hw', -⟩
    · exact absurd (harch.symm.trans hnone) (hx hy)
    · exact hended _ _ hu hv
    · exact absurd (hw'.symm.trans hw) (by decide)
  · rcases hd.testEnd_cases (ctx.scaled k) n with ⟨hy, hnone, -⟩ | ⟨-, hw', -⟩ | ⟨-, -, pieces', hv⟩
    · exact absurd (harch.symm.trans hnone) (hx hy)
    · exact absurd (hw'.symm.trans hw) (by decide)
    · exact hended _ _ hu hv

/-- Alike states stay alike through every event of a log. -/
theorem Alike.exec_rel {k : K} {s t : State K} (h : Alike k s t) (ctx : Context K)
    (e : Event K × ℕ) :
    Outcome.Rel (Alike k) (Event.exec (ctx.scaled 1) e s) (Event.exec (ctx.scaled k) e t) := by
  have hstart : t.startSecs = s.startSecs := congrArg (·.2.2.2.2) h.identity
  obtain ⟨event, n⟩ := e
  cases event with
  | unstrippable => exact .fault _ h
  | time sec => exact .next (h.originate sec)
  | testClient arg => exact h.testClient_rel ctx n arg
  | testBegin arg => exact h.testBegin_rel ctx arg
  | testEnd => exact h.testEnd_rel ctx n
  | testRunBegin => exact h.testRunBegin_rel ctx n
  | testRunEnd =>
    obtain ⟨hid, c, hc, hd⟩ := h
    have hu : Event.exec (ctx.scaled 1) (.testRunEnd, n) s = .next _ := rfl
    have hv : Event.exec (ctx.scaled k) (.testRunEnd, n) t = .next _ := rfl
    exact .next ⟨hid, _, hc.exec_next hu, hd.exec_next hv⟩
  | sample sec text =>
    simp only [Event.exec, hstart]
    exact h.sample_rel ctx n _ text

/-- The report of an open run behind the read loop is a report of the collected runs. -/
theorem Represents.finished {s : State K} {c : Collect.State (Point K)} (h : Represents s c)
    (ctx : Context K) (n : ℕ) :
    Represents (({ s with testRunBegin := false } : State K).emit
        (.report (openReport ctx n (c.runs.map Slot.ofRun))))
      (c.conclude n) where
  toHolds := h.toHolds.congr rfl rfl
  isOpen := rfl
  reports := by
    have hold : ({ s with testRunBegin := false } : State K).reports = s.reports := rfl
    rw [State.reports_emit_report, hold, List.map_append, h.reports, State.conclude, List.map_append]
    rfl

/-- Alike states finish alike. -/
theorem Alike.finish_rel {k : K} {s t : State K} (h : Alike k s t) (ctx : Context K) (n : ℕ) :
    Outcome.Rel (Alike k) (finish (ctx.scaled 1) n s) (finish (ctx.scaled k) n t) := by
  have hopen := h.isOpen
  obtain ⟨hid, c, hc, hd⟩ := h
  rw [hc.finish_eq, hd.finish_eq, hopen]
  change Outcome.Rel _ (.next (if ctx.opts.statsAllSamples && _ then _ else _))
    (.next (if ctx.opts.statsAllSamples && _ then _ else _))
  split
  · refine .next ⟨hid, _, hc.finished (ctx.scaled 1) n, ?_⟩
    rw [← State.conclude_map]
    exact hd.finished (ctx.scaled k) n
  · exact .next ⟨hid, c, hc, hd⟩

/-- Parsing a log with a factor simulates parsing it with the factor one. -/
theorem parseLines_rel (ctx : Context K) (k : K) (lines : List Buffer) :
    Outcome.Rel (Alike k) (parseLines (ctx.scaled 1) lines) (parseLines (ctx.scaled k) lines) := by
  have hloop : Outcome.Rel (Alike k) (readLoop (ctx.scaled 1) lines .initial)
      (readLoop (ctx.scaled k) lines .initial) := by
    rw [readLoop_eq_events, readLoop_eq_events]
    exact forEach_rel (fun e s t h => h.exec_rel ctx e) (logEvents ctx lines) (alike_initial k)
  unfold parseLines
  generalize readLoop (ctx.scaled 1) lines .initial = o at hloop
  generalize readLoop (ctx.scaled k) lines .initial = o' at hloop
  cases hloop with
  | next h => exact h.finish_rel ctx lines.length
  | stop h => exact h.finish_rel ctx lines.length
  | fault f h => exact .fault f h

/-! ## The statistics of the runs -/

/-- The slot of a run with scaled samples has the same times. -/
theorem Slot.ofRun_scale_times (k : K) (r : Run (Point K)) :
    (Slot.ofRun (r.map (Point.scale k))).xMin = (Slot.ofRun r).xMin ∧
      (Slot.ofRun (r.map (Point.scale k))).xMax = (Slot.ofRun r).xMax := by
  have htimes : (r.map (Point.scale k)).items.map Point.x = r.items.map Point.x := by
    rw [Run.map, List.map_map]
    rfl
  rw [Slot.xMin_ofRun, Slot.xMin_ofRun, Slot.xMax_ofRun, Slot.xMax_ofRun, htimes]
  exact ⟨rfl, rfl⟩

/-- A run of at least two samples with a duration. -/
structure Slot.Measured (slot : Slot K) : Prop where
  samples : 2 ≤ slot.points.length
  duration : slot.xMax - slot.xMin ≠ 0

/-- The statistics of a run under a factor. -/
structure RunStats.ScaledBy (k : K) (r r' : RunStats K) : Prop where
  duration : r'.duration = r.duration
  integral : r'.integral = k * r.integral
  averageCurrent : r'.averageCurrent = k * r.averageCurrent
  stdDev : r'.stdDev = |k| * r.stdDev

/-- The statistics of all runs together under a factor. -/
structure Summary.ScaledBy (k : K) (a a' : Summary K) : Prop where
  averageDuration : a'.average .duration = a.average .duration
  averageIntegral : a'.average .integral = k * a.average .integral
  averageCurrent : a'.average .averageCurrent = k * a.average .averageCurrent
  averageDeviation : a'.average .stdDev = |k| * a.average .stdDev
  stddevDuration : a'.stddev .duration = a.stddev .duration
  stddevIntegral : a'.stddev .integral = |k| * a.stddev .integral
  stddevCurrent : a'.stddev .averageCurrent = |k| * a.stddev .averageCurrent
  stddevDeviation : a'.stddev .stdDev = |k| * a.stddev .stdDev

/-- A report under a factor: it is of as many runs, and the statistics scale. -/
structure Report.ScaledBy (k : K) (r r' : Report K) : Prop where
  runs : r'.runs.length = r.runs.length
  perRun : ∀ (i : ℕ) (slot : Slot K), r.runs[i]? = some slot → slot.Measured →
    ∃ a a', r.analysis.perRun[i]? = some a ∧ r'.analysis.perRun[i]? = some a' ∧
      RunStats.ScaledBy k a a'
  summary : (∀ slot ∈ r.runs, slot.Measured) →
    Option.Rel (Summary.ScaledBy k) r.analysis.summary r'.analysis.summary

variable [IsStrictOrderedRing K]

/-- The statistics of a run with scaled samples are scaled. -/
theorem analyseRun_scaledBy {sqrt : K → K} (hsqrt : ExactSqrt sqrt) (k : K) (r : Run (Point K)) :
    (analyseRun sqrt (Slot.ofRun r)).ScaledBy k
      (analyseRun sqrt (Slot.ofRun (r.map (Point.scale k)))) := by
  obtain ⟨hmin, hmax⟩ := Slot.ofRun_scale_times k r
  have hcurve : (Slot.ofRun (r.map (Point.scale k))).curve =
      (Slot.ofRun r).curve.map (Polyline.scale k) := by
    rw [Slot.curve, Slot.curve, Slot.points_ofRun, Slot.points_ofRun, Run.map, List.map_map,
      List.map_map]
    rfl
  have hduration : (analyseRun sqrt (Slot.ofRun (r.map (Point.scale k)))).duration =
      (analyseRun sqrt (Slot.ofRun r)).duration := congrArg₂ (· - ·) hmax hmin
  have hintegral : (analyseRun sqrt (Slot.ofRun (r.map (Point.scale k)))).integral =
      k * (analyseRun sqrt (Slot.ofRun r)).integral := by
    rw [analyseRun_integral, analyseRun_integral, hcurve, Polyline.area_scale]
  have haverage : (analyseRun sqrt (Slot.ofRun (r.map (Point.scale k)))).averageCurrent =
      k * (analyseRun sqrt (Slot.ofRun r)).averageCurrent := by
    calc (analyseRun sqrt (Slot.ofRun (r.map (Point.scale k)))).averageCurrent
        = k * (analyseRun sqrt (Slot.ofRun r)).integral /
            (analyseRun sqrt (Slot.ofRun r)).duration := by rw [← hintegral, ← hduration]; rfl
      _ = k * (analyseRun sqrt (Slot.ofRun r)).averageCurrent := mul_div_assoc _ _ _
  refine ⟨hduration, hintegral, haverage, ?_⟩
  rw [analyseRun_stdDev, analyseRun_stdDev, haverage, hcurve, Polyline.heights_scale,
    meanSquare_map_mul]
  exact hsqrt.sqrt_mul_self_mul k (meanSquare_nonneg _ _)

/-- The summary of a statistic that scales in every run scales. -/
theorem calcAverageStddev_scale {sqrt : K → K} (hsqrt : ExactSqrt sqrt) (k : K) (j : Stat)
    (data data' : List (RunStats K))
    (h : data'.map (RunStats.stats · j) = (data.map (RunStats.stats · j)).map (k * ·)) :
    (calcAverageStddev sqrt data').average j = k * (calcAverageStddev sqrt data).average j ∧
      (calcAverageStddev sqrt data').stddev j = |k| * (calcAverageStddev sqrt data).stddev j := by
  have hvariance : 0 ≤ variance (data.map (RunStats.stats · j)) := meanSquare_nonneg _ _
  rw [calcAverageStddev_average, calcAverageStddev_average, calcAverageStddev_stddev,
    calcAverageStddev_stddev, h, mean_map_mul, variance_map_mul,
    hsqrt.sqrt_mul_self_mul k hvariance]
  exact ⟨rfl, rfl⟩

/-- The summary of runs with scaled samples is scaled. -/
theorem calcAverageStddev_scaledBy {sqrt : K → K} (hsqrt : ExactSqrt sqrt) (k : K)
    (runs : List (Run (Point K))) :
    (calcAverageStddev sqrt (runs.map fun r => analyseRun sqrt (Slot.ofRun r))).ScaledBy k
      (calcAverageStddev sqrt
        (runs.map fun r => analyseRun sqrt (Slot.ofRun (r.map (Point.scale k))))) := by
  have hscale (factor : K) (j : Stat)
      (h : ∀ a a' : RunStats K, a.ScaledBy k a' → a'.stats j = factor * a.stats j) :=
    calcAverageStddev_scale hsqrt factor j
      (runs.map fun r => analyseRun sqrt (Slot.ofRun r))
      (runs.map fun r => analyseRun sqrt (Slot.ofRun (r.map (Point.scale k)))) <| by
        simp only [List.map_map]
        exact List.map_congr_left fun r _ => h _ _ (analyseRun_scaledBy hsqrt k r)
  have hduration := hscale 1 .duration fun a a' h => h.duration.trans (one_mul _).symm
  rw [abs_one, one_mul, one_mul] at hduration
  have hintegral := hscale k .integral fun a a' h => h.integral
  have hcurrent := hscale k .averageCurrent fun a a' h => h.averageCurrent
  have hdeviation := hscale |k| .stdDev fun a a' h => h.stdDev
  rw [abs_abs] at hdeviation
  exact ⟨hduration.1, hintegral.1, hcurrent.1, hdeviation.1, hduration.2, hintegral.2, hcurrent.2,
    hdeviation.2⟩

/-- Reports of the same runs with scaled samples scale. -/
theorem dataAnalyse_scaledBy (ctx : Context K) (hsqrt : ExactSqrt ctx.env.sqrt) (k : K)
    (runs : List (Run (Point K))) {r r' : Report K} (hr : r.runs = runs.map Slot.ofRun)
    (hr' : r'.runs = runs.map fun run => Slot.ofRun (run.map (Point.scale k)))
    (ha : r.analysis = dataAnalyse ctx.opts ctx.env.sqrt r.runs)
    (ha' : r'.analysis = dataAnalyse ctx.opts ctx.env.sqrt r'.runs) : r.ScaledBy k r' := by
  refine ⟨by rw [hr, hr', List.length_map, List.length_map], ?_, fun _ => ?_⟩
  · intro i slot hslot _
    rw [hr, List.getElem?_map, Option.map_eq_some_iff] at hslot
    obtain ⟨run, hrun, rfl⟩ := hslot
    refine ⟨_, _, ?_, ?_, analyseRun_scaledBy hsqrt k run⟩
    · simp [ha, dataAnalyse, hr, hrun]
    · simp [ha', dataAnalyse, hr', hrun]
  · rw [ha, ha', hr, hr']
    unfold dataAnalyse
    dsimp only
    rw [List.map_map, List.map_map]
    split
    · exact .some (calcAverageStddev_scaledBy hsqrt k runs)
    · exact .none

/-- The reports of a log under a factor are those without it, scaled: there are as many, of as many
runs, and the statistics scale with the factor and the deviations with its absolute value. -/
theorem dataParse_scaledBy (ctx : Context K) (hsqrt : ExactSqrt ctx.env.sqrt) (k : K)
    (junk : Buffer) (file : Text) :
    List.Forall₂ (Report.ScaledBy k) (dataParse (ctx.scaled 1) junk file).state.reports
      (dataParse (ctx.scaled k) junk file).state.reports := by
  unfold dataParse
  generalize frames junk (chunks file) = lines
  obtain ⟨-, c, hc, hd⟩ := (parseLines_rel ctx k lines).state
  -- both lists of reports come from the reports of the collector
  have hruns : List.Forall₂ (fun r r' : Report K => ∃ runs : List (Run (Point K)),
      r.runs = runs.map Slot.ofRun ∧
        r'.runs = runs.map fun run => Slot.ofRun (run.map (Point.scale k)))
      (parseLines (ctx.scaled 1) lines).state.reports
      (parseLines (ctx.scaled k) lines).state.reports := by
    have hpairs : List.Forall₂ (fun p p' : ℕ × List (Slot K) => ∃ runs : List (Run (Point K)),
        p.2 = runs.map Slot.ofRun ∧
          p'.2 = runs.map fun run => Slot.ofRun (run.map (Point.scale k)))
        ((parseLines (ctx.scaled 1) lines).state.reports.map fun r => (r.line, r.runs))
        ((parseLines (ctx.scaled k) lines).state.reports.map fun r => (r.line, r.runs)) := by
      rw [hc.reports, hd.reports, State.map, List.map_map, List.forall₂_map_left_iff,
        List.forall₂_map_right_iff, List.forall₂_same]
      exact fun p _ => ⟨p.2, rfl, List.map_map⟩
    rwa [List.forall₂_map_left_iff, List.forall₂_map_right_iff] at hpairs
  have hleft := (List.forall₂_and_left _ _).mpr ⟨parseLines_analysis (ctx.scaled 1) lines, hruns⟩
  have hboth := (List.forall₂_and_left _ _).mpr
    ⟨parseLines_analysis (ctx.scaled k) lines, hleft.flip⟩
  apply hboth.flip.imp
  intro r r'
  rintro ⟨ha', ha, runs, hr, hr'⟩
  exact dataAnalyse_scaledBy ctx hsqrt k runs hr hr' ha ha'

end

/-- The program on the reals, with a successful environment. -/
noncomputable def realContext (opts : Opts) : Context ℝ where
  opts := opts.complete
  scaleBy := 1
  env :=
    { sqrt := Real.sqrt
      utcOffset := plainEnv.utcOffset
      calloc := plainEnv.calloc
      fopen := plainEnv.fopen
      tm := plainEnv.tm
      buf := plainEnv.buf }

/-- A log of one run with two samples. -/
def twoSampleLog : List LogLine :=
  [.ofText "2011-12-02T07:13:40.000000 TAG: TEST_RUN_BEGIN".toList,
    .ofText "2011-12-02T07:13:41.000000 SAMPLE: 0.25".toList,
    .ofText "2011-12-02T07:13:42.000000 SAMPLE: 0.50".toList,
    .ofText "2011-12-02T07:13:43.000000 TAG: TEST_RUN_END".toList,
    .ofText "2011-12-02T07:13:44.000000 TAG: TEST_END".toList]

/-- Its statistics with a change of sign. -/
theorem twoSampleLog_scaledBy :
    List.Forall₂ (Report.ScaledBy (-2))
      (dataParse ((realContext {}).scaled 1) zeroBuffer (logFile twoSampleLog)).state.reports
      (dataParse ((realContext {}).scaled (-2)) zeroBuffer (logFile twoSampleLog)).state.reports :=
  dataParse_scaledBy (realContext {}) exactSqrt_real (-2) zeroBuffer (logFile twoSampleLog)

end FlukeTesting.Statstool
