import FlukeTesting.Statstool.Extremes
import FlukeTesting.Statstool.RunStatistics
import Mathlib.Data.Nat.Cast.Order.Ring

/-!
# Where the statistics divide by zero

The statistics of a run divide by its duration and by its number of consecutive pairs of samples,
those of a test by its number of runs. None of the divisions is guarded. Along a log the divisors
are all different from zero exactly when every run that is reported has two samples or more that
are not all taken at one time, and every report with a summary has a run.
-/

namespace FlukeTesting.Statstool

open Imperative Collect

section

variable {K : Type*} [Field K]

/-- The second loop counts the pairs of consecutive points. -/
theorem deviationLoop_samples (average : K) (points : List (Point K)) (total : K) (samples : ℕ) :
    (deviationLoop average points total samples).2 = samples + (points.length - 1) := by
  rw [deviationLoop_eq, Polyline.heights_length, List.length_map]

/-- The divisor of the deviation of a run is its number of pairs. -/
theorem analyseRun_samples (sqrt : K → K) (slot : Slot K) :
    (analyseRun sqrt slot).samples = slot.points.length - 1 := by
  have h := deviationLoop_samples (analyseRun sqrt slot).averageCurrent slot.points 0 0
  rwa [Nat.zero_add] at h

/-- The divisors of a report are those of its runs and, with a summary, the number of runs. -/
theorem divisors_ne_zero_iff (opts : Opts) (sqrt : K → K) (runs : List (Slot K)) :
    (∀ d ∈ (dataAnalyse opts sqrt runs).divisors, d ≠ 0) ↔
      (∀ slot ∈ runs, slot.xMax - slot.xMin ≠ 0 ∧ ((slot.points.length - 1 : ℕ) : K) ≠ 0) ∧
        (opts.statsSummary = true → (runs.length : K) ≠ 0) := by
  have hrun (slot : Slot K) : (analyseRun sqrt slot).duration = slot.xMax - slot.xMin := rfl
  have hruns : (∀ d ∈ (runs.map (analyseRun sqrt)).flatMap fun r => [r.duration, (r.samples : K)],
      d ≠ 0) ↔
      ∀ slot ∈ runs, slot.xMax - slot.xMin ≠ 0 ∧ ((slot.points.length - 1 : ℕ) : K) ≠ 0 := by
    simp only [List.mem_flatMap, List.mem_map, List.mem_cons, List.not_mem_nil, or_false]
    constructor
    · intro h slot hslot
      rw [← hrun slot, ← analyseRun_samples sqrt slot]
      exact ⟨h _ ⟨_, ⟨slot, hslot, rfl⟩, Or.inl rfl⟩, h _ ⟨_, ⟨slot, hslot, rfl⟩, Or.inr rfl⟩⟩
    · rintro h d ⟨r, ⟨slot, hslot, rfl⟩, rfl | rfl⟩
      · exact (h slot hslot).1
      · rw [analyseRun_samples]
        exact (h slot hslot).2
  have hsummary : (dataAnalyse opts sqrt runs).summary.isSome = opts.statsSummary := by
    cases hopts : opts.statsSummary <;> simp [dataAnalyse, hopts]
  rw [Analysis.divisors, List.forall_mem_append, hsummary]
  apply and_congr hruns
  cases opts.statsSummary <;> simp [dataAnalyse, Stat.all]

variable [LinearOrder K]

/-- The least and the greatest time of a slot are times of its points or the values that a new
run starts with, and all times lie between them. -/
structure Slot.Spanned (slot : Slot K) : Prop where
  min_le : slot.xMin ≤ 1000000
  le_max : -1000000 ≤ slot.xMax
  min_le_x : ∀ p ∈ slot.points, slot.xMin ≤ p.x
  x_le_max : ∀ p ∈ slot.points, p.x ≤ slot.xMax
  min_mem : slot.xMin = 1000000 ∨ ∃ p ∈ slot.points, p.x = slot.xMin
  max_mem : slot.xMax = -1000000 ∨ ∃ p ∈ slot.points, p.x = slot.xMax

/-- The slot of a collected run has the least and the greatest time of its points. -/
theorem Slot.spanned_ofRun (r : Run (Point K)) : (Slot.ofRun r).Spanned := by
  obtain ⟨hmin, hlower⟩ := Extent.isLeast_lower 1000000 (r.items.map Point.x)
  obtain ⟨hmax, hupper⟩ := Extent.isGreatest_upper (-1000000) (r.items.map Point.x)
  rw [← Slot.xMin_ofRun] at hmin hlower
  rw [← Slot.xMax_ofRun] at hmax hupper
  have hitem {p : Point K} (hp : p ∈ (Slot.ofRun r).points) (start : K) :
      p.x ∈ start :: r.items.map Point.x :=
    List.mem_cons_of_mem _ (List.mem_map_of_mem (Slot.points_ofRun r ▸ hp))
  have hpoint {x : K} (hx : x ∈ r.items.map Point.x) : ∃ p ∈ (Slot.ofRun r).points, p.x = x := by
    rw [Slot.points_ofRun]
    exact List.mem_map.mp hx
  exact
    { min_le := hlower List.mem_cons_self
      le_max := hupper List.mem_cons_self
      min_le_x := fun p hp => hlower (hitem hp _)
      x_le_max := fun p hp => hupper (hitem hp _)
      min_mem := (List.mem_cons.mp hmin).imp_right hpoint
      max_mem := (List.mem_cons.mp hmax).imp_right hpoint }

/-- All points of a slot are taken at the given time, which lies between the values that a new run
starts with. -/
structure Slot.AtTime (slot : Slot K) (v : K) : Prop where
  lower : -1000000 ≤ v
  upper : v ≤ 1000000
  eq : ∀ p ∈ slot.points, p.x = v

/-- All points of a slot are taken at one time. -/
def Slot.AtOneTime (slot : Slot K) : Prop := ∃ v, slot.AtTime v

/-- A slot with points has no duration exactly if they are all taken at one time. -/
theorem Slot.Spanned.duration_eq_zero_iff {slot : Slot K} (h : slot.Spanned)
    (hne : slot.points ≠ []) : slot.xMax - slot.xMin = 0 ↔ slot.AtOneTime := by
  rw [sub_eq_zero]
  constructor
  · intro hsame
    refine ⟨slot.xMin, h.le_max.trans_eq hsame, h.min_le, fun p hp => ?_⟩
    exact le_antisymm ((h.x_le_max p hp).trans_eq hsame) (h.min_le_x p hp)
  · rintro ⟨v, hlower, hupper, hv⟩
    obtain ⟨q, hq⟩ := List.exists_mem_of_ne_nil _ hne
    have hmin : slot.xMin = v := by
      rcases h.min_mem with hstart | ⟨p, hp, hx⟩
      · apply le_antisymm ((h.min_le_x q hq).trans_eq (hv q hq))
        exact hupper.trans_eq hstart.symm
      · exact hx.symm.trans (hv p hp)
    have hmax : slot.xMax = v := by
      rcases h.max_mem with hstart | ⟨p, hp, hx⟩
      · apply le_antisymm (hstart.trans_le hlower)
        exact (hv q hq).symm.trans_le (h.x_le_max q hq)
      · exact hx.symm.trans (hv p hp)
    rw [hmin, hmax]

/-- The runs can be analysed: each has two points or more, not all at one time, and there is a run
if there is a summary. -/
def Measurable (opts : Opts) (runs : List (Slot K)) : Prop :=
  (∀ slot ∈ runs, 2 ≤ slot.points.length ∧ ¬ slot.AtOneTime) ∧
    (opts.statsSummary = true → runs ≠ [])

/-- No report of a log divides by zero. -/
def DivisorsNonzero (ctx : Context K) (lines : List Buffer) : Prop :=
  ∀ r ∈ (parseLines ctx lines).state.reports, ∀ d ∈ r.analysis.divisors, d ≠ 0

/-- The runs that are collected can be analysed wherever a report is made of them: at the end of a
test, and under `-a` behind the read loop if a run is open. -/
structure ReportsMeasurable (ctx : Context K) (lines : List Buffer) : Prop where
  ends : ∀ n s, Meets ctx lines (.testEnd, n) s → EndReports ctx n s →
    Measurable ctx.opts s.collected
  last : ∀ s, LeftWith ctx lines s → (ctx.opts.statsAllSamples && s.testRunBegin) = true →
    Measurable ctx.opts s.collected

variable [IsStrictOrderedRing K]

/-- The divisors on the slots of collected runs are not zero exactly if the runs can be
analysed. -/
theorem Represents.divisors_iff {s : State K} {c : Collect.State (Point K)} (h : Represents s c)
    (opts : Opts) (sqrt : K → K) :
    (∀ d ∈ (dataAnalyse opts sqrt s.collected).divisors, d ≠ 0) ↔
      Measurable opts s.collected := by
  rw [divisors_ne_zero_iff]
  refine and_congr (forall₂_congr fun slot hslot => ?_) (imp_congr_right fun _ => ?_)
  · have hspanned : slot.Spanned := by
      rw [h.toHolds.collected_eq] at hslot
      obtain ⟨r, -, rfl⟩ := List.mem_map.mp hslot
      exact Slot.spanned_ofRun r
    have hpairs : ((slot.points.length - 1 : ℕ) : K) ≠ 0 ↔ 2 ≤ slot.points.length := by
      rw [Nat.cast_ne_zero]
      omega
    rw [hpairs, and_comm]
    refine and_congr_right fun htwo => not_congr (hspanned.duration_eq_zero_iff fun hnil => ?_)
    rw [hnil, List.length_nil] at htwo
    exact absurd htwo (by decide)
  · rw [Nat.cast_ne_zero, Ne, List.length_eq_zero_iff]

/-- Along a log no divisor of the statistics is zero exactly when all reported runs can be
analysed. -/
theorem divisorsNonzero_iff (ctx : Context K) (lines : List Buffer) :
    DivisorsNonzero ctx lines ↔ ReportsMeasurable ctx lines := by
  constructor
  · intro h
    refine ⟨fun n s hs hrep => ?_, fun s hs hopen => ?_⟩
    · obtain ⟨c, hc⟩ := Visits.represents hs.reaches
      apply (hc.divisors_iff ctx.opts ctx.env.sqrt).mp
      exact h _ ((mem_parseLines_reports_iff ctx lines _).mpr (Or.inl ⟨n, s, hs, hrep, rfl⟩))
    · obtain ⟨c, hc⟩ := hs.represents
      apply (hc.divisors_iff ctx.opts ctx.env.sqrt).mp
      exact h _ ((mem_parseLines_reports_iff ctx lines _).mpr (Or.inr ⟨s, hs, hopen, rfl⟩))
  · intro h r hr
    rcases (mem_parseLines_reports_iff ctx lines r).mp hr with
      ⟨n, s, hs, hrep, rfl⟩ | ⟨s, hs, hopen, rfl⟩
    · obtain ⟨c, hc⟩ := Visits.represents hs.reaches
      exact (hc.divisors_iff ctx.opts ctx.env.sqrt).mpr (h.ends n s hs hrep)
    · obtain ⟨c, hc⟩ := hs.represents
      exact (hc.divisors_iff ctx.opts ctx.env.sqrt).mpr (h.last s hs hopen)

end

/-- A test with a run that is too short for a second sample. -/
def shortRunLog : List LogLine :=
  [.ofText "2011-12-02T02:13:40.000000 TAG: TEST_BEGIN idle".toList,
    .ofText "2011-12-02T02:13:41.000000 TAG: TEST_RUN_BEGIN idle".toList,
    .ofText "2011-12-02T02:13:42.000000 SAMPLE: 0.25".toList,
    .ofText "2011-12-02T02:13:43.000000 TAG: TEST_RUN_END idle".toList,
    .ofText "2011-12-02T02:13:44.000000 TAG: TEST_END idle".toList]

/-- On that log, too, the divisors are not zero exactly if the run can be analysed. -/
theorem shortRunLog_divisorsNonzero_iff :
    DivisorsNonzero (plainContext {}) (logLines zeroBuffer shortRunLog) ↔
      ReportsMeasurable (plainContext {}) (logLines zeroBuffer shortRunLog) :=
  divisorsNonzero_iff (plainContext {}) (logLines zeroBuffer shortRunLog)

/-- The statistics of the run divide by zero. -/
theorem shortRunLog_divides_by_zero :
    ¬ DivisorsNonzero (plainContext {}) (logLines zeroBuffer shortRunLog) := by
  intro h
  have hzero : (parseLines (plainContext {}) (logLines zeroBuffer shortRunLog)).state.reports.any
      (fun r => r.analysis.divisors.any fun d => decide (d = 0)) = true := by
    decide +kernel
  obtain ⟨r, hr, hdivisors⟩ := List.any_eq_true.mp hzero
  obtain ⟨d, hd, hd0⟩ := List.any_eq_true.mp hdivisors
  exact h r hr d hd (of_decide_eq_true hd0)

end FlukeTesting.Statstool
