import FlukeTesting.Lib.Extent
import FlukeTesting.Statstool.Segmentation

/-!
# The extremes of a run

The least and the greatest time and value of a run are kept while its samples are stored. They
start from one million and minus one million, which are not infinite: a run whose samples all lie
beyond such a start value keeps the start value, and its duration is wrong with it.
-/

namespace FlukeTesting.Statstool

open Imperative Collect

section

variable {K : Type*} [LinearOrder K]

/-- Storing points moves each extreme by its own coordinate. -/
theorem foldl_store_extremes (items : List (Point K)) (slot : Slot K) :
    (items.foldl Slot.store slot).xMin = Extent.lower slot.xMin (items.map Point.x) ∧
      (items.foldl Slot.store slot).xMax = Extent.upper slot.xMax (items.map Point.x) ∧
      (items.foldl Slot.store slot).yMin = Extent.lower slot.yMin (items.map Point.y) ∧
      (items.foldl Slot.store slot).yMax = Extent.upper slot.yMax (items.map Point.y) := by
  induction items generalizing slot with
  | nil => exact ⟨rfl, rfl, rfl, rfl⟩
  | cons p items ih => exact ih (slot.store p)

/-- The times of the points do not decrease. -/
def Slot.Chronological (slot : Slot K) : Prop := slot.points.Pairwise fun p q => p.x ≤ q.x

/-- In a run whose times do not decrease, the first and the last point have the least and the
greatest time. -/
theorem Slot.Chronological.extremes {slot : Slot K} (h : slot.Chronological) {first last : Point K}
    (hfirst : first ∈ slot.points.head?) (hlast : last ∈ slot.points.getLast?) :
    IsLeast {x | x ∈ slot.points.map Point.x} first.x ∧
      IsGreatest {x | x ∈ slot.points.map Point.x} last.x := by
  unfold Slot.Chronological at h
  constructor
  · obtain ⟨rest, hrest⟩ := List.head?_eq_some_iff.mp hfirst
    rw [hrest] at h ⊢
    refine ⟨List.mem_map_of_mem List.mem_cons_self, ?_⟩
    intro x hx
    obtain ⟨p, hp, rfl⟩ := List.mem_map.mp hx
    rcases List.mem_cons.mp hp with rfl | hp
    · exact le_rfl
    · exact (List.pairwise_cons.mp h).1 p hp
  · obtain ⟨front, hfront⟩ := List.getLast?_eq_some_iff.mp hlast
    rw [hfront] at h ⊢
    refine ⟨List.mem_map_of_mem (by simp), ?_⟩
    intro x hx
    obtain ⟨p, hp, rfl⟩ := List.mem_map.mp hx
    rcases List.mem_append.mp hp with hp | hp
    · exact (List.pairwise_append.mp h).2.2 p hp last (List.mem_singleton_self last)
    · exact (congrArg Point.x (List.mem_singleton.mp hp)).le

variable [Field K]

/-- The points of the slot of a collected run are its samples. -/
@[simp] theorem Slot.points_ofRun (r : Run (Point K)) : (Slot.ofRun r).points = r.items :=
  congrArg Run.items (Slot.run_ofRun r)

/-- The least time of a run starts from one million. -/
theorem Slot.xMin_ofRun (r : Run (Point K)) :
    (Slot.ofRun r).xMin = Extent.lower 1000000 (r.items.map Point.x) :=
  (foldl_store_extremes r.items _).1

/-- The greatest time of a run starts from minus one million. -/
theorem Slot.xMax_ofRun (r : Run (Point K)) :
    (Slot.ofRun r).xMax = Extent.upper (-1000000) (r.items.map Point.x) :=
  (foldl_store_extremes r.items _).2.1

/-- The least value of a run starts from one million. -/
theorem Slot.yMin_ofRun (r : Run (Point K)) :
    (Slot.ofRun r).yMin = Extent.lower 1000000 (r.items.map Point.y) :=
  (foldl_store_extremes r.items _).2.2.1

/-- The greatest value of a run starts from minus one million. -/
theorem Slot.yMax_ofRun (r : Run (Point K)) :
    (Slot.ofRun r).yMax = Extent.upper (-1000000) (r.items.map Point.y) :=
  (foldl_store_extremes r.items _).2.2.2

/-- The extremes of a slot are those of its points, and the duration is the time between its first
and its last point if the times do not decrease. -/
structure Slot.TrueExtremes (sqrt : K → K) (slot : Slot K) : Prop where
  xMin : IsLeast {x | x ∈ slot.points.map Point.x} slot.xMin
  xMax : IsGreatest {x | x ∈ slot.points.map Point.x} slot.xMax
  yMin : IsLeast {y | y ∈ slot.points.map Point.y} slot.yMin
  yMax : IsGreatest {y | y ∈ slot.points.map Point.y} slot.yMax
  duration : slot.Chronological → ∀ first ∈ slot.points.head?, ∀ last ∈ slot.points.getLast?,
    (analyseRun sqrt slot).duration = last.x - first.x

/-- Some point of a slot does not lie beyond each of the values that the extremes start from. -/
structure Slot.InReach (slot : Slot K) : Prop where
  xMin : ∃ p ∈ slot.points, p.x ≤ 1000000
  xMax : ∃ p ∈ slot.points, -1000000 ≤ p.x
  yMin : ∃ p ∈ slot.points, p.y ≤ 1000000
  yMax : ∃ p ∈ slot.points, -1000000 ≤ p.y

/-- The slot of a collected run has its true extremes exactly if its points are in reach of the
values that the extremes start from. -/
theorem Slot.trueExtremes_ofRun_iff (sqrt : K → K) (r : Run (Point K)) :
    (Slot.ofRun r).TrueExtremes sqrt ↔ (Slot.ofRun r).InReach := by
  have hx (a : K) : (∃ v ∈ r.items.map Point.x, v ≤ a) ↔ ∃ p ∈ r.items, p.x ≤ a := by simp
  have hx' (a : K) : (∃ v ∈ r.items.map Point.x, a ≤ v) ↔ ∃ p ∈ r.items, a ≤ p.x := by simp
  have hy (a : K) : (∃ v ∈ r.items.map Point.y, v ≤ a) ↔ ∃ p ∈ r.items, p.y ≤ a := by simp
  have hy' (a : K) : (∃ v ∈ r.items.map Point.y, a ≤ v) ↔ ∃ p ∈ r.items, a ≤ p.y := by simp
  constructor
  · intro h
    obtain ⟨hxMin, hxMax, hyMin, hyMax, -⟩ := h
    rw [Slot.points_ofRun, Slot.xMin_ofRun, Extent.isLeast_lower_iff, hx] at hxMin
    rw [Slot.points_ofRun, Slot.xMax_ofRun, Extent.isGreatest_upper_iff, hx'] at hxMax
    rw [Slot.points_ofRun, Slot.yMin_ofRun, Extent.isLeast_lower_iff, hy] at hyMin
    rw [Slot.points_ofRun, Slot.yMax_ofRun, Extent.isGreatest_upper_iff, hy'] at hyMax
    constructor <;> rw [Slot.points_ofRun] <;> assumption
  · intro h
    obtain ⟨hxMin, hxMax, hyMin, hyMax⟩ := h
    rw [Slot.points_ofRun, ← hx, ← Extent.isLeast_lower_iff, ← Slot.xMin_ofRun,
      ← Slot.points_ofRun] at hxMin
    rw [Slot.points_ofRun, ← hx', ← Extent.isGreatest_upper_iff, ← Slot.xMax_ofRun,
      ← Slot.points_ofRun] at hxMax
    rw [Slot.points_ofRun, ← hy, ← Extent.isLeast_lower_iff, ← Slot.yMin_ofRun,
      ← Slot.points_ofRun] at hyMin
    rw [Slot.points_ofRun, ← hy', ← Extent.isGreatest_upper_iff, ← Slot.yMax_ofRun,
      ← Slot.points_ofRun] at hyMax
    refine ⟨hxMin, hxMax, hyMin, hyMax, fun hchron first hfirst last hlast => ?_⟩
    obtain ⟨hleast, hgreatest⟩ := hchron.extremes hfirst hlast
    change (Slot.ofRun r).xMax - (Slot.ofRun r).xMin = last.x - first.x
    rw [hxMin.unique hleast, hxMax.unique hgreatest]

/-- All runs collected along a log that hold a sample have their true extremes. -/
def ExtremesTrue (ctx : Context K) (lines : List Buffer) : Prop :=
  ∀ s, Visits ctx lines s → ∀ slot ∈ s.collected, slot.points ≠ [] →
    slot.TrueExtremes ctx.env.sqrt

/-- All runs collected along a log that hold a sample are in reach of the values that their
extremes start from. -/
def RunsInReach (ctx : Context K) (lines : List Buffer) : Prop :=
  ∀ s, Visits ctx lines s → ∀ slot ∈ s.collected, slot.points ≠ [] → slot.InReach

/-- Along a log the extremes of the runs are true exactly when the runs are in reach of the values
that the extremes start from. -/
theorem extremesTrue_iff (ctx : Context K) (lines : List Buffer) :
    ExtremesTrue ctx lines ↔ RunsInReach ctx lines := by
  refine forall₂_congr fun s hs => forall₂_congr fun slot hslot => imp_congr_right fun _ => ?_
  obtain ⟨c, hc⟩ := Visits.represents hs
  rw [hc.toHolds.collected_eq] at hslot
  obtain ⟨r, -, rfl⟩ := List.mem_map.mp hslot
  exact Slot.trueExtremes_ofRun_iff ctx.env.sqrt r

end

/-- A log with a sample that is taken 24 days after the first line. -/
def longLog : List LogLine :=
  [.ofText "2011-12-02T04:33:40.000000 TAG: TEST_RUN_BEGIN".toList,
    .ofText "2011-12-26T04:33:40.000000 SAMPLE: 0.25".toList]

/-- The least time of its run stays at one million. -/
theorem longLog_extremes_not_true :
    ¬ ExtremesTrue (plainContext {}) (logLines zeroBuffer longLog) := by
  intro h
  have hmissing : (match readLoop (plainContext {}) (logLines zeroBuffer longLog) .initial with
      | .next s => s.collected.any fun slot =>
          !slot.points.isEmpty && decide (slot.xMin ∉ slot.points.map Point.x)
      | _ => false) = true := by
    decide +kernel
  cases hloop : readLoop (plainContext {}) (logLines zeroBuffer longLog) .initial with
  | next s =>
    rw [hloop] at hmissing
    obtain ⟨slot, hslot, hmin⟩ := List.any_eq_true.mp hmissing
    rw [Bool.and_eq_true, Bool.not_eq_true', decide_eq_true_iff] at hmin
    have hvisit : Visits (plainContext {}) (logLines zeroBuffer longLog) s :=
      ⟨_, [], (List.append_nil _).symm, by rw [← readLoop_eq_events, hloop]⟩
    have hne : slot.points ≠ [] := fun hnil => by simp [hnil] at hmin
    exact hmin.2 (h s hvisit slot hslot hne).xMin.1
  | stop s => simp [hloop] at hmissing
  | fault f s => simp [hloop] at hmissing

end FlukeTesting.Statstool
