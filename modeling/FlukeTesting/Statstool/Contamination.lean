import FlukeTesting.Statstool.Segmentation

/-!
# What a report holds from before its test

The beginning of a test sets a flag that nothing reads: it does not drop the runs that are
already collected. So the report of a test holds older data exactly when its `TEST_BEGIN`, or
one that was sent before it, arrives after a run was opened since the last `TEST_END`.
-/

namespace FlukeTesting.Statstool

open Imperative Collect

section

variable {K : Type*} [Field K]

/-- The marks of events stand at the lines of the events. -/
theorem mem_marks [LinearOrder K] {ctx : Context K} {origin : K} {events : List (Event K × ℕ)}
    {m : Mark (Point K) × ℕ} (h : m ∈ marks ctx origin events) :
    ∃ later, ∃ e ∈ events, m = (Event.mark ctx later e, e.2) := by
  induction events generalizing origin with
  | nil => simp [marks] at h
  | cons e rest ih =>
    rcases List.mem_cons.mp h with rfl | hrest
    · exact ⟨origin, e, by simp, rfl⟩
    · obtain ⟨later, f, hf, rfl⟩ := ih hrest
      exact ⟨later, f, List.mem_cons_of_mem _ hf, rfl⟩

/-- A sample carries the number of its line. -/
theorem Event.mark_item {ctx : Context K} {origin : K} {e : Event K × ℕ} {p : Point K}
    (h : (Event.mark ctx origin e).item? = some p) : p.line = e.2 := by
  obtain ⟨event, n⟩ := e
  cases event with
  | sample sec text =>
    simp only [Event.mark, Mark.item?, Option.some.injEq] at h
    rw [← h]
  | unstrippable | time | testClient | testBegin | testEnd | testRunBegin | testRunEnd =>
    simp [Event.mark, Mark.item?] at h

/-- Only the end of a test is a flush. -/
theorem Event.mark_isFlush {ctx : Context K} {origin : K} {e : Event K × ℕ}
    (h : e.1 ≠ .testEnd) : (Event.mark ctx origin e).isFlush = false := by
  obtain ⟨event, n⟩ := e
  cases event with
  | testEnd => exact absurd rfl h
  | unstrippable | time | testClient | testBegin | testRunBegin | testRunEnd | sample => rfl

/-- Without `-a`, only `TEST_RUN_BEGIN` starts runs. -/
theorem Event.mark_starts {ctx : Context K} {origin : K} {e : Event K × ℕ}
    (h : (Event.mark ctx origin e).starts false = true) : e.1 = .testRunBegin := by
  obtain ⟨event, n⟩ := e
  cases event with
  | testRunBegin => rfl
  | unstrippable | time | testClient | testBegin | testEnd | testRunEnd | sample =>
    simp [Event.mark, Mark.starts] at h

variable [LinearOrder K]

/-- The reports hold no run and no sample from before a `TEST_BEGIN` that precedes them. -/
def Uncontaminated (ctx : Context K) (lines : List Buffer) : Prop :=
  ∀ r ∈ (parseLines ctx lines).state.reports, ∀ arg b,
    (.testBegin arg, b) ∈ logEvents ctx lines → b ≤ r.line →
      ∀ slot ∈ r.runs, b ≤ slot.openedAt ∧ ∀ p ∈ slot.points, b ≤ p.line

/-- No run is collected when a test begins, unless the next `TEST_END` is never reached or
makes no report. -/
def BeginsFresh (ctx : Context K) (lines : List Buffer) : Prop :=
  ∀ arg b e s t, Meets ctx lines (.testBegin arg, b) s → FirstEnd ctx lines b e →
    Meets ctx lines (.testEnd, e) t → EndReports ctx e t → s.index = -1

/-- Without collected runs, everything collected afterwards is from the lines read afterwards. -/
theorem collected_of_fresh {ctx : Context K} {s t : State K} {c : Collect.State (Point K)}
    (h : Represents s c) (hnil : c.runs = []) {events : List (Event K × ℕ)}
    (hnext : forEach (Event.exec ctx) events s = .next t) {b : ℕ} (hb : ∀ e ∈ events, b ≤ e.2) :
    ∀ slot ∈ t.collected, b ≤ slot.openedAt ∧ ∀ p ∈ slot.points, b ≤ p.line := by
  have hc : c.RunsFrom (fun n => b ≤ n) (fun p : Point K => b ≤ p.line) := by
    intro r hr
    simp [hnil] at hr
  have hrun := hc.run (collector ctx) (marks ctx s.startSecs events)
    (fun m hm _ => by
      obtain ⟨later, e, he, rfl⟩ := mem_marks hm
      exact hb e he)
    (fun m hm p hp => by
      obtain ⟨later, e, he, rfl⟩ := mem_marks hm
      rw [Event.mark_item hp]
      exact hb e he)
  have hd := forEach_represents h ctx events hnext
  intro slot hslot
  rw [hd.toHolds.collected_eq] at hslot
  obtain ⟨r, hr, rfl⟩ := List.mem_map.mp hslot
  have hslots := Slot.run_ofRun (K := K) r
  have hfrom := hrun r hr
  rw [← hslots] at hfrom
  exact hfrom

/-- All runs that are collected when a test begins were opened on earlier lines. -/
theorem Meets.starts_lt {ctx : Context K} {lines : List Buffer}
    (hauto : ctx.opts.statsAllSamples = false) {arg : Text} {b : ℕ} {s : State K}
    (h : Meets ctx lines (.testBegin arg, b) s) :
    ∃ c, Represents s c ∧ ∀ r ∈ c.runs, r.start < b := by
  obtain ⟨front, back, hsplit, hs⟩ := h
  have hsorted := logEvents_sorted ctx lines
  rw [hsplit] at hsorted
  have hbefore := (List.pairwise_append.mp hsorted).2.2
  have hempty : (Collect.State.empty : Collect.State (Point K)).RunsFrom (· < b) fun _ => True := by
    intro r hr
    simp [Collect.State.empty] at hr
  have hrun := hempty.run (collector ctx) (marks ctx (-1) front)
    (fun m hm hstart => by
      obtain ⟨later, e, he, rfl⟩ := mem_marks hm
      rw [collector, hauto] at hstart
      rcases hbefore e he _ (List.mem_cons_self) with hlt | ⟨-, hrank⟩
      · exact hlt
      · rw [Event.mark_starts hstart] at hrank
        exact absurd hrank (by simp [Event.rank]))
    (fun _ _ _ _ => trivial)
  exact ⟨_, forEach_represents represents_initial ctx front hs, fun r hr => (hrun r hr).1⟩

/-- The runs that are collected when a test begins are still there at the next `TEST_END`. -/
theorem Meets.starts_kept {ctx : Context K} {lines : List Buffer} {arg : Text} {b e : ℕ}
    {s t : State K} (hs : Meets ctx lines (.testBegin arg, b) s)
    (hfirst : FirstEnd ctx lines b e) (ht : Meets ctx lines (.testEnd, e) t)
    {c : Collect.State (Point K)} (hc : Represents s c) :
    ∃ d, Represents t d ∧ c.runs.map Run.start <+: d.runs.map Run.start := by
  obtain ⟨s', mid, hs', hmid, hbetween⟩ := ht.earlier hs.mem (precedes_end (by simp [Event.rank]) hfirst.2.1)
  rw [hs'.unique hs] at hmid
  have hnoEnd : ∀ x ∈ (.testBegin arg, b) :: mid, x.1 ≠ Event.testEnd := by
    intro x hx hend
    rcases List.mem_cons.mp hx with rfl | hx
    · simp at hend
    · obtain ⟨hmem, hafter, hbefore⟩ := (hbetween x).mp hx
      have hkind := hfirst.isEnd_eq_false hmem hafter.le hbefore
      rw [hend] at hkind
      exact absurd hkind.symm Bool.false_ne_true
  refine ⟨_, forEach_represents hc ctx _ hmid, c.starts_prefix_run _ _ fun m hm => ?_⟩
  obtain ⟨later, e, he, rfl⟩ := mem_marks hm
  exact Event.mark_isFlush (hnoEnd e he)

/-- The end of a test holds nothing from before a beginning, if a test ended between the two or
no run was collected at the beginning. -/
theorem BeginsFresh.collected {ctx : Context K} {lines : List Buffer}
    (hfresh : BeginsFresh ctx lines) {n : ℕ} {t : State K}
    (ht : Meets ctx lines (.testEnd, n) t) (hrep : EndReports ctx n t) {arg : Text} {b : ℕ}
    (hb : (.testBegin arg, b) ∈ logEvents ctx lines) (hbn : b ≤ n) :
    ∀ slot ∈ t.collected, b ≤ slot.openedAt ∧ ∀ p ∈ slot.points, b ≤ p.line := by
  obtain ⟨s, mid, hs, hmid, hbetween⟩ := ht.earlier hb (precedes_end (by simp [Event.rank]) hbn)
  by_cases hend : ∃ e, (Event.testEnd, e) ∈ mid
  · -- the last thing known is that this earlier end dropped all runs
    obtain ⟨e, he⟩ := hend
    obtain ⟨hmem, hafter, hbefore⟩ := (hbetween _).mp he
    obtain ⟨u, rest, hu, hrest, hlater⟩ := ht.earlier hmem hbefore
    obtain ⟨c, hc⟩ := Visits.represents hu.reaches
    obtain ⟨v, hv, hrest⟩ := Outcome.bind_eq_next_iff.mp hrest
    apply collected_of_fresh (hc.exec_next hv) rfl hrest
    intro x hx
    exact hafter.le.trans ((hlater x).mp hx).2.1.le
  · have hfirst : FirstEnd ctx lines b n := by
      refine ⟨ht.mem, hbn, fun x he' hkind hbe' => ?_⟩
      obtain ⟨event, e'⟩ := x
      obtain rfl := Event.eq_testEnd hkind
      by_contra hlt
      exact hend ⟨e', (hbetween _).mpr
        ⟨he', precedes_end (by simp [Event.rank]) hbe', Or.inl (Nat.lt_of_not_le hlt)⟩⟩
    obtain ⟨c, hc⟩ := Visits.represents hs.reaches
    have hnil : c.runs = [] := by
      have hindex := hfresh arg b n s t hs hfirst ht hrep
      rw [hc.index] at hindex
      exact List.length_eq_zero_iff.mp (by omega)
    apply collected_of_fresh hc hnil hmid
    intro x hx
    rcases List.mem_cons.mp hx with rfl | hx
    · exact le_rfl
    · exact ((hbetween x).mp hx).2.1.le

/-- Without `-a`, the reports are free of older data exactly when no run is collected at the
beginning of a test whose next end makes a report. -/
theorem uncontaminated_iff (ctx : Context K) (lines : List Buffer)
    (hauto : ctx.opts.statsAllSamples = false) :
    Uncontaminated ctx lines ↔ BeginsFresh ctx lines := by
  unfold Uncontaminated
  rw [parseLines_state hauto]
  constructor
  · intro h arg b e s t hs hfirst ht hrep
    by_contra hindex
    obtain ⟨c, hc, hstarts⟩ := hs.starts_lt hauto
    obtain ⟨d, hd, hkept⟩ := hs.starts_kept hfirst ht hc
    obtain ⟨r, hr⟩ : ∃ r, r ∈ c.runs := by
      refine List.exists_mem_of_ne_nil _ fun hnil => hindex ?_
      rw [hc.index, hnil]
      rfl
    obtain ⟨r', hr', hsame⟩ := List.mem_map.mp (hkept.subset (List.mem_map_of_mem hr))
    have hslot : Slot.ofRun r' ∈ (t.endReport ctx e t.collected).runs := by
      change Slot.ofRun r' ∈ t.collected
      rw [hd.toHolds.collected_eq]
      exact List.mem_map_of_mem hr'
    have hopened : b ≤ (Slot.ofRun r').run.start :=
      (h _ (ht.mem_reports hrep) arg b hs.mem hfirst.2.1 _ hslot).1
    rw [Slot.run_ofRun, hsame] at hopened
    exact absurd (hstarts r hr) (Nat.not_lt_of_le hopened)
  · intro hfresh r hr arg b hb hbr
    obtain ⟨n, t, ht, hrep, rfl⟩ := (mem_reports_iff ctx lines r).mp hr
    exact hfresh.collected ht hrep hb hbr

end

/-- What is left of a log of two tests in a row if the first one loses its `TEST_END`. -/
def lostEnd : List LogLine :=
  [.ofText "2011-12-02T01:03:40.000000 TAG: TEST_BEGIN idle".toList,
    .ofText "2011-12-02T01:03:41.000000 TAG: TEST_RUN_BEGIN idle".toList,
    .ofText "2011-12-02T01:03:42.000000 TAG: TEST_RUN_END idle".toList,
    .ofText "2011-12-02T01:03:43.000000 TAG: TEST_BEGIN busy".toList,
    .ofText "2011-12-02T01:03:44.000000 TAG: TEST_END busy".toList]

/-- On that log, too, the report is free of older data exactly if the second test begins without
a run. -/
theorem lostEnd_uncontaminated_iff :
    Uncontaminated (plainContext {}) (logLines zeroBuffer lostEnd) ↔
      BeginsFresh (plainContext {}) (logLines zeroBuffer lostEnd) :=
  uncontaminated_iff (plainContext {}) (logLines zeroBuffer lostEnd) rfl

/-- The report of the second test holds the run of the first one. -/
theorem lostEnd_contaminated :
    ¬ Uncontaminated (plainContext {}) (logLines zeroBuffer lostEnd) := by
  intro h
  have hbegin : ((.testBegin "busy".toList : Event ℚ), 3) ∈
      logEvents (plainContext {}) (logLines zeroBuffer lostEnd) := by
    rw [logEvents_logLines _ _ _ (by decide +kernel)]
    exact mem_textEvents (h := .testBegin "busy".toList) _ rfl (by decide +kernel)
  have hold : (parseLines (plainContext {}) (logLines zeroBuffer lostEnd)).state.reports.any
      (fun r => decide (3 ≤ r.line) && r.runs.any fun slot => decide (slot.openedAt < 3)) = true := by
    decide +kernel
  obtain ⟨r, hr, hruns⟩ := List.any_eq_true.mp hold
  rw [Bool.and_eq_true, decide_eq_true_iff, List.any_eq_true] at hruns
  obtain ⟨hline, slot, hslot, hopened⟩ := hruns
  exact absurd (h r hr _ 3 hbegin hline slot hslot).1 (Nat.not_le_of_lt (of_decide_eq_true hopened))

end FlukeTesting.Statstool
