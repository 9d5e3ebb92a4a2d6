import FlukeTesting.Statstool.Collected
import FlukeTesting.Statstool.Log

/-!
# Which logs keep the run array safe

The open flag promises that the index points at an initialised slot. The end of a test resets
the index and frees the slots but leaves the flag as it is. So the promise holds along a log
exactly when no test ends while a run is open, whatever else is missing, repeated or out of
order.
-/

namespace FlukeTesting.Statstool

open Imperative Collect

section

variable {K : Type*} [Field K] [LinearOrder K]

/-- The parser gets between two events of the log, or to the end of it, with this state. -/
def Visits (ctx : Context K) (lines : List Buffer) (s : State K) : Prop :=
  Reaches (Event.exec ctx) (logEvents ctx lines) .initial s

/-- The parser starts on an event of the log with this state. -/
def Meets (ctx : Context K) (lines : List Buffer) (e : Event K × ℕ) (s : State K) : Prop :=
  ComesTo (Event.exec ctx) (logEvents ctx lines) .initial e s

/-- The open flag implies that the index lies in the array, and all slots up to the index are
initialised and not freed. -/
structure SlotSafe (s : State K) : Prop where
  index : s.testRunBegin = true → 0 ≤ s.index ∧ s.index < maxTestRuns
  slots : ∀ i : Fin maxTestRuns, (i.val : ℤ) ≤ s.index → (s.data i).isSome = true
  bound : s.index < maxTestRuns

/-- Every state on the way is safe, and no sample, report or release uses an index outside the
array or a slot that is not initialised. -/
def RunSafe (ctx : Context K) (lines : List Buffer) : Prop :=
  (∀ s, Visits ctx lines s → SlotSafe s) ∧
    ∀ f, (parseLines ctx lines).fault? = some f → f ≠ .slotIndex ∧ f ≠ .staleSlot

/-- No test is ended while a run is open. A `TEST_END` that stops at the uninitialised
architecture ends no test. -/
def EndsClosed (ctx : Context K) (lines : List Buffer) : Prop :=
  ∀ n s, Meets ctx lines (.testEnd, n) s → (ctx.opts.extractResults = true → s.arch ≠ none) →
    s.testRunBegin = false

/-- Every state on the way holds the runs of an abstract collector. -/
theorem Visits.represents {ctx : Context K} {lines : List Buffer} {s : State K}
    (h : Visits ctx lines s) : ∃ c, Represents s c := by
  obtain ⟨front, back, -, hs⟩ := h
  exact ⟨_, forEach_represents represents_initial ctx front hs⟩

/-- An event that goes on as a flush ends a test, with a known architecture if it needs one. -/
theorem Represents.flush_ends {s t : State K} {c : Collect.State (Point K)} (h : Represents s c)
    {ctx : Context K} {e : Event K × ℕ} (hnext : Event.exec ctx e s = .next t) {origin : K}
    (hflush : (Event.mark ctx origin e).isFlush = true) :
    e.1 = .testEnd ∧ (ctx.opts.extractResults = true → s.arch ≠ none) := by
  obtain ⟨event, n⟩ := e
  cases event with
  | testEnd =>
    refine ⟨rfl, ?_⟩
    rcases h.testEnd_cases ctx n with ⟨-, -, hfault⟩ | ⟨harch, -⟩ | ⟨harch, -⟩
    · rw [Event.exec, hfault] at hnext
      contradiction
    · exact harch
    · exact harch
  | unstrippable | time | testClient | testBegin | testRunBegin | testRunEnd | sample =>
    exact absurd hflush Bool.false_ne_true

/-- If no test ends in an open run, an open run is always among the collected ones. -/
theorem Visits.backed {ctx : Context K} {lines : List Buffer} (hclosed : EndsClosed ctx lines)
    {s : State K} (h : Visits ctx lines s) : ∃ c, Represents s c ∧ c.Backed := by
  refine Reaches.induction (P := fun t => ∃ c, Represents t c ∧ c.Backed) ?_ ?_ h
  · exact ⟨.empty, represents_initial, fun hopen => absurd hopen Bool.false_ne_true⟩
  · rintro e t u hmeets hu ⟨c, hc, hback⟩
    refine ⟨_, hc.exec_next hu, hback.step _ _ fun hflush => ?_⟩
    obtain ⟨hend, harch⟩ := hc.flush_ends hu hflush
    rw [← hc.isOpen]
    exact hclosed e.2 t (by rwa [← hend]) harch

/-- A state whose open run is collected is safe. -/
theorem Represents.slotSafe {s : State K} {c : Collect.State (Point K)} (h : Represents s c)
    (hback : c.Backed) : SlotSafe s := by
  have hroom := h.room
  have hlt : s.index < maxTestRuns := by
    rw [h.index]
    omega
  refine ⟨fun hopen => ⟨?_, hlt⟩, fun i hi => ?_, hlt⟩
  · have hpos := List.length_pos_of_ne_nil (hback (h.isOpen ▸ hopen))
    rw [h.index]
    omega
  · rw [h.index] at hi
    have hi : i.val < c.runs.length := by omega
    rw [h.data, List.getElem?_eq_getElem hi]
    rfl

/-- An event on a state whose open run is collected stays inside the array and the initialised
slots. -/
theorem Represents.exec_yields {s : State K} {c : Collect.State (Point K)} (h : Represents s c)
    (hback : c.Backed) (ctx : Context K) (e : Event K × ℕ) :
    (Event.exec ctx e s).Yields (fun _ => True) fun f => f ≠ .slotIndex ∧ f ≠ .staleSlot := by
  obtain ⟨event, n⟩ := e
  cases event with
  | unstrippable => exact ⟨by decide, by decide⟩
  | time sec => trivial
  | testClient arg =>
    simp only [Event.exec, Statstool.testClient]
    split
    · trivial
    · exact ⟨by decide, by decide⟩
  | testBegin arg =>
    simp only [Event.exec, Statstool.testBegin]
    split
    · trivial
    · exact ⟨by decide, by decide⟩
  | testEnd =>
    rw [Event.exec]
    rcases h.testEnd_cases ctx n with ⟨-, -, heq⟩ | ⟨-, -, heq⟩ | ⟨-, -, pieces, heq⟩
    · rw [heq]
      exact ⟨by decide, by decide⟩
    · rw [heq]
      trivial
    · rw [heq]
      trivial
  | testRunBegin =>
    obtain ⟨t, ht, -⟩ := h.testRunBegin_eq ctx n
    rw [Event.exec, ht]
    trivial
  | testRunEnd => trivial
  | sample sec text =>
    change (Statstool.sample ctx n (sec - s.startSecs) text s).Yields _ _
    rcases h.sample_cases ctx n (sec - s.startSecs) text with
      ⟨-, -, t, ht, -⟩ | ⟨hopen, -, hnil, -⟩ | ⟨-, t, ht, -⟩
    · rw [ht]
      trivial
    · -- the open run, old or just started, is among the collected ones
      apply absurd hnil
      split at hopen
      · rename_i hauto
        rw [if_pos hauto]
        exact hback.start _ _ hopen
      · rename_i hauto
        rw [if_neg hauto]
        exact hback hopen
    · rw [ht]
      trivial

/-- What follows the read loop never fails on initialised slots. -/
theorem Represents.finish_fault {s : State K} {c : Collect.State (Point K)} (h : Represents s c)
    (ctx : Context K) (n : ℕ) : (finish ctx n s).fault? = none := by
  rw [h.finish_eq]
  rfl

/-- Logs in which no test ends in an open run are safe. -/
theorem EndsClosed.runSafe {ctx : Context K} {lines : List Buffer}
    (hclosed : EndsClosed ctx lines) : RunSafe ctx lines := by
  refine ⟨fun s hs => ?_, fun f hf => ?_⟩
  · obtain ⟨c, hc, hback⟩ := Visits.backed hclosed hs
    exact hc.slotSafe hback
  · rw [parseLines, readLoop_eq_events] at hf
    rcases forEach_exit (Event.exec ctx) (logEvents ctx lines) .initial with
      ⟨t, ht, hreach⟩ | ⟨e, t, hmeets, hexec, hne⟩
    · obtain ⟨c, hc, -⟩ := Visits.backed hclosed hreach
      rw [ht] at hf
      simp [hc.finish_fault ctx] at hf
    · obtain ⟨c, hc, hback⟩ := Visits.backed hclosed hmeets.reaches
      rw [← hexec] at hf hne
      obtain ⟨d, hd, -⟩ := hc.exec_exit hne
      cases hout : Event.exec ctx e t with
      | next u => exact absurd hout (hne u)
      | stop u =>
        rw [hout, Outcome.state_stop] at hd
        rw [hout] at hf
        exact absurd hf (by simp [hd.finish_fault ctx])
      | fault g u =>
        rw [hout] at hf
        exact (hc.exec_yields hback ctx e).fault (by rw [hout]; exact hf)

/-- The end of a test in an open run leaves the flag set without any run. -/
theorem SlotSafe.endsClosed {ctx : Context K} {lines : List Buffer}
    (hsafe : ∀ s, Visits ctx lines s → SlotSafe s) : EndsClosed ctx lines := by
  intro n s hmeets harch
  obtain ⟨c, hc⟩ := Visits.represents hmeets.reaches
  have hended (o : Output K) (heq : testEnd ctx n s = .next (s.emit o).ended) :
      s.testRunBegin = false := by
    have hindex := (hsafe _ (hmeets.step heq)).index
    by_contra hopen
    have hneg : ¬ (0 : ℤ) ≤ -1 := by decide
    exact hneg (hindex (Bool.eq_true_of_not_eq_false hopen)).1
  rcases hc.testEnd_cases ctx n with ⟨hx, hnone, -⟩ | ⟨-, -, heq⟩ | ⟨-, -, pieces, heq⟩
  · exact absurd hnone (harch hx)
  · exact hended _ heq
  · exact hended _ heq

/-- The run array is safe along a log exactly when no test is ended while a run is open. -/
theorem runSafe_iff (ctx : Context K) (lines : List Buffer) :
    RunSafe ctx lines ↔ EndsClosed ctx lines :=
  ⟨fun h => SlotSafe.endsClosed h.1, EndsClosed.runSafe⟩

end

/-- A log that lost the tag of the end of its run. -/
def lostRunEnd : List LogLine :=
  [.ofText "2011-12-02T01:03:41.720551 TAG: TEST_RUN_BEGIN".toList,
    .ofText "2011-12-02T01:03:42.720551 TAG: TEST_END".toList,
    .ofText "2011-12-02T01:03:43.720551 SAMPLE: 0.25".toList]

/-- The sample behind the end of the test is stored at index -1. -/
theorem lostRunEnd_not_runSafe :
    ¬ RunSafe (plainContext {}) (logLines zeroBuffer lostRunEnd) := by
  intro h
  have hfault : (parseLines (plainContext {}) (logLines zeroBuffer lostRunEnd)).fault? =
      some .slotIndex := by decide +kernel
  exact (h.2 .slotIndex hfault).1 rfl

end FlukeTesting.Statstool
