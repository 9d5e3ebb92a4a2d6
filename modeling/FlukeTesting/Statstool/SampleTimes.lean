import FlukeTesting.Statstool.ElapsedTime
import FlukeTesting.Statstool.Extremes

/-!
# The times of the samples

A sample is stored at the time between its line and the first line of the log. Along a log of lines
with time stamps these times are the true ones exactly if all stamps are moved alike.
-/

namespace FlukeTesting.Statstool

open Imperative Collect Scanf

section

variable {K : Type*} [Field K]

/-- A sample of the log is taken at the time stamp of its line. -/
theorem mem_textEvents_sample (ctx : Context K) {log : List LogLine} {sec : K} {text : Text} {n : ℕ}
    (h : (Event.sample sec text, n) ∈ textEvents ctx log) :
    ∃ l, log[n]? = some l ∧ sec = textStamp ctx n l.body := by
  obtain ⟨⟨l, line⟩, hl, he⟩ := List.mem_flatMap.mp h
  rw [List.mem_zipIdx_iff_getElem?] at hl
  obtain ⟨event, hevent, hpair⟩ := List.mem_map.mp he
  rw [Prod.mk.injEq] at hpair
  obtain ⟨rfl, rfl⟩ := hpair
  refine ⟨l, hl, ?_⟩
  rcases List.mem_cons.mp hevent with htime | hhandler
  · contradiction
  · obtain ⟨handler, -, hsample⟩ := List.mem_map.mp hhandler
    cases handler with
    | sample value => exact (Event.sample.inj hsample).1.symm
    | testClient | testBegin | testEnd | testRunBegin | testRunEnd => contradiction

/-- The first time stamp of a log of whole lines is that of its first text. -/
theorem firstStamp_logLines (ctx : Context K) (junk : Buffer) (l : LogLine) (log : List LogLine) :
    firstStamp ctx (logLines junk (l :: log)) = textStamp ctx 0 l.body := by
  obtain ⟨b, hstrip, hbytes⟩ := l.strip_load junk
  rw [logLines, List.map_cons, frames, firstStamp, hstrip, Option.map_some, Option.getD_some]
  exact l.stamp_eq ctx 0 hbytes

variable [LinearOrder K]

variable [IsStrictOrderedRing K] {ctx : Context K} {lines : List Buffer} {s : State K}

/-- The state of the read loop represents what the collector has made of the events so far. -/
theorem Visits.represents_front (h : Visits ctx lines s) (hfirst : 0 ≤ firstStamp ctx lines) :
    ∃ front back, logEvents ctx lines = front ++ back ∧
      Represents s (Collect.State.empty.run (collector ctx)
        (front.map fun e => (Event.mark ctx (firstStamp ctx lines) e, e.2))) := by
  obtain ⟨front, back, hsplit, hs⟩ := h
  have hrep := forEach_represents represents_initial ctx front hs
  have hmarks : marks ctx (State.initial : State K).startSecs front = _ :=
    marks_front hfirst hsplit hs
  rw [hmarks] at hrep
  exact ⟨front, back, hsplit, hrep⟩

/-- Every collected sample was taken at the time between its line and the first one. -/
theorem Visits.sample_time (h : Visits ctx lines s) (hfirst : 0 ≤ firstStamp ctx lines) :
    ∀ slot ∈ s.collected, ∀ p ∈ slot.points, ∃ sec text,
      (Event.sample sec text, p.line) ∈ logEvents ctx lines ∧
        p.x = sec - firstStamp ctx lines := by
  obtain ⟨front, back, hsplit, hrep⟩ := h.represents_front hfirst
  have hempty : (Collect.State.empty : Collect.State (Point K)).RunsFrom (fun _ => True)
      fun p => ∃ sec text, (Event.sample sec text, p.line) ∈ logEvents ctx lines ∧
        p.x = sec - firstStamp ctx lines := by
    intro r hr
    simp [Collect.State.empty] at hr
  have hfrom := hempty.run (collector ctx)
    (front.map fun e => (Event.mark ctx (firstStamp ctx lines) e, e.2)) (fun _ _ _ => trivial)
    (fun m hm p hp => by
      obtain ⟨⟨event, n⟩, he, rfl⟩ := List.mem_map.mp hm
      cases event with
      | sample sec text =>
        obtain rfl : _ = p := Option.some.inj hp
        exact ⟨sec, text, hsplit ▸ List.mem_append_left back he, rfl⟩
      | unstrippable | time | testClient | testBegin | testEnd | testRunBegin | testRunEnd =>
        contradiction)
  intro slot hslot
  rw [hrep.toHolds.collected_eq] at hslot
  obtain ⟨r, hr, rfl⟩ := List.mem_map.mp hslot
  rw [Slot.points_ofRun]
  exact (hfrom r hr).2

/-- The samples of a run are in the order of their lines. -/
theorem Visits.sample_order (h : Visits ctx lines s) (hfirst : 0 ≤ firstStamp ctx lines) :
    ∀ slot ∈ s.collected, slot.points.Pairwise fun p q => p.line < q.line := by
  obtain ⟨front, back, hsplit, hrep⟩ := h.represents_front hfirst
  have horder : ((items (front.map fun e =>
      (Event.mark ctx (firstStamp ctx lines) e, e.2))).map Point.line).Pairwise (· < ·) := by
    refine (logMarks_lines ctx lines).sublist (List.Sublist.map Point.line ?_)
    rw [logMarks, hsplit, List.map_append]
    exact (List.sublist_append_left _ _).filterMap _
  intro slot hslot
  rw [hrep.toHolds.collected_eq] at hslot
  obtain ⟨r, hr, rfl⟩ := List.mem_map.mp hslot
  have haccount := Collect.State.account_run (collector ctx) Collect.State.empty
    (front.map fun e => (Event.mark ctx (firstStamp ctx lines) e, e.2))
  have hsub : r.items.Sublist (items (front.map fun e =>
      (Event.mark ctx (firstStamp ctx lines) e, e.2))) := by
    refine (List.Sublist.trans ?_ (List.sublist_append_right _ _)).trans haccount
    rw [List.flatMap_def]
    exact List.sublist_flatten_of_mem (List.mem_map_of_mem hr)
  rw [Slot.points_ofRun]
  exact List.pairwise_map.mp (horder.sublist (hsub.map Point.line))

end

/-- A line of the log that begins with a time stamp and a blank. -/
structure StampedLine where
  stamp : Stamp
  rest : Text
  blank : ∀ c ∈ rest.head?, isSpace c = true
  noNul : NUL ∉ stamp.line rest
  noNewline : '\n' ∉ stamp.line rest
  fits : (stamp.line rest).length + 1 < bufferSize

/-- The line itself. -/
def StampedLine.logLine (l : StampedLine) : LogLine :=
  ⟨l.stamp.line l.rest, l.noNul, l.noNewline, l.fits⟩

/-- A stamp alone fills the part of a line that is not searched for keywords. -/
theorem StampedLine.size (l : StampedLine) : 27 ≤ l.logLine.size := by
  have hlength : l.logLine.body.length = 26 + l.rest.length := by
    simp [StampedLine.logLine, Stamp.line]
    omega
  rw [LogLine.size, hlength]
  omega

section

variable {K : Type*} [Field K]

/-- The time between two stamped lines is the true one exactly if their stamps are moved alike. -/
theorem textStamp_sub_eq_iff [CharZero K] (ctx : Context K) (i j : ℕ) (a b : StampedLine) :
    textStamp ctx j b.logLine.body - textStamp ctx i a.logLine.body =
        ((b.stamp.seconds - a.stamp.seconds : ℚ) : K) ↔
      a.stamp.MovedAlike ctx.env.utcOffset b.stamp := by
  rw [textStamp, textStamp, ← Rat.cast_sub, Rat.cast_inj]
  exact parseTimestamp_sub_eq_iff ctx.env.utcOffset a.stamp b.stamp a.blank b.blank _ _

variable [LinearOrder K] [IsStrictOrderedRing K]

/-- A stamped line has a time stamp that is not negative. -/
theorem textStamp_nonneg (ctx : Context K) (i : ℕ) (a : StampedLine) :
    0 ≤ textStamp ctx i a.logLine.body := by
  have hparse : 0 ≤ parseTimestamp ctx.env.utcOffset (ctx.env.tm i) (a.stamp.line a.rest) := by
    rw [a.stamp.parseTimestamp_line a.blank]
    have hmod := Int.emod_nonneg (a.stamp.movedSeconds ctx.env.utcOffset)
      (by decide : (2 : ℤ) ^ 32 ≠ 0)
    positivity
  exact Rat.cast_nonneg.mpr hparse

/-- The samples collected along a log of stamped lines have the times between the stamps of their
lines and the first one, and are in the order of their lines. -/
theorem Visits.stampedTimes {ctx : Context K} {junk : Buffer} {log : List StampedLine} {s : State K}
    (h : Visits ctx (logLines junk (log.map StampedLine.logLine)) s) :
    ∀ slot ∈ s.collected,
      (∀ p ∈ slot.points, ∃ a first, log[p.line]? = some a ∧ log.head? = some first ∧
        p.x = textStamp ctx p.line a.logLine.body - textStamp ctx 0 first.logLine.body) ∧
      slot.points.Pairwise fun p q => p.line < q.line := by
  have hsize : ∀ l ∈ log.map StampedLine.logLine, 27 ≤ l.size := by
    intro l hl
    obtain ⟨a, -, rfl⟩ := List.mem_map.mp hl
    exact a.size
  have hfirst : 0 ≤ firstStamp ctx (logLines junk (log.map StampedLine.logLine)) := by
    cases log with
    | nil => exact le_rfl
    | cons a log =>
      rw [List.map_cons, firstStamp_logLines]
      exact textStamp_nonneg ctx 0 a
  intro slot hslot
  refine ⟨fun p hp => ?_, h.sample_order hfirst slot hslot⟩
  obtain ⟨sec, text, hevent, hx⟩ := h.sample_time hfirst slot hslot p hp
  rw [logEvents_logLines ctx junk _ hsize] at hevent
  obtain ⟨l, hl, rfl⟩ := mem_textEvents_sample ctx hevent
  rw [List.getElem?_map, Option.map_eq_some_iff] at hl
  obtain ⟨a, ha, rfl⟩ := hl
  cases log with
  | nil => simp at ha
  | cons first log =>
    rw [List.map_cons, firstStamp_logLines] at hx
    exact ⟨a, first, ha, rfl, hx⟩

/-- The times of a log are exact: between any two lines, and for every sample since the first line.
So the times of the samples of a run do not decrease if those of the log do not. -/
structure TimesExact (ctx : Context K) (junk : Buffer) (log : List StampedLine) : Prop where
  elapsed : ∀ (i j : ℕ) (a b : StampedLine), log[i]? = some a → log[j]? = some b →
    textStamp ctx j b.logLine.body - textStamp ctx i a.logLine.body =
      ((b.stamp.seconds - a.stamp.seconds : ℚ) : K)
  samples : ∀ s, Visits ctx (logLines junk (log.map StampedLine.logLine)) s →
    ∀ slot ∈ s.collected, ∀ p ∈ slot.points, ∃ a first, log[p.line]? = some a ∧
      log.head? = some first ∧ p.x = ((a.stamp.seconds - first.stamp.seconds : ℚ) : K)
  chronological : (log.Pairwise fun a b => a.stamp.seconds ≤ b.stamp.seconds) →
    ∀ s, Visits ctx (logLines junk (log.map StampedLine.logLine)) s →
      ∀ slot ∈ s.collected, slot.Chronological

/-- The times of a log are exact exactly if all its stamps are moved alike. -/
theorem timesExact_iff (ctx : Context K) (junk : Buffer) (log : List StampedLine) :
    TimesExact ctx junk log ↔
      ∀ a ∈ log, ∀ b ∈ log, a.stamp.MovedAlike ctx.env.utcOffset b.stamp := by
  constructor
  · intro h a ha b hb
    obtain ⟨i, hi⟩ := List.mem_iff_getElem?.mp ha
    obtain ⟨j, hj⟩ := List.mem_iff_getElem?.mp hb
    exact (textStamp_sub_eq_iff ctx i j a b).mp (h.elapsed i j a b hi hj)
  · intro h
    have htime (i j : ℕ) (a b : StampedLine) (ha : a ∈ log) (hb : b ∈ log) :
        textStamp ctx j b.logLine.body - textStamp ctx i a.logLine.body =
          ((b.stamp.seconds - a.stamp.seconds : ℚ) : K) :=
      (textStamp_sub_eq_iff ctx i j a b).mpr (h a ha b hb)
    refine ⟨fun i j a b hi hj => ?_, fun s hs slot hslot p hp => ?_, fun hlog s hs slot hslot => ?_⟩
    · exact htime i j a b (List.mem_of_getElem? hi) (List.mem_of_getElem? hj)
    · obtain ⟨a, first, ha, hfirst, hx⟩ := (hs.stampedTimes slot hslot).1 p hp
      refine ⟨a, first, ha, hfirst, hx.trans ?_⟩
      exact htime 0 p.line first a (List.mem_of_head? hfirst) (List.mem_of_getElem? ha)
    · obtain ⟨hpoints, horder⟩ := hs.stampedTimes slot hslot
      apply horder.imp_of_mem
      intro p q hp hq hlt
      obtain ⟨a, first, ha, hfirst, hx⟩ := hpoints p hp
      obtain ⟨b, first', hb, hfirst', hy⟩ := hpoints q hq
      obtain rfl : first = first' := Option.some.inj (hfirst.symm.trans hfirst')
      have hle : a.stamp.seconds ≤ b.stamp.seconds := by
        obtain ⟨hi, rfl⟩ := List.getElem?_eq_some_iff.mp ha
        obtain ⟨hj, rfl⟩ := List.getElem?_eq_some_iff.mp hb
        exact List.pairwise_iff_getElem.mp hlog _ _ hi hj hlt
      have hmem := List.mem_of_head? hfirst
      rw [hx, hy, htime 0 p.line first a hmem (List.mem_of_getElem? ha),
        htime 0 q.line first b hmem (List.mem_of_getElem? hb)]
      exact Rat.cast_le.mpr (sub_le_sub_right hle _)

/-- The elapsed time is exact, between two stamps as along a whole log, exactly if the stamps are
moved alike. -/
theorem elapsedTime_exact_iff (ctx : Context K) :
    (∀ t₁ t₂, ElapsedExact ctx.env.utcOffset t₁ t₂ ↔ t₁.MovedAlike ctx.env.utcOffset t₂) ∧
    ∀ junk log, TimesExact ctx junk log ↔
      ∀ a ∈ log, ∀ b ∈ log, a.stamp.MovedAlike ctx.env.utcOffset b.stamp :=
  ⟨elapsedExact_iff ctx.env.utcOffset, timesExact_iff ctx⟩

end

/-- The elapsed time of the plain program. -/
theorem plain_elapsedTime_exact_iff :
    (∀ t₁ t₂, ElapsedExact 0 t₁ t₂ ↔ t₁.MovedAlike 0 t₂) ∧
    ∀ junk log, TimesExact (plainContext {}) junk log ↔
      ∀ a ∈ log, ∀ b ∈ log, a.stamp.MovedAlike 0 b.stamp :=
  elapsedTime_exact_iff (plainContext {})

end FlukeTesting.Statstool
