import FlukeTesting.Drivers.Runs
import FlukeTesting.Statstool.Main
import FlukeTesting.Statstool.TimeOrigin

/-!
# Logs that are joined

Two logs can be joined, or one be cut, between two tests. The reports on the joined log are those on
the first log and then those on the second one: they have the same names, headings and statistics,
although the second log is now counted from the first line of the other. This holds for all logs
whose marks are in order, whether they are those of one driver or not, if they span no more than a
million seconds.
-/

namespace FlukeTesting.Drivers

open Statstool Imperative

/-! ## Tidy logs -/

/-- What the lines of a log are for, whatever the readings are. -/
def outline (log : List Line) : List (Recording.Input Client TestName Unit × ℕ) :=
  log.zipIdx.map fun (l, n) => (l.said.action.map fun _ => (), n)

/-- In a tidy log no run begins and no test ends while a run is open. -/
def Tidy (log : List Line) : Prop := Recording.Orderly (.idle []) (outline log)

/-- What is recorded of a log, whatever the readings are. -/
def recorded (log : List Line) : Recording.State Client TestName Unit :=
  (Recording.State.idle []).run (outline log)

/-- A complete log ends between two tests. -/
def Complete (log : List Line) : Prop := ∃ records, recorded log = .idle records

/-- All tests that end were announced with their machine and their name. -/
def Announced (log : List Line) : Prop :=
  ∀ r ∈ (recorded log).records, r.client.isSome = true ∧ r.test.isSome = true

/-- The outline of two logs, one behind the other. -/
theorem outline_append (front back : List Line) : outline (front ++ back) =
    outline front ++ (outline back).map (Recording.relabelInput id (· + front.length)) := by
  have hback : back.zipIdx front.length = back.zipIdx.map (Prod.map id (· + front.length)) := by
    rw [List.map_snd_add_zipIdx_eq_zipIdx, Nat.add_zero]
  rw [outline, List.zipIdx_append, List.map_append, Nat.zero_add, hback, outline, outline,
    List.map_map, List.map_map]
  apply congrArg (_ ++ ·)
  apply List.map_congr_left
  rintro ⟨l, n⟩ _
  change (l.said.action.map _, n + front.length) =
    ((l.said.action.map fun _ => ()).map id, n + front.length)
  cases l.said.action <;> rfl

/-- Behind a complete log the recorder starts anew. -/
theorem Complete.recorded_append {front : List Line} (h : Complete front) (back : List Line) :
    recorded (front ++ back) =
      ((recorded back).relabel id (· + front.length)).behind (recorded front).records := by
  obtain ⟨records, hrecords⟩ := h
  have hidle : (Recording.State.idle records : Recording.State Client TestName Unit) =
      ((Recording.State.idle []).relabel id (· + front.length)).behind records := by
    simp [Recording.State.idle, Recording.State.behind, Recording.State.relabel]
  have hfront : (Recording.State.idle []).run (outline front) = .idle records := hrecords
  rw [recorded, outline_append, Recording.State.run_append, hfront, hidle,
    ← Recording.State.behind_run, ← Recording.State.relabel_run, hrecords]
  rfl

/-- A tidy log behind one that is tidy and complete is tidy. -/
theorem Tidy.append {front back : List Line} (hfront : Tidy front) (hcomplete : Complete front)
    (hback : Tidy back) : Tidy (front ++ back) := by
  obtain ⟨records, hrecords⟩ := hcomplete
  have hidle : (Recording.State.idle records : Recording.State Client TestName Unit) =
      ((Recording.State.idle []).relabel id (· + front.length)).behind records := by
    simp [Recording.State.idle, Recording.State.behind, Recording.State.relabel]
  have hrun : (Recording.State.idle []).run (outline front) = .idle records := hrecords
  rw [Tidy, outline_append, Recording.orderly_append, hrun, hidle, Recording.orderly_behind,
    Recording.orderly_relabel]
  exact ⟨hfront, hback⟩

/-- A complete log behind another one is complete. -/
theorem Complete.append {front back : List Line} (hfront : Complete front)
    (hback : Complete back) : Complete (front ++ back) := by
  obtain ⟨records, hrecords⟩ := hback
  refine ⟨(recorded front).records ++
    records.map (Recording.Record.relabel id (· + front.length)), ?_⟩
  rw [hfront.recorded_append, hrecords]
  rfl

/-- The tests of two announced logs are announced. -/
theorem Announced.append {front back : List Line} (hcomplete : Complete front)
    (hfront : Announced front) (hback : Announced back) : Announced (front ++ back) := by
  intro r hr
  rw [hcomplete.recorded_append, Recording.State.behind, List.mem_append] at hr
  rcases hr with hr | hr
  · exact hfront r hr
  · obtain ⟨r', hr', rfl⟩ := List.mem_map.mp hr
    exact hback r' hr'

section

variable {K : Type*}

variable [Field K]

/-- The outline is what the lines are for without their readings. -/
theorem outline_eq (ctx : Context K) (origin : K) (log : List Line) :
    outline log =
      (lineInputs ctx origin 0 log).map (Recording.relabelInput (fun _ => ()) id) := by
  rw [outline, lineInputs, List.map_map]
  apply List.map_congr_left
  rintro ⟨l, n⟩ _
  change (l.said.action.map _, n) = ((l.said.action.map _).map _, n)
  cases l.said.action <;> rfl

/-- What is recorded of a log with its readings has the outline that is recorded. -/
theorem recorded_eq (ctx : Context K) (origin : K) (log : List Line) :
    recorded log = ((Recording.State.idle []).run (lineInputs ctx origin 0 log)).relabel
      (fun _ => ()) id := by
  rw [recorded, outline_eq ctx origin, Recording.State.relabel_run]
  rfl

/-- A complete log leaves the recorder between two tests. -/
theorem Complete.run {log : List Line} (h : Complete log) (ctx : Context K) (origin : K) :
    ∃ records, (Recording.State.idle []).run (lineInputs ctx origin 0 log) = .idle records := by
  obtain ⟨records, hrecords⟩ := h
  rw [recorded_eq ctx origin] at hrecords
  generalize (Recording.State.idle []).run (lineInputs ctx origin 0 log) = r at hrecords
  obtain ⟨client, test, runs, isOpen, rs⟩ := r
  simp only [Recording.State.relabel, Recording.State.idle, Recording.State.mk.injEq,
    List.map_eq_nil_iff] at hrecords
  obtain ⟨rfl, rfl, rfl, rfl, -⟩ := hrecords
  exact ⟨rs, rfl⟩

/-- The tests of an announced log have their names. -/
theorem Announced.named {log : List Line} {ctx : Context K} (origin : K)
    (h : ctx.opts.extractResults = true → Announced log) :
    Named ctx ((Recording.State.idle []).run (lineInputs ctx origin 0 log)).records := by
  intro hx r hr
  apply h hx (r.relabel (fun _ => ()) id)
  rw [recorded_eq ctx origin]
  exact List.mem_map_of_mem hr

/-! ## The times of a log -/

/-- The time stamp of a line. -/
def Line.time (ctx : Context K) (l : Line) : K := textStamp ctx 0 l.toStampedLine.logLine.body

/-- The time stamp of a line does not depend on its position. -/
theorem Line.textStamp_eq (ctx : Context K) (l : Line) (n : ℕ) :
    textStamp ctx n l.toStampedLine.logLine.body = l.time ctx := by
  have hparse (m : ℕ) := l.toStampedLine.stamp.parseTimestamp_line l.toStampedLine.blank
    ctx.env.utcOffset (ctx.env.tm m)
  exact congrArg (Rat.cast : ℚ → K) ((hparse n).trans (hparse 0).symm)

/-- What a line is for on another position, counted from another origin. -/
theorem lineInputs_later (ctx : Context K) (origin origin' : K) (first lines : ℕ)
    (log : List Line) : lineInputs ctx origin (first + lines) log =
      (lineInputs ctx origin' first log).map
        (Recording.relabelInput (Point.later (origin' - origin) lines) (· + lines)) := by
  have hline (l : Line) (n : ℕ) : l.input ctx origin (n + lines) =
      (l.input ctx origin' n).map (Point.later (origin' - origin) lines) := by
    unfold Line.input
    rw [l.textStamp_eq ctx (n + lines), l.textStamp_eq ctx n]
    cases l.said.action with
    | take text =>
      have htime : l.time ctx - origin = l.time ctx - origin' + (origin' - origin) := by ring
      rw [htime]
      rfl
    | announce | begin | start | stop | finish | note => rfl
  induction log generalizing first with
  | nil => rfl
  | cons l log ih =>
    rw [lineInputs_cons, lineInputs_cons, List.map_cons, hline, Nat.add_right_comm, ih (first + 1)]
    rfl

variable [LinearOrder K]

variable [IsStrictOrderedRing K]

omit [LinearOrder K] [IsStrictOrderedRing K] in
/-- What is recorded of two logs is what is recorded of the first and then what is recorded of the
second, its times counted from another origin. -/
theorem records_append (ctx : Context K) {front : List Line} (hfront : Complete front)
    (back : List Line) :
    ((Recording.State.idle []).run (logActions ctx (front ++ back))).records =
      ((Recording.State.idle []).run (logActions ctx front)).records ++
        ((Recording.State.idle []).run (logActions ctx back)).records.map
          (Recording.Record.relabel (Point.later (logOrigin ctx (back.map Line.actionLine) -
            logOrigin ctx ((front ++ back).map Line.actionLine)) front.length)
            (· + front.length)) := by
  have hsame : logActions ctx front =
      lineInputs ctx (logOrigin ctx ((front ++ back).map Line.actionLine)) 0 front := by
    rw [logActions_eq]
    cases front <;> rfl
  obtain ⟨records, hrecords⟩ :=
    hfront.run ctx (logOrigin ctx ((front ++ back).map Line.actionLine))
  have hbehind (inputs : List (Recording.Input Client TestName (Point K) × ℕ)) :
      ((Recording.State.idle records).run inputs).records =
        records ++ ((Recording.State.idle []).run inputs).records := by
    have hrun := Recording.State.behind_run records (.idle []) inputs
    rw [Recording.State.behind, Recording.State.behind, Recording.State.idle, List.append_nil]
      at hrun
    exact congrArg Recording.State.records hrun.symm
  rw [logActions_eq ctx (front ++ back), lineInputs_append, Recording.State.run_append, ← hsame,
    hsame, hrecords, hbehind, lineInputs_later ctx _ (logOrigin ctx (back.map Line.actionLine)),
    logActions_eq ctx back]
  exact congrArg (fun r => records ++ Recording.State.records r)
    (Recording.State.relabel_run _ _ (.idle []) _).symm

/-- What a report says: its file, its heading, and its statistics with the printed table. -/
def content (r : Report K) : Option Text × List (Piece K) × Analysis K :=
  (r.file, r.heading, r.analysis)

/-- What the reports of a run of the program say. -/
def contents (result : Result K) : List (Option Text × List (Piece K) × Analysis K) :=
  result.parsed.flatMap fun o => o.elim [] fun o => o.state.reports.map content

end

end FlukeTesting.Drivers
