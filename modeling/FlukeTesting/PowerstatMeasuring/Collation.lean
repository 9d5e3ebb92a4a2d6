import FlukeTesting.PowerstatMeasuring.Blocks

/-!
# What the collation shows of its logs

However many logs are read, and in whatever order, the table shows the rows of every block under its
test and its release, and nothing of the other lines.
-/

namespace FlukeTesting.PowerstatMeasuring

open Awk

/-! ## Logs of several blocks -/

/-- Behind some blocks, their entries are shown as well. -/
theorem Shows.blocks {release : Text} (hcomma : ',' ∉ release) {entries : List Entry} {s : State}
    (h : Shows entries s) (blocks : List (Block release)) :
    Shows (entries ++ blocks.map Block.entry) (s.run (blocks.flatMap Block.lines)) := by
  induction blocks generalizing entries s with
  | nil =>
    rw [List.map_nil, List.append_nil]
    exact h
  | cons b rest ih =>
    rw [List.map_cons, List.append_cons, List.flatMap_cons, State.run_append]
    exact ih (b.shows hcomma h)

/-- Behind a log, its entries are shown as well. -/
theorem Shows.log {entries : List Entry} {s : State} (h : Shows entries s) (log : CompleteLog) :
    Shows (entries ++ log.entries) (s.run log.lines) := by
  rw [CompleteLog.lines, State.run_append, State.run_append]
  exact ((h.run log.preamble_other).blocks log.release_noComma log.blocks).run log.trailing_other

/-- Behind some logs, their entries are shown as well. -/
theorem Shows.logs {entries : List Entry} {s : State} (h : Shows entries s)
    (logs : List CompleteLog) :
    Shows (entries ++ logs.flatMap CompleteLog.entries)
      (s.run (logs.flatMap CompleteLog.lines)) := by
  induction logs generalizing entries s with
  | nil =>
    rw [List.flatMap_nil, List.append_nil]
    exact h
  | cons log rest ih =>
    rw [List.flatMap_cons, List.flatMap_cons, ← List.append_assoc, State.run_append]
    exact ih (h.log log)

/-- The entries of a log are under its release. -/
theorem CompleteLog.release_of_mem {log : CompleteLog} {e : Entry} (he : e ∈ log.entries) :
    e.release = log.release := by
  obtain ⟨b, -, rfl⟩ := List.mem_map.mp he
  rfl

/-- An entry of a log is known by its test. -/
theorem CompleteLog.entry_unique {log : CompleteLog} {e e' : Entry} (he : e ∈ log.entries)
    (he' : e' ∈ log.entries) (htest : e.test = e'.test) : e = e' := by
  obtain ⟨b, hb, rfl⟩ := List.mem_map.mp he
  obtain ⟨b', hb', rfl⟩ := List.mem_map.mp he'
  rw [List.inj_on_of_nodup_map log.tests_nodup hb hb' htest]

/-! ## Entries -/

/-- No two of the entries are for the same test and the same release. -/
def Distinct (entries : List Entry) : Prop :=
  ∀ e ∈ entries, ∀ e' ∈ entries, e.test = e'.test → e.release = e'.release → e = e'

/-- Logs of distinct releases have distinct entries. -/
theorem distinct_entries {logs : List CompleteLog}
    (hdistinct : (logs.map CompleteLog.release).Nodup) :
    Distinct (logs.flatMap CompleteLog.entries) := by
  intro e he e' he' htest hrelease
  obtain ⟨log, hlog, helog⟩ := List.mem_flatMap.mp he
  obtain ⟨log', hlog', helog'⟩ := List.mem_flatMap.mp he'
  have heq : log.release = log'.release := by
    rw [← log.release_of_mem helog, hrelease, log'.release_of_mem helog']
  obtain rfl := List.inj_on_of_nodup_map hdistinct hlog hlog' heq
  exact log.entry_unique helog helog' htest

/-- Among distinct entries, the row for a test and a release is that of their entry. -/
theorem cell_of_mem {entries : List Entry} (hdistinct : Distinct entries) {e : Entry}
    (he : e ∈ entries) (i : ℕ) : cell entries e.test e.release i = e.row i := by
  cases hfind : entries.reverse.find? fun e' => e'.test = e.test ∧ e'.release = e.release with
  | none =>
    have := List.find?_eq_none.mp hfind e (List.mem_reverse.mpr he)
    exact absurd this (by simp)
  | some e' =>
    have hmem : e' ∈ entries := List.mem_reverse.mp (List.mem_of_find?_eq_some hfind)
    have hkey : e'.test = e.test ∧ e'.release = e.release := by
      simpa using List.find?_some hfind
    rw [cell, hfind, hdistinct e' hmem e he hkey.1 hkey.2]
    rfl

/-- Without an entry for a test and a release, its rows are blank. -/
theorem cell_of_not_mem {entries : List Entry} {t r : Text}
    (h : ¬ ∃ e ∈ entries, e.test = t ∧ e.release = r) (i : ℕ) : cell entries t r i = [] := by
  have hnone : (entries.reverse.find? fun e => e.test = t ∧ e.release = r) = none := by
    rw [List.find?_eq_none]
    intro e he heq
    exact h ⟨e, List.mem_reverse.mp he, by simpa using heq⟩
  rw [cell, hnone]
  rfl

/-- The rows of distinct entries do not depend on their order. -/
theorem cell_perm {entries entries' : List Entry} (hdistinct : Distinct entries)
    (h : entries.Perm entries') (t r : Text) (i : ℕ) :
    cell entries' t r i = cell entries t r i := by
  by_cases hmem : ∃ e ∈ entries, e.test = t ∧ e.release = r
  · obtain ⟨e, he, rfl, rfl⟩ := hmem
    have hdistinct' : Distinct entries' := fun a ha b hb =>
      hdistinct a (h.mem_iff.mpr ha) b (h.mem_iff.mpr hb)
    rw [cell_of_mem hdistinct' (h.mem_iff.mp he), cell_of_mem hdistinct he]
  · have hmem' : ¬ ∃ e ∈ entries', e.test = t ∧ e.release = r := fun ⟨e, he, heq⟩ =>
      hmem ⟨e, h.mem_iff.mpr he, heq⟩
    rw [cell_of_not_mem hmem', cell_of_not_mem hmem]

/-! ## The output -/

/-- The table of a test depends on the six rows of the listed releases only. -/
theorem testLines_congr {row row' : Text → ℕ → Text} {releases : List Text}
    (h : ∀ r ∈ releases, ∀ i < 6, row r i = row' r i) (t : Text) :
    testLines row releases t = testLines row' releases t := by
  have hreleases (l : ℤ) : releasesLines row releases l = releasesLines row' releases l := by
    induction releases generalizing l with
    | nil => rfl
    | cons r rest ih =>
      have hrows : (List.range 6).map (fun i => Line.text (',' :: row r i)) =
          (List.range 6).map fun i => Line.text (',' :: row' r i) :=
        List.map_congr_left fun i hi => by
          rw [h r List.mem_cons_self i (List.mem_range.mp hi)]
      rw [releasesLines, releasesLines, releaseLines, hrows, ← releaseLines,
        ih fun r' hr' => h r' (List.mem_cons_of_mem r hr')]
  rw [testLines, testLines, hreleases]

/-- The tables of some entries: the tests in order, and the releases from the last to the first. -/
def tables (entries : List Entry) : List Line :=
  (asorti (entries.map Entry.test)).flatMap fun t =>
    testLines (cell entries t) (asorti (entries.map Entry.release)).reverse t

/-- The output is the tables of the entries that are shown. -/
theorem Shows.finish_eq {entries : List Entry} {s : State} (h : Shows entries s)
    (hrelease : ∀ e ∈ entries, e.release ≠ []) : s.finish = tables entries := by
  have htests : asorti s.tests = asorti (entries.map Entry.test) :=
    asorti_congr fun t => by rw [h.mem_tests, List.mem_map]
  have hreleases : asorti s.releases = asorti (entries.map Entry.release) :=
    asorti_congr fun r => by rw [h.mem_releases, List.mem_map]
  rw [PowerstatMeasuring.finish_eq, htests, hreleases, tables]
  refine List.flatMap_congr fun t _ => testLines_congr (fun r hr i hi => ?_) t
  obtain ⟨e, he, rfl⟩ := List.mem_map.mp (mem_asorti.mp (List.mem_reverse.mp hr))
  exact h.rows t e.release i (hrelease e he) hi

/-- The output for some logs is the tables of their entries. -/
theorem parseLog_eq (logs : List CompleteLog) :
    parseLog (logs.flatMap CompleteLog.lines) = tables (logs.flatMap CompleteLog.entries) := by
  apply (shows_initial.logs logs).finish_eq
  intro e he
  obtain ⟨log, -, helog⟩ := List.mem_flatMap.mp he
  rw [log.release_of_mem helog]
  exact log.release_ne_nil

/-- The logs in another order have the same tables. -/
theorem tables_perm {entries entries' : List Entry} (hdistinct : Distinct entries)
    (h : entries.Perm entries') : tables entries' = tables entries := by
  have htests : asorti (entries'.map Entry.test) = asorti (entries.map Entry.test) :=
    asorti_congr fun t => (h.map Entry.test).symm.mem_iff
  have hreleases : asorti (entries'.map Entry.release) = asorti (entries.map Entry.release) :=
    asorti_congr fun r => (h.map Entry.release).symm.mem_iff
  rw [tables, htests, hreleases, tables]
  exact List.flatMap_congr fun t _ =>
    testLines_congr (fun r _ i _ => cell_perm hdistinct h t r i) t

/-- The output collates the logs: it lists their tests in order, and under each test their releases
in descending order, each with the six rows of its block of the test, or blank ones. -/
def Collated (logs : List CompleteLog) (out : List Line) : Prop :=
  ∃ (tests releases : List Text) (rows : Text → Text → ℕ → Text),
    tests.Pairwise (· < ·) ∧
    (∀ t, t ∈ tests ↔ ∃ log ∈ logs, ∃ b ∈ log.blocks, b.test = t) ∧
    releases.Pairwise (· > ·) ∧
    (∀ r, r ∈ releases ↔ ∃ log ∈ logs, log.blocks ≠ [] ∧ log.release = r) ∧
    (∀ log ∈ logs, ∀ b ∈ log.blocks, ∀ i < 6, rows b.test log.release i = b.row i) ∧
    (∀ t r, (¬ ∃ log ∈ logs, log.release = r ∧ ∃ b ∈ log.blocks, b.test = t) →
      ∀ i < 6, rows t r i = []) ∧
    out = tests.flatMap fun t => testLines (rows t) releases t

/-- The entries of some logs are those of their blocks. -/
theorem mem_entries {logs : List CompleteLog} {e : Entry} :
    e ∈ logs.flatMap CompleteLog.entries ↔
      ∃ log ∈ logs, ∃ b ∈ log.blocks, b.entry = e := by
  simp only [List.mem_flatMap, CompleteLog.entries, List.mem_map]

/-- The tables of logs of distinct releases collate them. -/
theorem tables_collated {logs : List CompleteLog}
    (hdistinct : (logs.map CompleteLog.release).Nodup) :
    Collated logs (tables (logs.flatMap CompleteLog.entries)) := by
  refine ⟨_, _, _, asorti_pairwise _, fun t => ?_, List.pairwise_reverse.mpr (asorti_pairwise _),
    fun r => ?_, fun log hlog b hb i _ => ?_, fun t r h i _ => ?_, rfl⟩
  · rw [mem_asorti, List.mem_map]
    constructor
    · rintro ⟨e, he, rfl⟩
      obtain ⟨log, hlog, b, hb, rfl⟩ := mem_entries.mp he
      exact ⟨log, hlog, b, hb, rfl⟩
    · rintro ⟨log, hlog, b, hb, rfl⟩
      exact ⟨b.entry, mem_entries.mpr ⟨log, hlog, b, hb, rfl⟩, rfl⟩
  · rw [List.mem_reverse, mem_asorti, List.mem_map]
    constructor
    · rintro ⟨e, he, rfl⟩
      obtain ⟨log, hlog, b, hb, rfl⟩ := mem_entries.mp he
      exact ⟨log, hlog, List.ne_nil_of_mem hb, rfl⟩
    · rintro ⟨log, hlog, hblocks, rfl⟩
      obtain ⟨b, hb⟩ := List.exists_mem_of_ne_nil _ hblocks
      exact ⟨b.entry, mem_entries.mpr ⟨log, hlog, b, hb, rfl⟩, rfl⟩
  · exact cell_of_mem (distinct_entries hdistinct) (mem_entries.mpr ⟨log, hlog, b, hb, rfl⟩) i
  · refine cell_of_not_mem (fun ⟨e, he, htest, hrelease⟩ => h ?_) i
    obtain ⟨log, hlog, b, hb, rfl⟩ := mem_entries.mp he
    exact ⟨log, hlog, hrelease, b, hb, htest⟩

/-- Logs of distinct releases are collated, and it does not matter in which order they are read. -/
theorem parseLog_collates (logs : List CompleteLog)
    (hdistinct : (logs.map CompleteLog.release).Nodup) :
    Collated logs (parseLog (logs.flatMap CompleteLog.lines)) ∧
      ∀ logs' : List CompleteLog, logs.Perm logs' →
        parseLog (logs'.flatMap CompleteLog.lines) = parseLog (logs.flatMap CompleteLog.lines) := by
  constructor
  · rw [parseLog_eq]
    exact tables_collated hdistinct
  · intro logs' hperm
    rw [parseLog_eq, parseLog_eq]
    exact tables_perm (distinct_entries hdistinct) (hperm.flatMap_right CompleteLog.entries)

/-- A log of one test, as a terminal records it. -/
def earlierLog : CompleteLog where
  release := "4.13.0-21".toList
  preamble := ["Script started on Fri".toList, [], "User manager".toList]
  blocks := [{
    runs := ["Test run 1 2 3 4 5 ".toList]
    opening := "Release: 4.13.0-21, Test: --cpu 0 --cpu-load 1".toList
    words := ["--cpu".toList, "0".toList, "--cpu-load".toList, "1".toList]
    heading := "  User  Nice   Sys   W".toList
    heading' := "  User  Nice   Sys   W Bogos/S".toList
    results := List.replicate 5 "  1.5   0.0   0.2   2.65 640.1".toList
    runs_test := by decide
    opening_fields := by decide
    heading_user := by decide
    heading_user' := by decide
    heading_end := by decide
    results_length := rfl
    results_numeric := by decide }]
  trailing := ["exit".toList, [], "Script done on Fri".toList]
  release_ne_nil := by decide
  release_noComma := by decide
  preamble_other := by decide
  tests_nodup := by decide
  trailing_other := by decide

/-- The log of the same test under another release. -/
def laterLog : CompleteLog where
  release := "4.15.0-10".toList
  preamble := ["Script started on Sat".toList]
  blocks := [{
    runs := []
    opening := "Release: 4.15.0-10, Test: --cpu 0  --cpu-load 1".toList
    words := ["--cpu".toList, "0".toList, "--cpu-load".toList, "1".toList]
    heading := "  User  Nice   Sys".toList
    heading' := "  User  Nice   Sys Bogos/S".toList
    results := List.replicate 5 "  1.4   0.0   0.1   651.8".toList
    runs_test := by decide
    opening_fields := by decide
    heading_user := by decide
    heading_user' := by decide
    heading_end := by decide
    results_length := rfl
    results_numeric := by decide }]
  trailing := []
  release_ne_nil := by decide
  release_noComma := by decide
  preamble_other := by decide
  tests_nodup := by decide
  trailing_other := by decide

/-- The two logs can be read in either order. -/
theorem earlierLog_laterLog_collate :
    ([earlierLog, laterLog].map CompleteLog.release).Nodup ∧
      Collated [earlierLog, laterLog] (parseLog (earlierLog.lines ++ laterLog.lines)) ∧
      parseLog (laterLog.lines ++ earlierLog.lines) =
        parseLog (earlierLog.lines ++ laterLog.lines) := by
  have hdistinct : ([earlierLog, laterLog].map CompleteLog.release).Nodup := by decide
  obtain ⟨hcollated, hperm⟩ := parseLog_collates [earlierLog, laterLog] hdistinct
  have hswap := hperm [laterLog, earlierLog] (List.Perm.swap _ _ _)
  rw [List.flatMap_cons, List.flatMap_cons, List.flatMap_nil, List.append_nil] at hcollated hswap
  rw [List.flatMap_cons, List.flatMap_cons, List.flatMap_nil, List.append_nil] at hswap
  exact ⟨hdistinct, hcollated, hswap⟩

end FlukeTesting.PowerstatMeasuring
