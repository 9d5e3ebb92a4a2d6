import FlukeTesting.Lib.Shell
import FlukeTesting.PowerstatMeasuring.Collation

/-!
# From the measurements to the collated table

`test.sh` measures the power for every stressor several times. It puts the headings of the first
measurement, the averages of each measurement and the rate of the stressor into a log, where
`parse-log.awk` finds them. The heading of a measurement comes twice, as the script that collates
the logs expects, and a stressor that reports no rate has the rate zero.

The measuring tools are not part of the repository. Nothing is said about their reports but where
the headings, the averages and the rates are.
-/

namespace FlukeTesting.PowerstatMeasuring

open Awk Lines Printf Shell

/-! ## The script -/

/-- `TESTS` -/
def runs : ℕ := 5

/-- The arguments of `run_test`, in their order. -/
def stressors : List Text :=
  ["--cpu 0 --cpu-load 0", "--cpu 0 --cpu-load 1", "--cpu 0 --cpu-load 25",
    "--cpu 0 --cpu-load 50", "--cpu 0 --cpu-load 75", "--cpu 0 --cpu-load 100", "--dentry 0",
    "--itimer 0", "--mmap 0", "--msg 0", "--shm 0", "--sock 0", "--udp 0", "--zlib 0",
    "--switch 0", "--fault 0", "--futex 0", "--hdd 0", "--vm 0"].map String.toList

/-- The rate that is printed for a stressor. -/
def bogos (yaml : Text) : Text :=
  let rate := capture (printField 2 (grep "bogo-ops-per-second-real-time" yaml))
  if fields rate = [] then "0.0".toList else rate

/-- `run_test`, with what the measurements left behind as `stat-$I.log` and `yaml-$I.log`. -/
def runTest (release args : Text) (stat yaml : ℕ → Text) : Text :=
  "Test run ".toList ++ ((seq runs).flatMap fun i => (toString i).toList ++ [' ']) ++ ['\n'] ++
    "Release: ".toList ++ release ++ ", Test: ".toList ++ args ++ ['\n'] ++
    capture (cut 10 (grep "Time" (stat 1))) ++ " Bogos/S".toList ++ ['\n'] ++
    (seq runs).flatMap fun i =>
      capture (cut 10 (grep "Average" (stat i))) ++ [' '] ++ bogos (yaml i) ++ ['\n']

/-! ## Measurements -/

/-- The reports of a stressor: two headings in the first one, averages in each, and a rate or none.
-/
structure Measured (stat yaml : ℕ → Text) : Prop where
  headings : ∃ heading heading', grep "Time" (stat 1) = [heading, heading'] ∧
    (fields (heading.drop 9)).head? = some "User".toList ∧
    (fields (heading'.drop 9)).head? = some "User".toList
  averages : ∀ i ∈ seq runs, ∃ average, grep "Average" (stat i) = [average] ∧
    ∀ field ∈ fields (average.drop 9), isNumeric field = true
  rates : ∀ i ∈ seq runs, grep "bogo-ops-per-second-real-time" (yaml i) = [] ∨
    ∃ line rate rest, grep "bogo-ops-per-second-real-time" (yaml i) = [line] ∧
      ∃ name, fields line = name :: rate :: rest ∧ isNumeric rate = true

/-- The headings of the columns. -/
def titles (stat : ℕ → Text) : List Text :=
  fields (((grep "Time" (stat 1)).getD 1 []).drop 9)

/-- The averages of a measurement. -/
def averages (stat : Text) : List Text := fields (((grep "Average" stat).getD 0 []).drop 9)

/-- The rate of a stressor, which is zero if none is reported. -/
def rate (yaml : Text) : Text :=
  match grep "bogo-ops-per-second-real-time" yaml with
  | [] => "0.0".toList
  | line :: _ => (fields line).getD 1 []

/-- The rows of a test as they should be in the table. -/
def measuredRow (stat yaml : ℕ → Text) : ℕ → Text
  | 0 => [','].intercalate
    (((titles stat ++ ["Bogos/S".toList]).filter fun w => w ≠ "W".toList).map rename)
  | i + 1 => [','].intercalate (averages (stat (i + 1)) ++ [rate (yaml (i + 1))])

/-! ## What `run_test` prints -/

/-- A numeric field is its only field. -/
theorem fields_numeric {field : Text} (h : isNumeric field = true) : fields field = [field] := by
  rw [isNumeric, Bool.and_eq_true, decide_eq_true_iff] at h
  have hsolid : ∀ c ∈ field, isBlank c = false := by
    intro c hc
    have hdigits : "0123456789.+-eE".toList.any isBlank = false := by decide +kernel
    have hdigit := List.contains_iff_mem.mp (List.all_eq_true.mp h.2 c hc)
    exact Bool.eq_false_iff.mpr (List.any_eq_false.mp hdigits c hdigit)
  exact fields_word ⟨field, h.1, hsolid⟩

/-- No newline is in a number. -/
theorem newline_not_mem_numeric {field : Text} (h : isNumeric field = true) : '\n' ∉ field := by
  intro hmem
  rw [isNumeric, Bool.and_eq_true] at h
  exact absurd (List.all_eq_true.mp h.2 _ hmem) (by decide +kernel)

/-- The rate that is printed is the rate of the stressor, and a number. -/
theorem Measured.bogos_eq {stat yaml : ℕ → Text} (h : Measured stat yaml) {i : ℕ}
    (hi : i ∈ seq runs) : bogos (yaml i) = rate (yaml i) ∧ isNumeric (rate (yaml i)) = true := by
  obtain hnone | ⟨line, number, rest, hline, name, hfields, hnumeric⟩ := h.rates i hi
  · rw [bogos, rate, hnone]
    exact ⟨if_pos (by decide +kernel), by decide +kernel⟩
  · have hnumber : (fields line).getD 1 [] = number := by rw [hfields]; rfl
    have hcapture : capture (printField 2 [line]) = number := by
      rw [printField, List.map_singleton, hnumber]
      exact capture_singleton (newline_not_mem_numeric hnumeric)
    rw [bogos, rate, hline, hcapture]
    dsimp only
    rw [hnumber, fields_numeric hnumeric, if_neg (List.cons_ne_nil _ _)]
    exact ⟨rfl, hnumeric⟩

/-- The fields of the line that opens a test. -/
theorem fields_opening (release : Word) (args : Text) :
    fields ("Release: ".toList ++ release.chars ++ ", Test: ".toList ++ args) =
      "Release:".toList :: (release.chars ++ [',']) :: "Test:".toList :: fields args := by
  have hword : ∀ c ∈ release.chars ++ [','], isBlank c = false := by
    intro c hc
    rcases List.mem_append.mp hc with hrelease | hcomma
    · exact release.solid c hrelease
    · rw [List.mem_singleton.mp hcomma]
      decide
  have hfields : fields (release.chars ++ [',']) = [release.chars ++ [',']] :=
    fields_word ⟨_, List.append_ne_nil_of_right_ne_nil _ (List.cons_ne_nil _ _), hword⟩
  have htext : "Release: ".toList ++ release.chars ++ ", Test: ".toList ++ args =
      "Release:".toList ++ ' ' :: ((release.chars ++ [',']) ++ ' ' :: ("Test:".toList ++
        ' ' :: args)) := by
    rw [show "Release: ".toList = "Release:".toList ++ [' '] by decide +kernel,
      show ", Test: ".toList = [','] ++ ' ' :: "Test:".toList ++ [' '] by decide +kernel]
    simp only [List.append_assoc, List.cons_append, List.nil_append]
  rw [htext, fields_append_blank, fields_append_blank, fields_append_blank, hfields,
    show fields "Release:".toList = ["Release:".toList] by decide +kernel,
    show fields "Test:".toList = ["Test:".toList] by decide +kernel]
  rfl

/-- The second heading has the title of the rate behind its own. -/
theorem fields_heading' (heading' : Text) :
    fields (heading' ++ " Bogos/S".toList) = fields heading' ++ ["Bogos/S".toList] := by
  rw [show " Bogos/S".toList = ' ' :: "Bogos/S".toList by decide +kernel, fields_append_blank,
    show fields "Bogos/S".toList = ["Bogos/S".toList] by decide +kernel]

/-- The block of a test in the log. -/
def Measured.block {stat yaml : ℕ → Text} (h : Measured stat yaml) (release : Word) (args : Text) :
    Block release.chars where
  runs := ["Test run ".toList ++ (seq runs).flatMap fun i => (toString i).toList ++ [' ']]
  opening := "Release: ".toList ++ release.chars ++ ", Test: ".toList ++ args
  words := fields args
  heading := ((grep "Time" (stat 1)).getD 0 []).drop 9
  heading' := ((grep "Time" (stat 1)).getD 1 []).drop 9 ++ " Bogos/S".toList
  results := (seq runs).map fun i =>
    ((grep "Average" (stat i)).getD 0 []).drop 9 ++ ' ' :: rate (yaml i)
  runs_test := by decide +kernel
  opening_fields := fields_opening release args
  heading_user := by
    obtain ⟨heading, heading', hgrep, huser, -⟩ := h.headings
    rw [hgrep]
    exact huser
  heading_user' := by
    obtain ⟨heading, heading', hgrep, -, huser⟩ := h.headings
    rw [fields_heading', List.head?_append, hgrep]
    exact congrArg (Option.or · _) huser
  heading_end := by
    rw [fields_heading', List.getLast?_concat]
  results_length := by simp [seq, runs]
  results_numeric := by
    intro l hl field hfield
    obtain ⟨i, hi, rfl⟩ := List.mem_map.mp hl
    obtain ⟨average, hgrep, hnumeric⟩ := h.averages i hi
    have hrate := (h.bogos_eq hi).2
    rw [fields_append_blank, fields_numeric hrate, hgrep] at hfield
    rcases List.mem_append.mp hfield with haverage | hbogos
    · exact hnumeric field haverage
    · rw [List.mem_singleton.mp hbogos]
      exact hrate

/-- The rows of the block are those that should be in the table. -/
theorem Measured.block_row {stat yaml : ℕ → Text} (h : Measured stat yaml) (release : Word)
    (args : Text) {i : ℕ} (hi : i < 6) :
    (h.block release args).row i = measuredRow stat yaml i := by
  cases i with
  | zero =>
    rw [Block.row, Measured.block, fields_heading']
    rfl
  | succ i =>
    have hmem : i + 1 ∈ seq runs :=
      List.mem_map.mpr ⟨i, List.mem_range.mpr (Nat.lt_of_succ_lt_succ hi), rfl⟩
    have hresult : (h.block release args).results.getD i [] =
        ((grep "Average" (stat (i + 1))).getD 0 []).drop 9 ++ ' ' :: rate (yaml (i + 1)) := by
      have hi' : i < (seq runs).length := by
        rw [seq, List.length_map, List.length_range]
        exact Nat.lt_of_succ_lt_succ hi
      simp only [Measured.block]
      rw [List.getD_eq_getElem _ _ (by simpa using hi'), List.getElem_map]
      simp [seq]
    rw [Block.row, hresult, fields_append_blank, fields_numeric (h.bogos_eq hmem).2]
    rfl

/-- A line without its first columns is still a line. -/
theorem newline_not_mem_drop {row : Text} (h : '\n' ∉ row) (n : ℕ) : '\n' ∉ row.drop n :=
  fun hmem => h (List.mem_of_mem_drop hmem)

/-- The headings of the first measurement, as they are printed. -/
theorem Measured.capture_headings {stat yaml : ℕ → Text} (h : Measured stat yaml) :
    capture (cut 10 (grep "Time" (stat 1))) =
      ((grep "Time" (stat 1)).getD 0 []).drop 9 ++ '\n' ::
        ((grep "Time" (stat 1)).getD 1 []).drop 9 := by
  obtain ⟨heading, heading', hgrep, -, huser⟩ := h.headings
  have hne : heading'.drop 9 ≠ [] := by
    intro hnil
    rw [hnil] at huser
    cases huser
  have hline : '\n' ∉ heading' :=
    newline_not_mem_grep (hgrep ▸ List.mem_cons_of_mem _ List.mem_cons_self)
  have hcapture := capture_concat [heading.drop 9] hne (newline_not_mem_drop hline 9)
  rw [hgrep, cut]
  exact hcapture.trans (by simp [unlines])

/-- The averages of a measurement, as they are printed. -/
theorem Measured.capture_averages {stat yaml : ℕ → Text} (h : Measured stat yaml) {i : ℕ}
    (hi : i ∈ seq runs) : capture (cut 10 (grep "Average" (stat i))) =
      ((grep "Average" (stat i)).getD 0 []).drop 9 := by
  obtain ⟨average, haverage, -⟩ := h.averages i hi
  have hline : '\n' ∉ average := newline_not_mem_grep (haverage ▸ List.mem_cons_self)
  rw [haverage, cut]
  exact capture_singleton (newline_not_mem_drop hline 9)

/-- What `run_test` prints is the lines of the block. -/
theorem Measured.runTest_eq {stat yaml : ℕ → Text} (h : Measured stat yaml) (release : Word)
    (args : Text) :
    runTest release.chars args stat yaml = unlines (h.block release args).lines := by
  have hresults : ∀ i ∈ seq runs,
      capture (cut 10 (grep "Average" (stat i))) ++ [' '] ++ bogos (yaml i) ++ ['\n'] =
        (((grep "Average" (stat i)).getD 0 []).drop 9 ++ ' ' :: rate (yaml i)) ++ ['\n'] := by
    intro i hi
    rw [h.capture_averages hi, (h.bogos_eq hi).1, List.append_assoc _ [' '], List.singleton_append]
  have hlines : unlines (h.block release args).lines =
      unlines (h.block release args).runs ++ (h.block release args).opening ++ ['\n'] ++
        (h.block release args).heading ++ ['\n'] ++ (h.block release args).heading' ++ ['\n'] ++
        unlines (h.block release args).results := by
    simp only [Block.lines, unlines, List.flatMap_append, List.flatMap_cons, List.append_assoc]
  unfold runTest
  rw [h.capture_headings, List.flatMap_congr hresults, hlines]
  have hruns : unlines (h.block release args).runs = "Test run ".toList ++
      ((seq runs).flatMap fun i => (toString i).toList ++ [' ']) ++ ['\n'] := by
    simp only [Measured.block, unlines, List.flatMap_cons, List.flatMap_nil, List.append_nil]
  have hrows : unlines (h.block release args).results = (seq runs).flatMap fun i =>
      (((grep "Average" (stat i)).getD 0 []).drop 9 ++ ' ' :: rate (yaml i)) ++ ['\n'] := by
    simp only [Measured.block, unlines, List.flatMap_map]
  rw [hruns, hrows]
  simp only [Measured.block, List.append_assoc, List.cons_append, List.nil_append]

/-- No newline is in a field. -/
theorem newline_not_mem_field {field : Text} (h : ∀ c ∈ field, isBlank c = false) :
    '\n' ∉ field := fun hmem => Bool.noConfusion ((h _ hmem).symm.trans rfl)

/-- No newline is in a line of the block. -/
theorem Measured.oneLine {stat yaml : ℕ → Text} (h : Measured stat yaml) (release : Word)
    {args : Text} (hargs : '\n' ∉ args) : ∀ l ∈ (h.block release args).lines, '\n' ∉ l := by
  obtain ⟨heading, heading', hgrep, -, -⟩ := h.headings
  have hheading : '\n' ∉ heading := newline_not_mem_grep (hgrep ▸ List.mem_cons_self)
  have hheading' : '\n' ∉ heading' :=
    newline_not_mem_grep (hgrep ▸ List.mem_cons_of_mem _ List.mem_cons_self)
  have htexts : '\n' ∉ "Release: ".toList ∧ '\n' ∉ ", Test: ".toList ∧
      '\n' ∉ " Bogos/S".toList := by decide +kernel
  obtain ⟨hrelease, htest, hbogos⟩ := htexts
  intro l hl
  rcases List.mem_append.mp hl with hruns | hl
  · rw [List.mem_singleton.mp hruns]
    decide +kernel
  rcases List.mem_cons.mp hl with rfl | hl
  · simp only [Measured.block, List.mem_append, hrelease, htest, hargs,
      newline_not_mem_field release.solid, or_self, not_false_eq_true]
  rcases List.mem_cons.mp hl with rfl | hl
  · simp only [Measured.block, hgrep]
    exact newline_not_mem_drop hheading 9
  rcases List.mem_cons.mp hl with rfl | hl
  · simp only [Measured.block, hgrep, List.mem_append, hbogos, or_false]
    exact newline_not_mem_drop hheading' 9
  · obtain ⟨i, hi, rfl⟩ := List.mem_map.mp hl
    obtain ⟨average, haverage, -⟩ := h.averages i hi
    have hline : '\n' ∉ average := newline_not_mem_grep (haverage ▸ List.mem_cons_self)
    rw [haverage, List.mem_append, List.mem_cons, not_or, not_or]
    exact ⟨newline_not_mem_drop hline 9, by decide, newline_not_mem_numeric (h.bogos_eq hi).2⟩

/-! ## Sessions -/

/-- A terminal session in which the script measures all stressors on one release. -/
structure Session where
  release : Word
  setup : List Text
  stat : Text → ℕ → Text
  yaml : Text → ℕ → Text
  closing : List Text
  release_noComma : ',' ∉ release.chars
  setup_line : ∀ l ∈ setup, '\n' ∉ l
  setup_other : ∀ l ∈ setup, (fields l).head? ≠ some "Release:".toList
  measured : ∀ args ∈ stressors, Measured (stat args) (yaml args)
  closing_line : ∀ l ∈ closing, '\n' ∉ l
  closing_other : ∀ l ∈ closing, (fields l).head? ≠ some "Release:".toList

/-- What the terminal records. -/
def Session.text (s : Session) : Text :=
  unlines s.setup ++ (stressors.flatMap fun args =>
    runTest s.release.chars args (s.stat args) (s.yaml args)) ++ unlines s.closing

/-- The stressors are told apart, and their words have single blanks between them. -/
theorem stressors_words : stressors.Nodup ∧ ∀ args ∈ stressors, '\n' ∉ args ∧
    [' '].intercalate (fields args) = args := by decide +kernel

/-- The blocks of a session, one for every stressor. -/
def Session.blocks (s : Session) : List (Block s.release.chars) :=
  stressors.attach.map fun args => (s.measured args.1 args.2).block s.release args.1

/-- The tests of the blocks are the stressors. -/
theorem Session.map_test_blocks (s : Session) : s.blocks.map Block.test = stressors := by
  rw [blocks, List.map_map]
  have htest : ∀ args ∈ stressors.attach,
      (Block.test ∘ fun args : {a // a ∈ stressors} =>
        (s.measured args.1 args.2).block s.release args.1) args = args.1 :=
    fun args _ => (stressors_words.2 args.1 args.2).2
  rw [List.map_congr_left htest]
  exact List.attach_map_subtype_val stressors

/-- A session is a log with a block for every stressor. -/
def Session.log (s : Session) : CompleteLog where
  release := s.release.chars
  preamble := s.setup
  blocks := s.blocks
  trailing := s.closing
  release_ne_nil := s.release.ne_nil
  release_noComma := s.release_noComma
  preamble_other := s.setup_other
  tests_nodup := s.map_test_blocks ▸ stressors_words.1
  trailing_other := s.closing_other

/-- The blocks of a session are what the script prints. -/
theorem Session.unlines_blocks (s : Session) : unlines (s.blocks.flatMap Block.lines) =
    stressors.flatMap fun args => runTest s.release.chars args (s.stat args) (s.yaml args) := by
  have hblock : ∀ args ∈ stressors.attach,
      unlines ((s.measured args.1 args.2).block s.release args.1).lines =
        runTest s.release.chars args.1 (s.stat args.1) (s.yaml args.1) :=
    fun args _ => ((s.measured args.1 args.2).runTest_eq s.release args.1).symm
  rw [← flatMap_unlines, blocks, List.flatMap_map, List.flatMap_congr hblock]
  conv_rhs => rw [← List.attach_map_subtype_val stressors, List.flatMap_map]

/-- The records of a session are the lines of its log. -/
theorem Session.records_append (s : Session) (rest : Text) :
    records (s.text ++ rest) = s.log.lines ++ records rest := by
  have hlines : ∀ l ∈ s.log.lines, '\n' ∉ l := by
    intro l hl
    rcases List.mem_append.mp hl with hfront | hclosing
    · rcases List.mem_append.mp hfront with hsetup | hblocks
      · exact s.setup_line l hsetup
      · obtain ⟨b, hb, hl⟩ := List.mem_flatMap.mp hblocks
        obtain ⟨args, -, rfl⟩ := List.mem_map.mp hb
        exact (s.measured _ args.2).oneLine s.release (stressors_words.2 _ args.2).1 l hl
    · exact s.closing_line l hclosing
  rw [← records_unlines_append hlines]
  congr 2
  rw [CompleteLog.lines, unlines_append, unlines_append]
  exact congrArg (unlines s.setup ++ · ++ unlines s.closing) s.unlines_blocks.symm

/-- The records of several sessions are the lines of their logs. -/
theorem records_sessions (sessions : List Session) :
    records (sessions.flatMap Session.text) =
      (sessions.map Session.log).flatMap CompleteLog.lines := by
  induction sessions with
  | nil => rfl
  | cons s rest ih => rw [List.flatMap_cons, s.records_append, ih, List.map_cons, List.flatMap_cons]

/-- Sessions on different releases are collated into a table for every stressor, with the averages
and the rates that were measured under every release. -/
theorem sessions_collate (sessions : List Session) (hne : sessions ≠ [])
    (hdistinct : (sessions.map fun s => s.release.chars).Nodup) :
    ∃ (tests releases : List Text) (rows : Text → Text → ℕ → Text),
      tests.Pairwise (· < ·) ∧ (∀ t, t ∈ tests ↔ t ∈ stressors) ∧
      releases.Pairwise (· > ·) ∧ (∀ r, r ∈ releases ↔ ∃ s ∈ sessions, s.release.chars = r) ∧
      (∀ s ∈ sessions, ∀ args ∈ stressors, ∀ i < 6,
        rows args s.release.chars i = measuredRow (s.stat args) (s.yaml args) i) ∧
      parseLog (records (sessions.flatMap Session.text)) =
        tests.flatMap fun t => testLines (rows t) releases t := by
  have hlogs : ((sessions.map Session.log).map CompleteLog.release).Nodup := by
    rwa [List.map_map]
  obtain ⟨tests, releases, rows, htests, hmemTests, hreleases, hmemReleases, hrows, -, hout⟩ :=
    tables_collated hlogs
  refine ⟨tests, releases, rows, htests, fun t => ?_, hreleases, fun r => ?_, ?_, ?_⟩
  · rw [hmemTests]
    constructor
    · rintro ⟨log, hlog, b, hb, rfl⟩
      obtain ⟨s, -, rfl⟩ := List.mem_map.mp hlog
      exact s.map_test_blocks ▸ List.mem_map_of_mem hb
    · intro ht
      obtain ⟨s, hs⟩ := List.exists_mem_of_ne_nil _ hne
      rw [← s.map_test_blocks] at ht
      obtain ⟨b, hb, hbt⟩ := List.mem_map.mp ht
      exact ⟨s.log, List.mem_map_of_mem hs, b, hb, hbt⟩
  · rw [hmemReleases]
    constructor
    · rintro ⟨log, hlog, -, rfl⟩
      obtain ⟨s, hs, rfl⟩ := List.mem_map.mp hlog
      exact ⟨s, hs, rfl⟩
    · rintro ⟨s, hs, rfl⟩
      have hblocks : s.blocks ≠ [] := by
        intro hnil
        have hstressors := s.map_test_blocks
        rw [hnil, List.map_nil] at hstressors
        exact absurd hstressors (by decide)
      exact ⟨s.log, List.mem_map_of_mem hs, hblocks, rfl⟩
  · intro s hs args hargs i hi
    have hb : (s.measured args hargs).block s.release args ∈ s.log.blocks :=
      List.mem_map.mpr ⟨⟨args, hargs⟩, List.mem_attach _ _, rfl⟩
    have hrow := (hrows s.log (List.mem_map_of_mem hs) _ hb i hi).trans
      ((s.measured args hargs).block_row s.release args hi)
    have htest : ((s.measured args hargs).block s.release args).test = args :=
      (stressors_words.2 args hargs).2
    exact (congrArg (rows · s.release.chars i) htest.symm).trans hrow
  · rw [records_sessions, parseLog_eq, hout]

/-- A report of the power, with both headings and the averages. -/
def idleStat : Text :=
  unlines ["Running for 60.0 seconds (60 samples at 1.0 second intervals).".toList,
    "  Time    User  Nice   Sys   Watts".toList,
    "22:14:02   1.5   0.0   0.2    2.65".toList,
    " Average   1.5   0.0   0.2    2.65".toList,
    "  Time    User  Nice   Sys   Watts".toList]

/-- A report of the rate. -/
def idleYaml : Text :=
  unlines ["metrics:".toList, "      bogo-ops-per-second-real-time: 640.1".toList]

/-- They are the measurements of a stressor. -/
theorem idle_measured : Measured (fun _ => idleStat) fun _ => idleYaml where
  headings := ⟨"  Time    User  Nice   Sys   Watts".toList,
    "  Time    User  Nice   Sys   Watts".toList, by decide +kernel, by decide +kernel,
    by decide +kernel⟩
  averages _ _ := ⟨" Average   1.5   0.0   0.2    2.65".toList, by decide +kernel,
    by decide +kernel⟩
  rates _ _ := .inr ⟨"      bogo-ops-per-second-real-time: 640.1".toList, "640.1".toList, [],
    by decide +kernel, "bogo-ops-per-second-real-time:".toList, by decide +kernel,
    by decide +kernel⟩

/-- A session in which all stressors leave these reports behind. -/
def idleSession (release : Word) (h : ',' ∉ release.chars) : Session where
  release := release
  setup := ["Script started on Fri".toList]
  stat _ _ := idleStat
  yaml _ _ := idleYaml
  closing := ["exit".toList, "Script done on Fri".toList]
  release_noComma := h
  setup_line := by decide +kernel
  setup_other := by decide +kernel
  measured _ _ := idle_measured
  closing_line := by decide +kernel
  closing_other := by decide +kernel

/-- An earlier release. -/
def earlierRelease : Word :=
  ⟨['4', '.', '1', '3', '.', '0', '-', '2', '1'], List.cons_ne_nil _ _, by simp [isBlank]⟩

/-- A later release. -/
def laterRelease : Word :=
  ⟨['4', '.', '1', '5', '.', '0', '-', '1', '0'], List.cons_ne_nil _ _, by simp [isBlank]⟩

/-- Two sessions on two releases. -/
theorem idleSessions_collate :
    let sessions := [idleSession earlierRelease (by decide +kernel),
      idleSession laterRelease (by decide +kernel)]
    sessions ≠ [] ∧ (sessions.map fun s => s.release.chars).Nodup ∧
    ∃ (tests releases : List Text) (rows : Text → Text → ℕ → Text),
      tests.Pairwise (· < ·) ∧ (∀ t, t ∈ tests ↔ t ∈ stressors) ∧
      releases.Pairwise (· > ·) ∧ (∀ r, r ∈ releases ↔ ∃ s ∈ sessions, s.release.chars = r) ∧
      (∀ s ∈ sessions, ∀ args ∈ stressors, ∀ i < 6,
        rows args s.release.chars i = measuredRow (s.stat args) (s.yaml args) i) ∧
      parseLog (records (sessions.flatMap Session.text)) =
        tests.flatMap fun t => testLines (rows t) releases t := by
  intro sessions
  have hdistinct : (sessions.map fun s => s.release.chars).Nodup := by decide +kernel
  exact ⟨List.cons_ne_nil _ _, hdistinct,
    sessions_collate sessions (List.cons_ne_nil _ _) hdistinct⟩

end FlukeTesting.PowerstatMeasuring
