import FlukeTesting.Drivers.Messages
import FlukeTesting.Lib.Plans
import FlukeTesting.Lib.Printf

/-!
# What the drivers send

Every driver runs its tests one after the other. A test announces the machine and its own name,
marks the beginning and the end of every iteration, and then its own end. The drivers differ in the
names, in what they put behind the marks of a run, in further messages, and in whether they announce
the machine for every test or once.
-/

namespace FlukeTesting.Drivers

open Statstool Scanf

/-! ## Tests -/

/-- One iteration: the marks of its run, and what is sent behind it. -/
structure Iteration where
  run : RunMark
  notes : List Payload

/-- The messages of an iteration. -/
def Iteration.messages (i : Iteration) : List Message :=
  .testRunBegin i.run :: .testRunEnd i.run :: i.notes.map .other

/-- A test of a driver: its announcement, if it has one of its own, its name, its iterations, what
stands behind the mark of its end, and what is sent behind it. -/
structure Script where
  client : Option Machine
  title : Title
  iterations : List Iteration
  ending : Payload
  notes : List Payload

/-- The messages of a test. -/
def Script.messages (s : Script) : List Message :=
  s.client.elim [] (fun machine => [.testClient machine]) ++
    .testBegin s.title :: s.iterations.flatMap Iteration.messages ++
      .testEnd s.ending :: s.notes.map .other

/-- The plan of a test. -/
def Script.plan (s : Script) : Recording.Plan Client TestName where
  client := s.client.map Machine.toClient
  test := s.title.toTestName
  rounds := s.iterations.map fun i => i.notes.length
  notes := s.notes.length

/-- The messages of a test are the inputs of its plan. -/
theorem Script.actions (s : Script) : s.messages.map Message.action = s.plan.session := by
  have hnotes (notes : List Payload) : (notes.map Message.other).map Message.action =
      List.replicate notes.length .note := by
    rw [List.map_map]
    exact List.map_const'
  have hround (i : Iteration) : i.messages.map Message.action =
      Recording.roundInputs i.notes.length := by
    rw [Iteration.messages, List.map_cons, List.map_cons, hnotes]
    rfl
  have hrounds : (s.iterations.flatMap Iteration.messages).map Message.action =
      (s.iterations.map fun i => i.notes.length).flatMap Recording.roundInputs := by
    rw [List.map_flatMap, List.flatMap_map]
    exact congrArg (List.flatMap · s.iterations) (funext hround)
  have hclient : (s.client.elim [] (fun machine => [Message.testClient machine])).map
      Message.action =
        (s.client.map Machine.toClient).elim [] (fun c => [Recording.Input.announce c]) := by
    cases s.client <;> rfl
  rw [Script.messages, List.map_append, List.map_append, List.map_cons, hrounds, hclient,
    List.map_cons, hnotes]
  simp [Recording.Plan.session, Recording.Plan.inputs, Recording.Plan.opening, Script.plan,
    Message.action]

/-- A driver: its tests, and what it sends behind them. -/
structure Driver where
  scripts : List Script
  closing : List Message
  closing_mild : ∀ m ∈ closing, m.action ≠ .start ∧ m.action ≠ .finish

/-- The messages of a driver. -/
def Driver.messages (d : Driver) : List Message := d.scripts.flatMap Script.messages ++ d.closing

/-- The plans of a driver. -/
def Driver.plans (d : Driver) : List (Recording.Plan Client TestName) := d.scripts.map Script.plan

/-- The messages of a driver are the inputs of its plans, and then what closes them. -/
theorem Driver.actions (d : Driver) : d.messages.map Message.action =
    d.plans.flatMap Recording.Plan.session ++ d.closing.map Message.action := by
  rw [Driver.messages, List.map_append, List.map_flatMap, Driver.plans, List.flatMap_map]
  exact congrArg (· ++ _) (congrArg (List.flatMap · d.scripts) (funext Script.actions))

/-! ## Texts -/

/-- A text that the source spells out. -/
def literal (text : String) (plain : Plain text.toList := by decide +kernel) : Payload :=
  ⟨text.toList, plain⟩

/-- A text with a character that is not blank has a word. -/
theorem scanWord_isSome {text : Text} {c : Char} (hmem : c ∈ text) (hc : isSpace c = false) :
    (scanWord text).isSome = true := by
  have hbody : text.dropWhile isSpace ≠ [] := by
    intro hnil
    rw [List.dropWhile_eq_nil_iff] at hnil
    rw [hnil c hmem] at hc
    contradiction
  obtain ⟨a, rest, hrest⟩ := List.exists_cons_of_ne_nil hbody
  have ha : isSpace a = false := by
    have hhead := List.head_dropWhile_not isSpace hbody
    simpa [hrest] using hhead
  unfold scanWord
  simp [hrest, ha]

/-- The first word of a name is no longer than the name. -/
theorem firstWord_length_le (name : TestName) : name.firstWord.length ≤ name.text.length := by
  obtain ⟨⟨word, rest⟩, hword⟩ := Option.isSome_iff_exists.mp name.notBlank
  have hfirst : name.firstWord = word := by
    simp [TestName.firstWord, testWord, testFormat, sscanf, hword]
  have hlength : word.length ≤ name.text.length := by
    unfold scanWord at hword
    dsimp only at hword
    split at hword
    · contradiction
    · rw [Option.some.injEq, Prod.mk.injEq] at hword
      rw [← hword.1]
      exact ((List.takeWhile_sublist _).trans (List.dropWhile_sublist _)).length_le
  rwa [hfirst]

/-- A name of a test with a character that is not blank, and shorter than the buffer. -/
def Title.of (payload : Payload) {c : Char} (hmem : c ∈ payload.text) (hc : isSpace c = false)
    (hshort : payload.text.length < nameSize) : Title where
  text := payload.text
  notBlank := scanWord_isSome hmem hc
  plain := payload.plain
  fits := (firstWord_length_le ⟨payload.text, scanWord_isSome hmem hc⟩).trans_lt hshort

/-- A name of a test that the source spells out. -/
def Title.literal (text : String) (plain : Plain text.toList := by decide +kernel)
    (notBlank : (scanWord text.toList).isSome = true := by decide +kernel)
    (short : text.toList.length < nameSize := by decide +kernel) : Title where
  text := text.toList
  notBlank := notBlank
  plain := plain
  fits := (firstWord_length_le ⟨text.toList, notBlank⟩).trans_lt short

/-- A number has neither an underscore nor an `M` in it. -/
theorem notMem_decimal {c : Char} (hminus : c ≠ '-') (hdigit : c.isDigit = false) (n : ℤ) :
    c ∉ (Printf.decimal n).chars := by
  have hdigits : c ∉ Nat.toDigits 10 n.natAbs := fun hmem => by
    rw [Nat.isDigit_of_mem_toDigits (by decide) (by decide) hmem] at hdigit
    contradiction
  unfold Printf.decimal Printf.signed
  dsimp only
  split
  · rw [List.mem_cons, not_or]
    exact ⟨hminus, hdigits⟩
  · exact hdigits

/-- Two counts and their difference: `$n2 $n1 $diff`. -/
def countsText (n1 n2 : ℤ) : Text :=
  (Printf.decimal n2).chars ++ ' ' :: ((Printf.decimal n1).chars ++ ' ' ::
    (Printf.decimal (n2 - n1)).chars)

/-- A text without keywords' letters in front of two counts and their difference. -/
def countsNote (front : Text) (n1 n2 : ℤ) (hunderscore : '_' ∉ front) (hm : 'M' ∉ front) :
    Payload where
  text := front ++ countsText n1 n2
  plain := by
    have hnumber {c : Char} (hminus : c ≠ '-') (hdigit : c.isDigit = false) (hspace : c ≠ ' ') :
        c ∉ countsText n1 n2 := by
      simp [countsText, notMem_decimal hminus hdigit, hspace]
    refine plain_of_notMem ?_ ?_
    · rw [List.mem_append, not_or]
      exact ⟨hunderscore, hnumber (by decide) (by decide) (by decide)⟩
    · rw [List.mem_append, not_or]
      exact ⟨hm, hnumber (by decide) (by decide) (by decide)⟩

/-! ## Drivers with `do_test` -/

/-- `do_test`: the machine is announced for the test, and every tag carries its name. -/
def doTest (machine : Machine) (title : Title) (notes : List (List Payload)) : Script where
  client := some machine
  title := title
  iterations := notes.map fun ns => ⟨.named title.payload, ns⟩
  ending := title.payload
  notes := []

/-- `TEST_QUIT`. -/
def quitPayload : Payload := literal "TEST_QUIT"

/-- The last message of most drivers. -/
def testQuit : List Message := [.other quitPayload]

/-- A driver whose tests announce themselves and that quits behind them. -/
def quitting (scripts : List Script) : Driver where
  scripts := scripts
  closing := testQuit
  closing_mild := by simp [testQuit, Message.action]

/-- The name of the test of `idle/test.sh`. -/
def idleTitle : Title := .literal "idle"

/-- `idle/test.sh`. -/
def idle (machine : Machine) (iterations : ℕ) : Driver :=
  quitting [doTest machine idleTitle (List.replicate iterations [])]

/-- `hdd-dd/test-read.sh`. -/
def ddRead (machine : Machine) (iterations : ℕ) : Driver :=
  quitting [doTest machine (.literal "dd read 16GB") (List.replicate iterations [])]

/-- `hdd-dd/test-write.sh`. -/
def ddWrite (machine : Machine) (iterations : ℕ) : Driver :=
  quitting [doTest machine (.literal "dd write 16GB") (List.replicate iterations [])]

/-- `hdd-bonnie/test.sh`. -/
def bonnie (machine : Machine) (iterations : ℕ) : Driver :=
  quitting [doTest machine (.literal "bonnie++") (List.replicate iterations [])]

/-- `hdd-tiobench/test.sh`. -/
def tiobench (machine : Machine) (iterations : ℕ) : Driver :=
  quitting [doTest machine (.literal "tiobench") (List.replicate iterations [])]

/-- `do_test` of `hdd-spin-start-stop/test.sh`: behind every run the counts of its start and its end
are sent. -/
def spinTest (machine : Machine) (name : String) (counts : List (ℤ × ℤ))
    (plain : Plain name.toList := by decide +kernel)
    (notBlank : (scanWord name.toList).isSome = true := by decide +kernel)
    (short : name.toList.length < nameSize := by decide +kernel)
    (underscore : '_' ∉ "HDD ".toList ++ name.toList ++ ": Start Stop Delta: ".toList := by
      decide +kernel)
    (m : 'M' ∉ "HDD ".toList ++ name.toList ++ ": Start Stop Delta: ".toList := by
      decide +kernel) : Script :=
  doTest machine (.literal name plain notBlank short) (counts.map fun (n1, n2) =>
    [countsNote ("HDD ".toList ++ name.toList ++ ": Start Stop Delta: ".toList) n1 n2
      underscore m])

/-- `hdd-spin-start-stop/test.sh`. -/
def spinStartStop (machine : Machine) (counts : Fin 6 → List (ℤ × ℤ)) : Driver :=
  quitting [
    spinTest machine "hdparm -B 127 -S 12" (counts 0),
    spinTest machine "hdparm -B 127 -S 24" (counts 1),
    spinTest machine "hdparm -B 127 -S 36" (counts 2),
    spinTest machine "hdparm -B 127 -S 48" (counts 3),
    spinTest machine "hdparm -B 127 -S 60" (counts 4),
    spinTest machine "hdparm -B 127 -S 120" (counts 5)]

/-- `generic-tests/test.sh` on the names of the scripts that it finds. -/
def genericTests (machine : Machine) (names : List Title) (iterations : ℕ) : Driver :=
  quitting (names.map fun name => doTest machine name (List.replicate iterations []))

/-! ## Drivers with tags of their own -/

/-- `do_test` of `mouse/test.sh`: the tags of a run do not carry the name of the test, and behind
every run the counts of interrupts at its start and its end are sent. -/
def mouseTest (machine : Machine) (title : Title) (counts : List (ℤ × ℤ)) : Script where
  client := some machine
  title := title
  iterations := counts.map fun (n1, n2) =>
    ⟨.named (literal "mousepad IRQs"),
      [countsNote "IRQS ".toList n1 n2 (by decide +kernel) (by decide +kernel)]⟩
  ending := title.payload
  notes := []

/-- `mouse/test.sh`. -/
def mouse (machine : Machine) (still moving : List (ℤ × ℤ)) : Driver :=
  quitting [mouseTest machine (.literal "Touchpad, no movement") still,
    mouseTest machine (.literal "Touchpad, movement") moving]

/-- `do_test` of `msr-energy-perf-bias/test.sh`: the end of the test carries the policy alone. -/
def msrTest (machine : Machine) (title : Title) (policy : Payload) (iterations : ℕ) : Script where
  client := some machine
  title := title
  iterations := List.replicate iterations ⟨.named title.payload, []⟩
  ending := policy
  notes := []

/-- `msr-energy-perf-bias/test.sh`. -/
def msrEnergyPerfBias (machine : Machine) (iterations : ℕ) : Driver :=
  quitting [
    msrTest machine (.literal "MSR_IA32_ENERGY_PERF_BIAS=performance") (literal "performance")
      iterations,
    msrTest machine (.literal "MSR_IA32_ENERGY_PERF_BIAS=powersave") (literal "powersave")
      iterations,
    msrTest machine (.literal "MSR_IA32_ENERGY_PERF_BIAS=normal") (literal "normal") iterations]

/-- `generic-apps/test.sh`. -/
def genericApps (machine : Machine) (iterations : ℕ) : Driver :=
  quitting [doTest machine (.literal "Generic Applications") (List.replicate iterations [])]

/-- A test of `generic-apps-x32`: one run for every application, and behind it what `sendtag` makes
of the words of `get_mem_stats`. -/
def x32Test (machine : Machine) (runs : List (Payload × Payload)) : Driver :=
  quitting [{
    client := some machine
    title := .literal "Generic Applications"
    iterations := runs.map fun (run, memStats) => ⟨.named run, [memStats]⟩
    ending := literal "Generic Applications"
    notes := [] }]

/-- `generic-apps-x32/test-dd.sh`. -/
def x32Dd (machine : Machine) (memStats : Payload) : Driver :=
  x32Test machine [(literal "Generic Applications: dd copy", memStats)]

/-- `generic-apps-x32/test-glxgears.sh`. -/
def x32Glxgears (machine : Machine) (memStats : Payload) : Driver :=
  x32Test machine [(literal "Generic Applications: glxgears", memStats)]

/-- `generic-apps-x32/test-idle.sh`. -/
def x32Idle (machine : Machine) (memStats : Payload) : Driver :=
  x32Test machine [(literal "Generic Applications: Idle", memStats)]

/-- `generic-apps-x32/test-mp3.sh`. -/
def x32Mp3 (machine : Machine) (memStats : Payload) : Driver :=
  x32Test machine [(literal "Generic Applications: Rhythmbox", memStats)]

/-- `generic-apps-x32/test-vlc.sh`. -/
def x32Vlc (machine : Machine) (memStats : Payload) : Driver :=
  x32Test machine [(literal "Generic Applications: VLC", memStats)]

/-- `generic-apps-x32/test-lots-apps.sh`. -/
def x32LotsApps (machine : Machine) (libreOffice firefox thunderbird : Payload) : Driver :=
  x32Test machine [(literal "Generic Applications: LibreOffice", libreOffice),
    (literal "Generic Applications: Firefox", firefox),
    (literal "Generic Applications: Thunderbird", thunderbird)]

/-! ## `pm-tests` -/

/-- A script of `pm-tests`: its name, what `sendtag` makes of the second word of its marks, and how
many runs it measures in one iteration, which is one or, for the tests of `disable_wol` on a machine
without `ethtool`, none. -/
structure PmScript where
  title : Title
  behind : Option Payload
  measures : Bool

/-- The test of a script: the script sends the marks of the run itself. -/
def PmScript.test (machine : Machine) (iterations : ℕ) (s : PmScript) : Script where
  client := some machine
  title := s.title
  iterations := if s.measures then List.replicate iterations ⟨.quoted s.behind, []⟩ else []
  ending := s.title.payload
  notes := []

/-- `pm-tests/test.sh` on the scripts that it finds. It does not send `TEST_QUIT`. -/
def pmTests (machine : Machine) (scripts : List PmScript) (iterations : ℕ) : Driver where
  scripts := scripts.map (PmScript.test machine iterations)
  closing := []
  closing_mild := by simp

/-! ## Drivers with one announcement -/

/-- The text of a brightness level: `Brightness Level $L`. -/
def levelText (level : ℕ) : Text :=
  "Brightness".toList ++ ' ' :: ("Level ".toList ++ (Printf.decimal level).chars)

/-- The text of a level begins with `Brightness`. -/
theorem scanWord_levelText (level : ℕ) : ∃ rest,
    scanWord (levelText level) = some ("Brightness".toList, rest) :=
  ⟨_, scanWord_space_append (by decide +kernel) _⟩

/-- The text of a level is plain. -/
theorem plain_levelText (level : ℕ) : Plain (levelText level) := by
  have hlevel : Plain ("Level ".toList ++ (Printf.decimal level).chars) := by
    apply plain_of_notMem
    · rw [List.mem_append, not_or]
      exact ⟨by decide +kernel, notMem_decimal (by decide) (by decide) _⟩
    · rw [List.mem_append, not_or]
      exact ⟨by decide +kernel, notMem_decimal (by decide) (by decide) _⟩
  exact plain_append_space (by decide +kernel) hlevel

/-- The text of a level is not blank. -/
theorem notBlank_levelText (level : ℕ) : (scanWord (levelText level)).isSome = true := by
  obtain ⟨rest, hrest⟩ := scanWord_levelText level
  rw [hrest]
  rfl

/-- The first word of a level fits. -/
theorem fits_levelText (level : ℕ) :
    (TestName.firstWord ⟨levelText level, notBlank_levelText level⟩).length < nameSize := by
  obtain ⟨rest, hrest⟩ := scanWord_levelText level
  simp only [TestName.firstWord, testWord, testFormat, sscanf, hrest]
  decide +kernel

/-- The test of a brightness level. -/
def backlightTest (client : Option Machine) (iterations level : ℕ) : Script where
  client := client
  title := {
    text := levelText level
    notBlank := notBlank_levelText level
    plain := plain_levelText level
    fits := fits_levelText level }
  iterations := List.replicate iterations ⟨.named ⟨levelText level, plain_levelText level⟩, []⟩
  ending := ⟨levelText level, plain_levelText level⟩
  notes := []

/-- `backlight-dimming/test.sh`: the machine is announced in front of the levels `0..max`. -/
def backlightDimming (machine : Machine) (max iterations : ℕ) : Driver :=
  quitting (backlightTest (some machine) iterations 0 ::
    (List.range max).map fun level => backlightTest none iterations (level + 1))

/-- An option of `powertop`: its description, with room for the setting in the buffer. -/
structure Tweak where
  description : Payload
  short : description.text.length + 7 < nameSize

/-- A description with its setting: `$description (Bad)` or `$description (Good)`. -/
def Tweak.setting (tweak : Tweak) (good : Bool) : Payload where
  text := tweak.description.text ++ ' ' :: (if good then "(Good)" else "(Bad)").toList
  plain := plain_append_space tweak.description.plain (by cases good <;> decide +kernel)

/-- The test of an option in one of its settings. -/
def tweakTest (client : Option Machine) (iterations : ℕ) (tweak : Tweak) (good : Bool) :
    Script where
  client := client
  title := .of (tweak.setting good) (c := '(') (by cases good <;> simp [Tweak.setting])
    (by decide) (by
      have hshort := tweak.short
      cases good <;> simp [Tweak.setting] <;> omega)
  iterations := (List.range iterations).map fun k => ⟨.named {
    text := (tweak.setting good).text ++ ' ' :: (Printf.decimal (k + 1 : ℕ)).chars
    plain := plain_append_space (tweak.setting good).plain
      (plain_of_notMem (notMem_decimal (by decide) (by decide) _)
        (notMem_decimal (by decide) (by decide) _)) }, []⟩
  ending := tweak.setting good
  notes := if good then [literal "TEST_DELTA"] else []

/-- `powertop-tweaks/test.sh` on the options that it finds: the machine is announced in front of
them, and each is tested in both settings. -/
def powertopTweaks (machine : Machine) (tweaks : List Tweak) (iterations : ℕ) : Driver where
  scripts := match tweaks with
    | [] => []
    | tweak :: tweaks =>
      tweakTest (some machine) iterations tweak false :: tweakTest none iterations tweak true ::
        tweaks.flatMap fun tweak =>
          [tweakTest none iterations tweak false, tweakTest none iterations tweak true]
  closing := if tweaks.isEmpty then [.testClient machine] else []
  closing_mild := by
    split
    · simp [Message.action]
    · simp

/-- Whatever the options are, the machine is announced first, and only then the options follow. -/
theorem powertopTweaks_messages (machine : Machine) (tweaks : List Tweak) (iterations : ℕ) :
    (powertopTweaks machine tweaks iterations).messages = .testClient machine ::
      tweaks.flatMap fun tweak => (tweakTest none iterations tweak false).messages ++
        (tweakTest none iterations tweak true).messages := by
  cases tweaks with
  | nil => rfl
  | cons tweak tweaks =>
    have hrest : (tweaks.flatMap fun tweak => [tweakTest none iterations tweak false,
        tweakTest none iterations tweak true]).flatMap Script.messages =
          tweaks.flatMap fun tweak => (tweakTest none iterations tweak false).messages ++
            (tweakTest none iterations tweak true).messages := by
      rw [List.flatMap_assoc]
      simp
    simp only [Driver.messages, powertopTweaks, List.flatMap_cons, hrest, List.isEmpty_cons,
      Bool.false_eq_true, if_false, List.append_nil, List.append_assoc]
    rfl

/-- Every test of a driver announces its machine. -/
def Driver.Announces (d : Driver) : Prop := ∀ s ∈ d.scripts, s.client.isSome = true

/-- The drivers whose tests announce their machine: all but those with one announcement. -/
inductive Announcing (machine : Machine) : Driver → Prop
  | idle (iterations : ℕ) : Announcing machine (idle machine iterations)
  | ddRead (iterations : ℕ) : Announcing machine (ddRead machine iterations)
  | ddWrite (iterations : ℕ) : Announcing machine (ddWrite machine iterations)
  | bonnie (iterations : ℕ) : Announcing machine (bonnie machine iterations)
  | tiobench (iterations : ℕ) : Announcing machine (tiobench machine iterations)
  | spinStartStop (counts : Fin 6 → List (ℤ × ℤ)) :
    Announcing machine (spinStartStop machine counts)
  | genericTests (names : List Title) (iterations : ℕ) :
    Announcing machine (genericTests machine names iterations)
  | mouse (still moving : List (ℤ × ℤ)) : Announcing machine (mouse machine still moving)
  | msrEnergyPerfBias (iterations : ℕ) : Announcing machine (msrEnergyPerfBias machine iterations)
  | genericApps (iterations : ℕ) : Announcing machine (genericApps machine iterations)
  | x32 (runs : List (Payload × Payload)) : Announcing machine (x32Test machine runs)
  | pmTests (scripts : List PmScript) (iterations : ℕ) :
    Announcing machine (pmTests machine scripts iterations)

/-- The tests of these drivers announce their machine. -/
theorem Announcing.announces {machine : Machine} {d : Driver} (h : Announcing machine d) :
    d.Announces := by
  cases h with
  | genericTests names iterations =>
    intro s hs
    obtain ⟨name, -, rfl⟩ := List.mem_map.mp hs
    rfl
  | pmTests scripts iterations =>
    intro s hs
    obtain ⟨script, -, rfl⟩ := List.mem_map.mp hs
    rfl
  | spinStartStop counts =>
    simp [Driver.Announces, FlukeTesting.Drivers.spinStartStop, quitting, spinTest, doTest]
  | mouse still moving =>
    simp [Driver.Announces, FlukeTesting.Drivers.mouse, quitting, mouseTest]
  | msrEnergyPerfBias iterations =>
    simp [Driver.Announces, FlukeTesting.Drivers.msrEnergyPerfBias, quitting, msrTest]
  | idle | ddRead | ddWrite | bonnie | tiobench | genericApps | x32 =>
    intro s hs
    obtain rfl := List.mem_singleton.mp hs
    rfl

end FlukeTesting.Drivers
