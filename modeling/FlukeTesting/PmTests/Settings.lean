import FlukeTesting.Drivers.Runs
import FlukeTesting.Lib.Bench

/-!
# The settings under which `pm-tests` measures

A script of `pm-tests` changes power settings, measures a run, and may change the settings back. The
scripts that call `pm-powersave true` do not change them back, so what a later run is measured under
depends on the scripts in front of it. Two hooks do not just follow their argument: `95hdparm-apm`
asks `on_ac_power`, for which only its own tests export an answer, and `sata_alpm` does something
only while the file is there that only its own tests write, and then remove.
-/

namespace FlukeTesting.PmTests

open Statstool Drivers

/-- The hooks of `power.d` that the scripts call. -/
inductive Hook
  | hdparmApm
  | disableWol
  | intelAudioPowersave
  | journalCommit
  | laptopMode
  | pcieAspm
  | readahead
  | sataAlpm
  | schedPowersave
  | wireless
  deriving DecidableEq

/-- Which hooks have been set to save power. -/
abbrev Settings := Hook → Bool

/-- `AC_POWER_ON`. -/
def acPowerOn : ℕ := 0

/-- `AC_POWER_OFF`. -/
def acPowerOff : ℕ := 1

/-- `on_ac_power` of the directory, which the hooks find in front of the one of the system: it
answers as `AC_POWER_SETTING` says, of which `exit` keeps a byte, or that it cannot tell. -/
def onAcPower : Option ℕ → ℕ
  | some setting => setting % 2 ^ 8
  | none => 255

/-- What a hook sets itself to if it is called with an argument: `95hdparm-apm` asks only
`on_ac_power`, and `sata_alpm` does nothing unless its file enables it. -/
def Hook.turn (apm : ℕ → Bool) (argument : Bool) (answer : ℕ) (file : Bool) : Hook → Option Bool
  | hdparmApm => some (apm answer)
  | sataAlpm => if file then some argument else none
  | _ => some argument

/-- What the scripts rely on in `pm-utils`, where a hook is called with the answer of `on_ac_power`
and whether `/etc/pm/config.d/sata_alpm` enables `sata_alpm`: a hook does nothing without an
argument and touches no other one, and `pm-powersave` calls every hook with its own argument. What
`95hdparm-apm` does when `on_ac_power` cannot tell is left open. -/
structure PmUtils where
  apm : ℕ → Bool
  hook : Hook → Option Bool → ℕ → Bool → Settings → Settings
  powersave : Bool → ℕ → Bool → Settings → Settings
  apm_on : apm acPowerOn = false
  apm_off : apm acPowerOff = true
  hook_some : ∀ h argument answer file s, hook h (some argument) answer file s =
    Function.update s h ((h.turn apm argument answer file).getD (s h))
  hook_none : ∀ h answer file s, hook h none answer file s = s
  powersave_eq : ∀ argument answer file s, powersave argument answer file s =
    fun h => (h.turn apm argument answer file).getD (s h)

/-- The power settings, and whether `/etc/pm/config.d/sata_alpm` enables `sata_alpm`. -/
@[ext]
structure State where
  settings : Settings
  sataAlpmFile : Bool

/-- What is seen of a session: messages that are sent, and workloads with their settings. -/
abbrev Output := Bench.Output Message Settings

/-- A session of commands. -/
abbrev Session := Bench.Session State Message Settings

section

variable (utils : PmUtils) (setting : Option ℕ)

/-- `/usr/lib/pm-utils/power.d/` with a hook. -/
def callHook (hook : Hook) (argument : Option Bool) : Bench.Command State Output :=
  .change fun w =>
    { w with settings := utils.hook hook argument (onAcPower setting) w.sataAlpmFile w.settings }

/-- `pm-powersave`. -/
def pmPowersave (argument : Bool) : Bench.Command State Output :=
  .change fun w =>
    { w with settings := utils.powersave argument (onAcPower setting) w.sataAlpmFile w.settings }

end

/-- `/etc/pm/config.d/sata_alpm` is written or removed. -/
def writeSataAlpm (enable : Bool) : Bench.Command State Output :=
  .change fun w => { w with sataAlpmFile := enable }

/-- A workload between the tags of its run. -/
def measure (mark : RunMark) : Session :=
  Bench.measure (.testRunBegin mark) (.testRunEnd mark) State.settings

/-! ## The scripts -/

section

variable (utils : PmUtils) (setting : Option ℕ)

/-- `run_test` of most scripts: the hook is called with the argument of the test, a run is measured,
and the hook is called with `false`. -/
def runTest (hook : Hook) (argument : Bool) (mark : RunMark) : Session :=
  callHook utils setting hook (some argument) :: measure mark ++
    [callHook utils setting hook (some false)]

/-- `run_test` of `95hdparm-apm-test`: `AC_POWER_SETTING` is exported for both calls. -/
def hdparmApmTest (argument : Bool) (mark : RunMark) : Session :=
  callHook utils (some (if argument then acPowerOff else acPowerOn)) .hdparmApm (some argument) ::
    measure mark ++ [callHook utils (some acPowerOn) .hdparmApm (some false)]

/-- `run_test_idle` and `run_test_make` of `sata-alpm-test`: the file is there for both calls. -/
def sataAlpmTest (argument : Bool) (mark : RunMark) : Session :=
  writeSataAlpm true :: callHook utils setting .sataAlpm (some argument) :: measure mark ++
    [callHook utils setting .sataAlpm (some false), writeSataAlpm false]

/-- `run_test` of `disable-wol-test`: the hook is called behind the workload. Without `ethtool` the
script does nothing. -/
def disableWolTest (ethtool : Bool) (argument : Bool) (mark : RunMark) : Session :=
  if ethtool then
    [Bench.send (.testRunBegin mark), Bench.workload State.settings,
      callHook utils setting .disableWol (some argument), Bench.send (.testRunEnd mark),
      callHook utils setting .disableWol (some false)]
  else []

/-- The scripts of `all-test`. -/
def allTest (argument : Bool) (mark : RunMark) : Session :=
  pmPowersave utils setting argument :: measure mark

/-- The scripts of `laptop-mode-test` with `make`: `run_test_make` gets no argument. -/
def laptopModeMakeTest (argument : Bool) (mark : RunMark) : Session :=
  pmPowersave utils setting argument :: callHook utils setting .laptopMode none ::
    measure mark ++ [callHook utils setting .laptopMode (some false)]

end

/-- The pairs of scripts. -/
inductive Kind
  | hdparmApm
  | allIdle
  | allMake
  | disableWol
  | intelAudioPowersave
  | journalCommit
  | journalCommitRunApps
  | laptopModeIdle
  | laptopModeMake
  | pcieAspm
  | readahead
  | readaheadRunApps
  | sataAlpmIdle
  | sataAlpmMake
  | schedPowersave
  | wireless
  deriving DecidableEq

namespace Kind

/-- The names of a pair without their endings. -/
def stem : Kind → String
  | hdparmApm => "test-95hdparm-apm"
  | allIdle => "test-all-idle"
  | allMake => "test-all-make"
  | disableWol => "test-disable-wol"
  | intelAudioPowersave => "test-intel-audio-powersave"
  | journalCommit => "test-journal-commit"
  | journalCommitRunApps => "test-journal-commit-run-apps"
  | laptopModeIdle => "test-laptop-mode-idle"
  | laptopModeMake => "test-laptop-mode-make"
  | pcieAspm => "test-pcie-aspm"
  | readahead => "test-readahead"
  | readaheadRunApps => "test-readahead-run-apps"
  | sataAlpmIdle => "test-sata-alpm-idle"
  | sataAlpmMake => "test-sata-alpm-make"
  | schedPowersave => "test-sched-powersave"
  | wireless => "test-wireless"

/-- What a script does. -/
def script (utils : PmUtils) (setting : Option ℕ) (ethtool argument : Bool) (mark : RunMark) :
    Kind → Session
  | hdparmApm => hdparmApmTest utils argument mark
  | allIdle => allTest utils setting argument mark
  | allMake => allTest utils setting argument mark
  | disableWol => disableWolTest utils setting ethtool argument mark
  | intelAudioPowersave => runTest utils setting .intelAudioPowersave argument mark
  | journalCommit => runTest utils setting .journalCommit argument mark
  | journalCommitRunApps => runTest utils setting .journalCommit argument mark
  | laptopModeIdle => runTest utils setting .laptopMode argument mark
  | laptopModeMake => laptopModeMakeTest utils setting argument mark
  | pcieAspm => runTest utils setting .pcieAspm argument mark
  | readahead => runTest utils setting .readahead argument mark
  | readaheadRunApps => runTest utils setting .readahead argument mark
  | sataAlpmIdle => sataAlpmTest utils setting argument mark
  | sataAlpmMake => sataAlpmTest utils setting argument mark
  | schedPowersave => runTest utils setting .schedPowersave argument mark
  | wireless => runTest utils setting .wireless argument mark

/-- The hook that a pair is named after; `all-test` is named after all of them. -/
def hook? : Kind → Option Hook
  | hdparmApm => some .hdparmApm
  | allIdle | allMake => none
  | disableWol => some .disableWol
  | intelAudioPowersave => some .intelAudioPowersave
  | journalCommit | journalCommitRunApps => some .journalCommit
  | laptopModeIdle | laptopModeMake => some .laptopMode
  | pcieAspm => some .pcieAspm
  | readahead | readaheadRunApps => some .readahead
  | sataAlpmIdle | sataAlpmMake => some .sataAlpm
  | schedPowersave => some .schedPowersave
  | wireless => some .wireless

/-- The pairs that call `pm-powersave`. -/
def whole : Kind → Bool
  | allIdle | allMake | laptopModeMake => true
  | _ => false

/-- The pairs that write and remove `/etc/pm/config.d/sata_alpm`. -/
def removesFile : Kind → Bool
  | sataAlpmIdle | sataAlpmMake => true
  | _ => false

end Kind

/-- A script: one of a pair. -/
structure PmTest where
  kind : Kind
  enabled : Bool
  deriving DecidableEq

namespace PmTest

/-- The name of a script. -/
def name (t : PmTest) : Text :=
  t.kind.stem.toList ++ (if t.enabled then "-enabled.sh" else "-disabled.sh").toList

/-- A name is plain. -/
theorem plain_name (t : PmTest) : Plain t.name := by
  obtain ⟨kind, enabled⟩ := t
  apply plain_of_notMem
  · cases kind <;> cases enabled <;> decide +kernel
  · cases kind <;> cases enabled <;> decide +kernel

/-- A name fits into its buffer. -/
theorem length_name (t : PmTest) : t.name.length < nameSize := by
  obtain ⟨kind, enabled⟩ := t
  cases kind <;> cases enabled <;> decide +kernel

/-- A name begins with a letter. -/
theorem mem_name (t : PmTest) : 't' ∈ t.name := by
  obtain ⟨kind, enabled⟩ := t
  cases kind <;> cases enabled <;> decide +kernel

/-- A letter is not blank. -/
theorem isSpace_letter : Scanf.isSpace 't' = false := rfl

/-- A name as the name of a test. -/
def title (t : PmTest) : Title :=
  .of ⟨t.name, t.plain_name⟩ t.mem_name isSpace_letter t.length_name

section

variable (utils : PmUtils) (setting : Option ℕ) (ethtool : Bool)
  (behind : PmTest → Option Payload)

/-- What a script does. -/
def script (t : PmTest) : Session :=
  t.kind.script utils setting ethtool t.enabled (.quoted (behind t))

/-- A script sends tags of a run, which the tests of `disable_wol` only do with `ethtool`. -/
def measures (t : PmTest) : Bool := decide (t.kind ≠ .disableWol) || ethtool

/-- A script as the driver finds it. -/
def pmScript (t : PmTest) : PmScript := ⟨t.title, behind t, t.measures ethtool⟩

variable (machine : Machine) (iterations : ℕ)

/-- What `test.sh` does for one script. -/
def session (t : PmTest) : Session :=
  Bench.send (.testClient machine) :: Bench.send (.testBegin t.title) ::
    (List.replicate iterations t).flatMap (script utils setting ethtool behind) ++
      [Bench.send (.testEnd t.title.payload)]

end

end PmTest

/-- `test.sh` on the scripts that it finds, with the `AC_POWER_SETTING` that they inherit. -/
def session (utils : PmUtils) (setting : Option ℕ) (ethtool : Bool)
    (behind : PmTest → Option Payload) (machine : Machine) (iterations : ℕ)
    (tests : List PmTest) : Session :=
  tests.flatMap (PmTest.session utils setting ethtool behind machine iterations)

/-! ## One script -/

section

variable (utils : PmUtils)

/-- `95hdparm-apm` follows the answer of `on_ac_power`. -/
theorem hook_hdparmApm (argument : Bool) (answer : ℕ) (file : Bool) (s : Settings) :
    utils.hook .hdparmApm (some argument) answer file s =
      Function.update s .hdparmApm (utils.apm answer) := utils.hook_some _ _ _ _ _

/-- `sata_alpm` follows its argument if its file enables it. -/
theorem hook_sataAlpm (argument : Bool) (answer : ℕ) (s : Settings) :
    utils.hook .sataAlpm (some argument) answer true s =
      Function.update s .sataAlpm argument := utils.hook_some _ _ _ _ _

/-- Every other hook follows its argument. -/
theorem hook_other {hook : Hook} (happ : hook ≠ .hdparmApm) (hsata : hook ≠ .sataAlpm)
    (argument : Bool) (answer : ℕ) (file : Bool) (s : Settings) :
    utils.hook hook (some argument) answer file s = Function.update s hook argument := by
  rw [utils.hook_some]
  cases hook with
  | hdparmApm => exact absurd rfl happ
  | sataAlpm => exact absurd rfl hsata
  | _ => rfl

variable (setting : Option ℕ) (argument : Bool) (mark : RunMark) (w : State)

/-- Most scripts leave their hook switched off. -/
theorem exec_runTest {hook : Hook} (happ : hook ≠ .hdparmApm) (hsata : hook ≠ .sataAlpm) :
    Bench.exec (runTest utils setting hook argument mark) w =
      ⟨Function.update w.settings hook false, w.sataAlpmFile⟩ := by
  change State.mk (utils.hook hook (some false) _ _ (utils.hook hook (some argument) _ _ _)) _ = _
  rw [hook_other utils happ hsata, hook_other utils happ hsata, Function.update_idem]

/-- The workload of most scripts runs with their hook set. -/
theorem trace_runTest {hook : Hook} (happ : hook ≠ .hdparmApm) (hsata : hook ≠ .sataAlpm) :
    Bench.trace (runTest utils setting hook argument mark) w =
      [.sent (.testRunBegin mark), .work (Function.update w.settings hook argument),
        .sent (.testRunEnd mark)] := by
  change [_, Bench.Output.work (utils.hook hook (some argument) _ _ _), _] = _
  rw [hook_other utils happ hsata]

/-- The tests of `95hdparm-apm` leave it as on AC power. -/
theorem exec_hdparmApmTest : Bench.exec (hdparmApmTest utils argument mark) w =
    ⟨Function.update w.settings .hdparmApm false, w.sataAlpmFile⟩ := by
  change State.mk (utils.hook .hdparmApm (some false) acPowerOn _
    (utils.hook .hdparmApm (some argument) _ _ _)) _ = _
  rw [hook_hdparmApm, hook_hdparmApm, utils.apm_on, Function.update_idem]

/-- The workload of the tests of `95hdparm-apm` runs with it set, as it takes the power to be off in
the enabled one. -/
theorem trace_hdparmApmTest : Bench.trace (hdparmApmTest utils argument mark) w =
    [.sent (.testRunBegin mark), .work (Function.update w.settings .hdparmApm argument),
      .sent (.testRunEnd mark)] := by
  change [_, Bench.Output.work (utils.hook .hdparmApm (some argument) _ _ _), _] = _
  rw [hook_hdparmApm]
  cases argument
  · exact congrArg (fun b => [_, Bench.Output.work (Function.update _ _ b), _]) utils.apm_on
  · exact congrArg (fun b => [_, Bench.Output.work (Function.update _ _ b), _]) utils.apm_off

/-- The tests of `sata_alpm` leave it switched off, and without its file. -/
theorem exec_sataAlpmTest : Bench.exec (sataAlpmTest utils setting argument mark) w =
    ⟨Function.update w.settings .sataAlpm false, false⟩ := by
  change State.mk (utils.hook .sataAlpm (some false) _ true
    (utils.hook .sataAlpm (some argument) _ true _)) _ = _
  rw [hook_sataAlpm, hook_sataAlpm, Function.update_idem]

/-- The workload of the tests of `sata_alpm` runs with it set. -/
theorem trace_sataAlpmTest : Bench.trace (sataAlpmTest utils setting argument mark) w =
    [.sent (.testRunBegin mark), .work (Function.update w.settings .sataAlpm argument),
      .sent (.testRunEnd mark)] := by
  change [_, Bench.Output.work (utils.hook .sataAlpm (some argument) _ true _), _] = _
  rw [hook_sataAlpm]

/-- With `ethtool`, the tests of `disable_wol` leave the hook switched off. -/
theorem exec_disableWolTest : Bench.exec (disableWolTest utils setting true argument mark) w =
    ⟨Function.update w.settings .disableWol false, w.sataAlpmFile⟩ := by
  change State.mk (utils.hook .disableWol (some false) _ _
    (utils.hook .disableWol (some argument) _ _ _)) _ = _
  rw [hook_other utils (by decide) (by decide), hook_other utils (by decide) (by decide),
    Function.update_idem]

/-- The tests of `laptop-mode-make` leave `laptop-mode` switched off, and else what `pm-powersave`
makes of the settings. -/
theorem exec_laptopModeMakeTest :
    Bench.exec (laptopModeMakeTest utils setting argument mark) w =
      ⟨Function.update (utils.powersave argument (onAcPower setting) w.sataAlpmFile w.settings)
        .laptopMode false, w.sataAlpmFile⟩ := by
  change State.mk
    (utils.hook .laptopMode (some false) _ _ (utils.hook .laptopMode none _ _ _)) _ = _
  rw [hook_other utils (by decide) (by decide), utils.hook_none]

/-- The workload of the tests of `laptop-mode-make` runs under what `pm-powersave` makes of the
settings. -/
theorem trace_laptopModeMakeTest :
    Bench.trace (laptopModeMakeTest utils setting argument mark) w =
      [.sent (.testRunBegin mark),
        .work (utils.powersave argument (onAcPower setting) w.sataAlpmFile w.settings),
        .sent (.testRunEnd mark)] := by
  change [_, Bench.Output.work (utils.hook .laptopMode none _ _ _), _] = _
  rw [utils.hook_none]

end

namespace PmTest

/-- The hook that a script switches off behind its run. -/
def resets (ethtool : Bool) (t : PmTest) : Option Hook :=
  if t.measures ethtool then t.kind.hook? else none

section

variable (utils : PmUtils) (setting : Option ℕ) (ethtool : Bool)

/-- What a script sets a hook to in front of its workload, if it does. -/
def turns (t : PmTest) (file : Bool) (hook : Hook) : Option Bool :=
  if t.kind.whole then hook.turn utils.apm t.enabled (onAcPower setting) file
  else if t.kind = .disableWol then none
  else if t.kind.hook? = some hook then some t.enabled
  else none

/-- What a whole script sets a hook to, if it does. -/
def sets (t : PmTest) (file : Bool) (hook : Hook) : Option Bool :=
  if t.resets ethtool = some hook then some false
  else if t.kind.whole then hook.turn utils.apm t.enabled (onAcPower setting) file
  else none

/-- The settings of the workload of a script. -/
def under (t : PmTest) (w : State) : Settings := fun hook =>
  (t.turns utils setting w.sataAlpmFile hook).getD (w.settings hook)

/-- What a script leaves behind. -/
def leaves (t : PmTest) (w : State) : State :=
  ⟨fun hook => (t.sets utils setting ethtool w.sataAlpmFile hook).getD (w.settings hook),
    w.sataAlpmFile && !t.kind.removesFile⟩

end

variable {utils : PmUtils} {setting : Option ℕ} {ethtool : Bool}
  {behind : PmTest → Option Payload}

/-- One setting that is changed on top of others. -/
theorem update_getD (own : Hook) (value : Bool) (f : Hook → Option Bool) (s : Settings) :
    Function.update (fun hook => (f hook).getD (s hook)) own value =
      fun hook => (if some own = some hook then some value else f hook).getD (s hook) := by
  funext hook
  rw [Function.update_apply]
  by_cases heq : own = hook
  · rw [if_pos heq.symm, if_pos (congrArg some heq), Option.getD_some]
  · rw [if_neg (Ne.symm heq), if_neg fun h => heq (Option.some.inj h)]

/-- A script leaves its own hook switched off, and the others as `pm-powersave` has set them, if the
script has called it. -/
theorem exec_script (t : PmTest) (w : State) :
    Bench.exec (t.script utils setting ethtool behind) w = t.leaves utils setting ethtool w := by
  obtain ⟨kind, enabled⟩ := t
  have hown (own : Hook) := update_getD own false (fun _ => none) w.settings
  have hkeep : w.sataAlpmFile = (w.sataAlpmFile && !false) := (Bool.and_true _).symm
  cases kind with
  | allIdle | allMake => exact State.ext (utils.powersave_eq enabled _ _ _) hkeep
  | laptopModeMake =>
    apply (exec_laptopModeMakeTest utils setting enabled _ w).trans
    rw [utils.powersave_eq, update_getD]
    exact State.ext rfl hkeep
  | disableWol =>
    cases ethtool with
    | false => exact State.ext rfl hkeep
    | true =>
      exact (exec_disableWolTest utils setting enabled _ w).trans (State.ext (hown _) hkeep)
  | hdparmApm =>
    exact (exec_hdparmApmTest utils enabled _ w).trans (State.ext (hown _) hkeep)
  | sataAlpmIdle | sataAlpmMake =>
    exact (exec_sataAlpmTest utils setting enabled _ w).trans
      (State.ext (hown _) (Bool.and_false _).symm)
  | _ =>
    exact (exec_runTest utils setting enabled _ w (by decide) (by decide)).trans
      (State.ext (hown _) hkeep)

/-- What happens in a script that measures. -/
theorem trace_script (t : PmTest) (w : State) :
    Bench.trace (t.script utils setting ethtool behind) w =
      if t.measures ethtool then
        [.sent (.testRunBegin (.quoted (behind t))), .work (t.under utils setting w),
          .sent (.testRunEnd (.quoted (behind t)))]
      else [] := by
  obtain ⟨kind, enabled⟩ := t
  have hown (own : Hook) := congrArg
    (fun s => [Bench.Output.sent (Message.testRunBegin (.quoted (behind ⟨kind, enabled⟩))),
      .work s, .sent (.testRunEnd (.quoted (behind ⟨kind, enabled⟩)))])
    (update_getD own enabled (fun _ => none) w.settings)
  have hwhole := congrArg
    (fun s => [Bench.Output.sent (Message.testRunBegin (.quoted (behind ⟨kind, enabled⟩))),
      .work s, .sent (.testRunEnd (.quoted (behind ⟨kind, enabled⟩)))])
    (utils.powersave_eq enabled (onAcPower setting) w.sataAlpmFile w.settings)
  cases kind with
  | allIdle | allMake => exact hwhole
  | laptopModeMake => exact (trace_laptopModeMakeTest utils setting enabled _ w).trans hwhole
  | disableWol => cases ethtool <;> rfl
  | hdparmApm => exact (trace_hdparmApmTest utils enabled _ w).trans (hown _)
  | sataAlpmIdle | sataAlpmMake =>
    exact (trace_sataAlpmTest utils setting enabled _ w).trans (hown _)
  | _ => exact (trace_runTest utils setting enabled _ w (by decide) (by decide)).trans (hown _)

/-- The settings that the name of a script promises for its runs. -/
def named (t : PmTest) : Settings := fun hook =>
  t.enabled && t.kind.hook?.all fun own => decide (own = hook)

/-- The workload of a script runs as its name says. -/
theorem work_script (t : PmTest) (w : State) :
    (∀ s, .work s ∈ Bench.trace (t.script utils setting ethtool behind) w → s = t.named) ↔
      (t.measures ethtool = true → t.under utils setting w = t.named) := by
  rw [t.trace_script]
  cases t.measures ethtool <;> simp

end PmTest

/-! ## What is left over -/

/-- Whether `/etc/pm/config.d/sata_alpm` still enables its hook behind some scripts: it did at the
beginning, and none of them has removed it. -/
def sataAlpmFile (start : State) (runs : List PmTest) : Bool :=
  start.sataAlpmFile && runs.all fun u => !u.kind.removesFile

section

variable (utils : PmUtils) (setting : Option ℕ) (ethtool : Bool)

/-- A hook is left saving power by some scripts: it did so at the beginning, or one of them has set
it to, and all scripts behind keep it. -/
def Leftover (start : State) (runs : List PmTest) (hook : Hook) : Prop :=
  Bench.SetLast (fun before u =>
    u.sets utils setting ethtool (sataAlpmFile start before) hook) (start.settings hook) runs true

/-- A run is isolated from the runs in front of it. One of `all-test` or `laptop-mode-make` calls
`pm-powersave`, which sets all hooks but two: `95hdparm-apm` must be told of the power that the test
is for, and `sata_alpm` must be enabled or be as it should already. One of `laptop-mode-make` is so
only with everything off. For one of `disable_wol`, whose hook is called too late, just what it
should set must be left over, and for any other nothing but its own hook. -/
def PmTest.Isolated (start : State) (runs : List PmTest) (t : PmTest) : Prop :=
  match t.kind with
  | .allIdle | .allMake => utils.apm (onAcPower setting) = t.enabled ∧
    (sataAlpmFile start runs = true ∨
      (Leftover utils setting ethtool start runs .sataAlpm ↔ t.enabled = true))
  | .laptopModeMake => t.enabled = false ∧ utils.apm (onAcPower setting) = false ∧
    (sataAlpmFile start runs = true ∨ ¬ Leftover utils setting ethtool start runs .sataAlpm)
  | .disableWol => ethtool = true → ∀ hook,
    Leftover utils setting ethtool start runs hook ↔ t.enabled = true ∧ hook = .disableWol
  | kind => ∀ hook, Leftover utils setting ethtool start runs hook → kind.hook? = some hook

end

section

variable {utils : PmUtils} {setting : Option ℕ} {ethtool : Bool}
  {behind : PmTest → Option Payload}

/-- Scripts leave the file if none of them removes it. -/
theorem exec_runs_file (start : State) (runs : List PmTest) :
    (Bench.exec (runs.flatMap (PmTest.script utils setting ethtool behind)) start).sataAlpmFile =
      sataAlpmFile start runs := by
  induction runs using List.reverseRecOn with
  | nil => exact (Bool.and_true _).symm
  | append_singleton runs t ih =>
    rw [List.flatMap_append, Bench.exec_append, List.flatMap_singleton, t.exec_script,
      PmTest.leaves, ih, sataAlpmFile, sataAlpmFile, List.all_append, Bool.and_assoc]
    simp

/-- The settings behind a sequence of scripts are what is left over. -/
theorem exec_runs_iff (start : State) (runs : List PmTest) (hook : Hook) :
    (Bench.exec (runs.flatMap (PmTest.script utils setting ethtool behind)) start).settings hook =
      true ↔ Leftover utils setting ethtool start runs hook := by
  apply Bench.value_eq_iff_setLast fun runs =>
    (Bench.exec (runs.flatMap (PmTest.script utils setting ethtool behind)) start).settings hook
  intro runs t
  rw [List.flatMap_append, Bench.exec_append, List.flatMap_singleton, t.exec_script,
    PmTest.leaves, exec_runs_file]

/-- Settings with one hook set are those of its name if no other one is on. -/
theorem set_eq_iff (own : Hook) (enabled : Bool) (s : Settings) :
    (fun hook => (if some own = some hook then some enabled else none).getD (s hook)) =
        (fun hook => enabled && decide (own = hook)) ↔
      ∀ hook, s hook = true → some own = some hook := by
  rw [funext_iff]
  refine forall_congr' fun hook => ?_
  by_cases hown : own = hook
  · simp [hown]
  · simp [hown]

/-- The hook that is called too late is as its name says if just this one is on. -/
theorem wol_eq_iff (enabled : Bool) (s : Settings) :
    s = PmTest.named ⟨.disableWol, enabled⟩ ↔
      ∀ hook, s hook = true ↔ enabled = true ∧ hook = .disableWol := by
  rw [funext_iff]
  refine forall_congr' fun hook => ?_
  change s hook = (enabled && decide (Hook.disableWol = hook)) ↔ _
  rw [Bool.eq_iff_iff, Bool.and_eq_true, decide_eq_true_iff, eq_comm (a := Hook.disableWol)]

section

variable (apm : ℕ → Bool) (enabled : Bool) (answer : ℕ) (file : Bool) (s : Settings)

/-- What `pm-powersave` makes of the settings is one and the same for all hooks if the two that look
at something else agree. -/
theorem powersave_eq_iff :
    (fun hook : Hook => (hook.turn apm enabled answer file).getD (s hook)) = (fun _ => enabled) ↔
      apm answer = enabled ∧ (file = true ∨ s .sataAlpm = enabled) := by
  have hsata : (Hook.turn apm enabled answer file .sataAlpm).getD (s .sataAlpm) = enabled ↔
      file = true ∨ s .sataAlpm = enabled := by
    cases file <;> simp [Hook.turn]
  rw [funext_iff, ← hsata]
  constructor
  · exact fun h => ⟨h .hdparmApm, h .sataAlpm⟩
  · rintro ⟨happ, hfile⟩ hook
    cases hook with
    | hdparmApm => exact happ
    | sataAlpm => exact hfile
    | _ => rfl

/-- What `pm-powersave` makes of the settings is what the name of all hooks says if the two that look
at something else agree. -/
theorem powersave_eq_all_iff :
    (fun hook : Hook => (hook.turn apm enabled answer file).getD (s hook)) =
        (fun _ => enabled && true) ↔
      apm answer = enabled ∧ (file = true ∨ (s .sataAlpm = true ↔ enabled = true)) := by
  rw [Bool.and_true, powersave_eq_iff, ← Bool.eq_iff_iff]

/-- What `pm-powersave` makes of the settings is what the name of one hook says only if all are
off. -/
theorem powersave_eq_laptopMode_iff :
    (fun hook : Hook => (hook.turn apm enabled answer file).getD (s hook)) =
        PmTest.named ⟨.laptopModeMake, enabled⟩ ↔
      enabled = false ∧ apm answer = false ∧ (file = true ∨ ¬ s .sataAlpm = true) := by
  cases enabled with
  | false =>
    rw [Bool.not_eq_true, and_iff_right rfl]
    exact powersave_eq_iff apm false answer file s
  | true =>
    refine iff_of_false (fun h => ?_) fun h => Bool.true_eq_false.mp h.1
    have hwireless : true = false := congrFun h .wireless
    contradiction

end

/-- A run behind other runs is measured as its name says exactly if it is isolated from them. -/
theorem run_isolated_iff (start : State) (runs : List PmTest) (t : PmTest) :
    (∀ s, .work s ∈ Bench.trace (t.script utils setting ethtool behind)
        (Bench.exec (runs.flatMap (PmTest.script utils setting ethtool behind)) start) →
        s = t.named) ↔
      t.Isolated utils setting ethtool start runs := by
  have hleft (hook : Hook) :
      (Bench.exec (runs.flatMap (PmTest.script utils setting ethtool behind)) start).settings hook =
        true ↔ Leftover utils setting ethtool start runs hook := exec_runs_iff start runs hook
  have hfile :
      (Bench.exec (runs.flatMap (PmTest.script utils setting ethtool behind)) start).sataAlpmFile =
        sataAlpmFile start runs := exec_runs_file start runs
  rw [t.work_script]
  generalize Bench.exec (runs.flatMap (PmTest.script utils setting ethtool behind)) start = w
    at hleft hfile
  obtain ⟨kind, enabled⟩ := t
  cases kind with
  | allIdle | allMake =>
    simp only [PmTest.Isolated, ← hleft, ← hfile]
    exact (imp_iff_right rfl).trans (powersave_eq_all_iff utils.apm enabled _ _ _)
  | laptopModeMake =>
    simp only [PmTest.Isolated, ← hleft, ← hfile]
    exact (imp_iff_right rfl).trans (powersave_eq_laptopMode_iff utils.apm enabled _ _ _)
  | disableWol =>
    simp only [PmTest.Isolated, ← hleft]
    exact imp_congr_right fun _ => wol_eq_iff enabled w.settings
  | _ =>
    simp only [PmTest.Isolated, ← hleft]
    exact (imp_iff_right rfl).trans (set_eq_iff _ enabled w.settings)

/-! ## The whole session -/

section

variable (machine : Machine) (iterations : ℕ)

/-- What `sendtag` sends in the session of one script. -/
theorem PmTest.messages_session (t : PmTest) (w : State) :
    (Bench.trace (t.session utils setting ethtool behind machine iterations) w).filterMap
        Bench.Output.message? =
      ((t.pmScript ethtool behind).test machine iterations).messages := by
  have hscript (t : PmTest) (w : State) :
      (Bench.trace (t.script utils setting ethtool behind) w).filterMap Bench.Output.message? =
        if t.measures ethtool then
          (⟨.quoted (behind t), []⟩ : Iteration).messages
        else [] := by
    rw [t.trace_script]
    split <;> rfl
  have hruns := Bench.filterMap_trace_flatMap hscript (List.replicate iterations t) w
  have hiterations : (List.replicate iterations t).flatMap (fun t =>
      if t.measures ethtool then (⟨.quoted (behind t), []⟩ : Iteration).messages else []) =
        (if t.measures ethtool then
          List.replicate iterations (⟨.quoted (behind t), []⟩ : Iteration)
        else []).flatMap Iteration.messages := by
    rw [List.flatMap_replicate]
    split
    · rw [List.flatMap_replicate]
    · rw [List.flatten_replicate_nil, List.flatMap_nil]
  rw [hiterations] at hruns
  simp only [PmTest.session, Bench.send, List.cons_append, Bench.trace, Bench.trace_append,
    List.filterMap_cons, List.filterMap_append, Bench.Output.message?, hruns]
  rfl

/-- What `sendtag` sends in a session is what the driver sends. -/
theorem messages_session (tests : List PmTest) (w : State) :
    (Bench.trace (session utils setting ethtool behind machine iterations tests) w).filterMap
        Bench.Output.message? =
      (pmTests machine (tests.map (PmTest.pmScript ethtool behind)) iterations).messages := by
  have hone (t : PmTest) (w : State) :
      (Bench.trace (t.session utils setting ethtool behind machine iterations) w).filterMap
          Bench.Output.message? =
        ((t.pmScript ethtool behind).test machine iterations).messages :=
    t.messages_session machine iterations w
  have htests := Bench.filterMap_trace_flatMap hone tests w
  rw [session, htests, pmTests, Driver.messages, List.append_nil, List.map_map, List.flatMap_map]
  rfl

/-- Tags do not change settings. -/
theorem PmTest.exec_session (t : PmTest) (w : State) :
    Bench.exec (t.session utils setting ethtool behind machine iterations) w = Bench.exec
      ((List.replicate iterations t).flatMap (PmTest.script utils setting ethtool behind)) w := by
  simp only [PmTest.session, Bench.send, List.cons_append, Bench.exec, Bench.exec_append]

/-- The settings behind a session are those behind its runs. -/
theorem exec_session (tests : List PmTest) (w : State) :
    Bench.exec (session utils setting ethtool behind machine iterations tests) w =
      Bench.exec ((tests.flatMap (List.replicate iterations)).flatMap
        (PmTest.script utils setting ethtool behind)) w := by
  induction tests generalizing w with
  | nil => rfl
  | cons t tests ih =>
    rw [session, List.flatMap_cons, Bench.exec_append, PmTest.exec_session, List.flatMap_cons,
      List.flatMap_append, Bench.exec_append]
    exact ih _

/-- Whatever the settings are at the beginning and whatever scripts `test.sh` runs in front of a
script, all workloads of this one run under the settings of its name exactly if every one of its
runs is isolated from the runs in front of it. -/
theorem session_isolated_iff (start : State) (front : List PmTest) (t : PmTest) :
    (∀ s, .work s ∈ Bench.trace (t.session utils setting ethtool behind machine iterations)
        (Bench.exec (session utils setting ethtool behind machine iterations front) start) →
        s = t.named) ↔
      ∀ j < iterations, t.Isolated utils setting ethtool start
        (front.flatMap (List.replicate iterations) ++ List.replicate j t) := by
  have hwork (s : Settings) (w : State) :
      .work s ∈ Bench.trace (t.session utils setting ethtool behind machine iterations) w ↔
        .work s ∈ Bench.trace ((List.replicate iterations t).flatMap
          (PmTest.script utils setting ethtool behind)) w := by
    simp [PmTest.session, Bench.send, Bench.trace, Bench.trace_append]
  have hrun (j : ℕ) :
      (∀ s, .work s ∈ Bench.trace (t.script utils setting ethtool behind) (Bench.exec
          ((front.flatMap (List.replicate iterations) ++ List.replicate j t).flatMap
            (PmTest.script utils setting ethtool behind)) start) → s = t.named) ↔
        t.Isolated utils setting ethtool start
          (front.flatMap (List.replicate iterations) ++ List.replicate j t) :=
    run_isolated_iff start _ t
  simp only [hwork, Bench.mem_trace_replicate, exec_session]
  constructor
  · intro h j hj
    rw [← hrun j, List.flatMap_append, Bench.exec_append]
    exact fun s hs => h s ⟨j, hj, hs⟩
  · rintro h s ⟨j, hj, hs⟩
    refine (hrun j).mpr (h j hj) s ?_
    rwa [List.flatMap_append, Bench.exec_append]

end

end

/-- Hooks that set what they are for, with `95hdparm-apm` as on AC power if `on_ac_power` cannot
tell. -/
def plainUtils : PmUtils where
  apm answer := answer == acPowerOff
  hook h argument answer file s := argument.elim s fun a =>
    Function.update s h ((h.turn (· == acPowerOff) a answer file).getD (s h))
  powersave argument answer file s := fun h =>
    (h.turn (· == acPowerOff) argument answer file).getD (s h)
  apm_on := rfl
  apm_off := rfl
  hook_some _ _ _ _ _ := rfl
  hook_none _ _ _ _ := rfl
  powersave_eq _ _ _ _ := rfl

/-- Everything off, and `sata_alpm` not enabled. -/
def allOff : State := ⟨fun _ => false, false⟩

/-- Behind `test-all-idle-enabled.sh`, the runs of `test-disable-wol-disabled.sh`. -/
theorem plainSession_isolated_iff :
    (∀ s, .work s ∈ Bench.trace
        (PmTest.session plainUtils none true (fun _ => none) Drivers.laptop 3 ⟨.disableWol, false⟩)
        (Bench.exec (session plainUtils none true (fun _ => none) Drivers.laptop 3
          [⟨.allIdle, true⟩]) allOff) → s = PmTest.named ⟨.disableWol, false⟩) ↔
      ∀ j < 3, PmTest.Isolated plainUtils none true allOff
        ([⟨.allIdle, true⟩].flatMap (List.replicate 3) ++ List.replicate j ⟨.disableWol, false⟩)
        ⟨.disableWol, false⟩ :=
  session_isolated_iff Drivers.laptop 3 allOff [⟨.allIdle, true⟩] ⟨.disableWol, false⟩

/-- `test-all-idle-enabled.sh` leaves the wireless card saving power. -/
example : (Bench.exec (PmTest.script plainUtils none true (fun _ => none) ⟨.allIdle, true⟩)
    allOff).settings .wireless = true := rfl

end FlukeTesting.PmTests
