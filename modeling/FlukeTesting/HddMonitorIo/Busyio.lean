import Mathlib.Algebra.GroupWithZero.Nat
import Mathlib.Algebra.Ring.Int.Defs
import Mathlib.Data.List.Range
import Mathlib.Tactic.Common

/-!
# The recording window of `busyio.stp`

The script counts a start delay down, one second at a time, then the duration, and then prints what
it has recorded in the meantime and exits. Its probes record as long as the delay has run out.

The delay is counted down to -1 instead of 0, and the duration is tested before it is counted down,
not behind. So the probes record for two seconds more than the duration that is announced, unless
the duration is zero: then the script exits at its first tick.

Arrays are kept in the order in which their elements came in, and are taken to have room for all of
them: SystemTap would abort a script whose array is full. `SYNC` is printed before the delay starts,
and the report is the last thing printed.
-/

namespace FlukeTesting.HddMonitorIo

/-- The process in whose context a probe runs. -/
structure Process where
  pid : ℕ
  execname : String
  uid : ℕ
  ppid : ℕ
  deriving DecidableEq

/-- `"R"` or `"W"`. -/
inductive Action
  | read
  | write
  deriving DecidableEq

/-- The index of `io_stat` and `device`. -/
structure IoKey where
  process : Process
  action : Action
  ino : ℤ
  deriving DecidableEq

/-- The index of `inode_dirty`. -/
structure DirtyKey where
  process : Process
  dev : String
  filename : String
  time : ℕ
  deriving DecidableEq

/-- What the script prints. -/
inductive Output
  | sync
  | starting (seconds : ℤ)
  | recording (seconds : ℤ)
  | total (now : ℕ) (total read write : ℤ)
  | heading
  | io (key : IoKey) (device : String) (size : ℤ) (unit : Char)
  | dirty (key : DirtyKey)
  deriving DecidableEq

/-- The globals of the script, what it has printed, and whether it has asked to exit. -/
structure State where
  inodeDirty : List (DirtyKey × ℕ)
  ioStat : List (IoKey × ℤ)
  device : List (IoKey × String)
  readBytes : ℤ
  writeBytes : ℤ
  endAfter : ℤ
  beginDelay : ℤ
  printed : List Output
  exited : Bool

namespace State

/-- `probe begin`, with the arguments of the script. -/
def begin (beginDelay endAfter : ℤ) : State where
  inodeDirty := []
  ioStat := []
  device := []
  readBytes := 0
  writeBytes := 0
  endAfter := endAfter
  beginDelay := beginDelay
  printed := [.sync, .starting beginDelay]
  exited := false

/-- Assign to an element of an array. -/
def assign {A B : Type} [DecidableEq A] (key : A) (value : B) : List (A × B) → List (A × B)
  | [] => [(key, value)]
  | (key', value') :: rest =>
    if key' = key then (key, value) :: rest else (key', value') :: assign key value rest

/-- Add to an element of an array. -/
def add {A B : Type} [DecidableEq A] [Add B] [Zero B] (key : A) (n : B) (array : List (A × B)) :
    List (A × B) :=
  assign key ((array.lookup key).getD 0 + n) array

/-- A call of a function that one of the recording probes watches. -/
inductive Call
  | dirty (process : Process) (dev filename : String) (time : ℕ)
  | io (process : Process) (action : Action) (devname : String) (ino returned : ℤ)

/-- The probes of `vfs.read.return` and `vfs.write.return` behind the delay. -/
def recordIo (s : State) (process : Process) (action : Action) (devname : String)
    (ino returned : ℤ) : State :=
  if 0 < returned then
    if devname ≠ "N/A" then
      let key : IoKey := ⟨process, action, ino⟩
      let s := { s with
        ioStat := add key returned s.ioStat
        device := assign key devname s.device }
      match action with
      | .read => { s with readBytes := s.readBytes + returned }
      | .write => { s with writeBytes := s.writeBytes + returned }
    else s
  else s

/-- The recording probes. -/
def record (s : State) (call : Call) : State :=
  if s.beginDelay ≤ 0 then
    match call with
    | .dirty process dev filename time =>
      { s with inodeDirty := add ⟨process, dev, filename, time⟩ 1 s.inodeDirty }
    | .io process action devname ino returned => s.recordIo process action devname ino returned
  else s

/-- The size of an element of `io_stat` as it is printed, with its unit. -/
def size (n : ℤ) : ℤ × Char :=
  if n > 1024 * 1024 * 1024 then (n / (1024 * 1024 * 1024), 'G')
  else if n > 1024 * 1024 then (n / (1024 * 1024), 'M')
  else if n > 1024 then (n / 1024, 'K')
  else (n, 'B')

/-- The lines of the report. -/
def reportLines (s : State) (now : ℕ) : List Output :=
  (if s.readBytes + s.writeBytes > 0 then
    [.total now ((s.readBytes + s.writeBytes) / 1024) (s.readBytes / 1024) (s.writeBytes / 1024),
      .heading]
  else []) ++
  (s.ioStat.map fun (key, n) =>
    .io key ((s.device.lookup key).getD "") (size n).1 (size n).2) ++
  s.inodeDirty.map fun (key, _) => .dirty key

/-- The part of the timer that prints the report, deletes the globals and exits. -/
def report (s : State) (now : ℕ) : State where
  inodeDirty := []
  ioStat := []
  device := []
  readBytes := 0
  writeBytes := 0
  endAfter := 0
  beginDelay := 0
  printed := s.printed ++ s.reportLines now
  exited := true

/-- `probe timer.s(1)`. -/
def timer (s : State) (now : ℕ) : State :=
  let s :=
    if s.beginDelay = 0 then { s with printed := s.printed ++ [.recording s.endAfter] } else s
  let s := if s.endAfter = 0 then s.report now else s
  if s.beginDelay > -1 then { s with beginDelay := s.beginDelay - 1 }
  else { s with endAfter := s.endAfter - 1 }

end State

/-- What happens in a second: the calls in their order, and the time of the tick behind them. -/
structure Second where
  calls : List State.Call
  now : ℕ

/-- A second: the calls, and then the tick. -/
def State.second (s : State) (second : Second) : State :=
  (second.calls.foldl State.record s).timer second.now

/-- The state at the start of a second, counted from zero. -/
def stateAt (b d : ℤ) (seconds : ℕ → Second) : ℕ → State
  | 0 => .begin b d
  | k + 1 => (stateAt b d seconds k).second (seconds k)

/-- The recording probes are enabled in a second. -/
def Enabled (b d : ℤ) (seconds : ℕ → Second) (k : ℕ) : Prop :=
  (stateAt b d seconds k).beginDelay ≤ 0

instance (b d : ℤ) (seconds : ℕ → Second) (k : ℕ) : Decidable (Enabled b d seconds k) :=
  inferInstanceAs (Decidable (_ ≤ _))

/-- The script prints its report and exits at the end of a second, and not before. -/
def ExitsAfter (b d : ℤ) (seconds : ℕ → Second) (k : ℕ) : Prop :=
  (stateAt b d seconds (k + 1)).exited = true ∧ ∀ j ≤ k, (stateAt b d seconds j).exited = false

/-- The recording probes are enabled for exactly so many seconds before the script prints its report
and exits. -/
def RecordsFor (b d : ℤ) (seconds : ℕ → Second) (n : ℕ) : Prop :=
  ∃ k, ExitsAfter b d seconds k ∧
    ((List.range (k + 1)).filter fun j => Enabled b d seconds j).length = n

/-! ## The counters -/

/-- What the timer counts with: the delay, the duration, and whether the script has exited. -/
def State.counters (s : State) : ℤ × ℤ × Bool := (s.beginDelay, s.endAfter, s.exited)

/-- The recording probes do not touch the counters. -/
theorem State.record_counters (s : State) (call : Call) :
    (s.record call).counters = s.counters := by
  unfold State.record
  split
  · cases call with
    | dirty process dev filename time => rfl
    | io process action devname ino returned =>
      dsimp only [State.recordIo]
      split_ifs
      · cases action <;> rfl
      · rfl
      · rfl
  · rfl

/-- The calls of a second do not touch the counters. -/
theorem State.foldl_record_counters (s : State) (calls : List Call) :
    (calls.foldl State.record s).counters = s.counters := by
  induction calls generalizing s with
  | nil => rfl
  | cons call rest ih => rw [List.foldl_cons, ih, s.record_counters]

/-- A tick before the duration has run out counts the delay down to -1, and then the duration. -/
theorem State.timer_counters (s : State) (now : ℕ) (h : s.endAfter ≠ 0) :
    (s.timer now).counters =
      if s.beginDelay > -1 then (s.beginDelay - 1, s.endAfter, s.exited)
      else (s.beginDelay, s.endAfter - 1, s.exited) := by
  unfold State.timer State.counters
  by_cases hdelay : s.beginDelay = 0
  · simp [hdelay, h]
  · by_cases hmore : s.beginDelay > -1
    · simp [hdelay, h, hmore]
    · simp [hdelay, h, hmore]

/-- A tick at which the duration has run out exits. -/
theorem State.timer_exited (s : State) (now : ℕ) (h : s.endAfter = 0) :
    (s.timer now).exited = true := by
  unfold State.timer
  by_cases hdelay : s.beginDelay = 0
  · simp [hdelay, h, State.report]
  · simp [hdelay, h, State.report]

section

variable (b d : ℕ) (seconds : ℕ → Second)

/-- A second before the duration has run out. -/
theorem stateAt_succ {k : ℕ} {delay rest : ℤ} {exited : Bool}
    (h : (stateAt b d seconds k).counters = (delay, rest, exited)) (hrest : rest ≠ 0) :
    (stateAt b d seconds (k + 1)).counters =
      if delay > -1 then (delay - 1, rest, exited) else (delay, rest - 1, exited) := by
  have hcalls := (stateAt b d seconds k).foldl_record_counters (seconds k).calls
  rw [h] at hcalls
  have hdelay := congrArg Prod.fst hcalls
  have hrest' := congrArg (·.2.1) hcalls
  have hexited := congrArg (·.2.2) hcalls
  dsimp only [State.counters] at hdelay hrest' hexited
  rw [stateAt, State.second, State.timer_counters _ _ (hrest' ▸ hrest), hdelay, hrest', hexited]

/-- The delay is counted down to -1. -/
theorem stateAt_delay (hd : d ≠ 0) {k : ℕ} (hk : k ≤ b + 1) :
    (stateAt b d seconds k).counters = ((b : ℤ) - k, (d : ℤ), false) := by
  induction k with
  | zero => simp [stateAt, State.begin, State.counters]
  | succ k ih =>
    rw [stateAt_succ b d seconds (ih (by omega)) (by exact_mod_cast hd), if_pos (by omega)]
    congr 1
    omega

/-- Then the duration is counted down to zero. -/
theorem stateAt_duration (hd : d ≠ 0) {j : ℕ} (hj : j ≤ d) :
    (stateAt b d seconds (b + 1 + j)).counters = (-1, (d : ℤ) - j, false) := by
  induction j with
  | zero =>
    have hdelay : (b : ℤ) - (b + 1 : ℕ) = -1 := by omega
    rw [Nat.add_zero, stateAt_delay b d seconds hd le_rfl, hdelay]
    simp
  | succ j ih =>
    rw [← Nat.add_assoc, stateAt_succ b d seconds (ih (by omega)) (by omega), if_neg (by decide)]
    congr 2
    omega

/-- Without a duration, the script exits at its first tick. -/
theorem exitsAfter_zero : ExitsAfter b 0 seconds 0 := by
  refine ⟨?_, fun j hj => ?_⟩
  · have hcalls := (stateAt b 0 seconds 0).foldl_record_counters (seconds 0).calls
    exact State.timer_exited _ _ (congrArg (·.2.1) hcalls)
  · obtain rfl : j = 0 := Nat.le_zero.mp hj
    rfl

/-- With a duration, the script exits one second after the duration has been counted down. -/
theorem exitsAfter_duration (hd : d ≠ 0) : ExitsAfter b d seconds (b + 1 + d) := by
  refine ⟨?_, fun j hj => ?_⟩
  · have hlast := stateAt_duration b d seconds hd le_rfl
    have hcalls := (stateAt b d seconds (b + 1 + d)).foldl_record_counters
      (seconds (b + 1 + d)).calls
    rw [hlast, sub_self] at hcalls
    exact State.timer_exited _ _ (congrArg (·.2.1) hcalls)
  · rcases Nat.le_total j (b + 1) with hdelay | hduration
    · exact congrArg (·.2.2) (stateAt_delay b d seconds hd hdelay)
    · obtain ⟨i, rfl⟩ := Nat.exists_eq_add_of_le hduration
      exact congrArg (·.2.2) (stateAt_duration b d seconds hd (by omega : i ≤ d))

/-- The script exits once. -/
theorem ExitsAfter.unique {b d : ℤ} {seconds : ℕ → Second} {j k : ℕ}
    (hj : ExitsAfter b d seconds j) (hk : ExitsAfter b d seconds k) : j = k := by
  by_contra hne
  rcases Nat.lt_or_gt_of_ne hne with hlt | hgt
  · exact Bool.false_ne_true ((hk.2 (j + 1) hlt).symm.trans hj.1)
  · exact Bool.false_ne_true ((hj.2 (k + 1) hgt).symm.trans hk.1)

/-- With a duration, the probes are enabled from the end of the delay to the exit. -/
theorem enabled_iff (hd : d ≠ 0) {k : ℕ} (hk : k ≤ b + 1 + d) :
    Enabled b d seconds k ↔ b ≤ k := by
  unfold Enabled
  rcases Nat.le_total k (b + 1) with hdelay | hduration
  · have hcount : (stateAt b d seconds k).beginDelay = (b : ℤ) - k :=
      congrArg Prod.fst (stateAt_delay b d seconds hd hdelay)
    rw [hcount]
    omega
  · obtain ⟨i, rfl⟩ := Nat.exists_eq_add_of_le hduration
    have hcount : (stateAt b d seconds (b + 1 + i)).beginDelay = -1 :=
      congrArg Prod.fst (stateAt_duration b d seconds hd (by omega : i ≤ d))
    rw [hcount]
    omega

end

/-- From a second on to the end of a range. -/
theorem filter_range_le (b n : ℕ) :
    ((List.range (b + n)).filter fun k => b ≤ k).length = n := by
  rw [List.range_add, List.filter_append, List.filter_eq_nil_iff.mpr, List.filter_eq_self.mpr]
  · simp
  · intro k hk
    obtain ⟨i, -, rfl⟩ := List.mem_map.mp hk
    simp
  · intro k hk
    have := List.mem_range.mp hk
    simp [this]

/-- The script records for two seconds more than its duration, but not at all if that is zero. -/
theorem recordsFor_iff (b d n : ℕ) (hb : 1 ≤ b) (seconds : ℕ → Second) :
    RecordsFor b d seconds n ↔ n = if d = 0 then 0 else d + 2 := by
  have hexit : ∃ k, ExitsAfter b d seconds k ∧
      ((List.range (k + 1)).filter fun j => Enabled b d seconds j).length =
        if d = 0 then 0 else d + 2 := by
    by_cases hd : d = 0
    · subst hd
      refine ⟨0, exitsAfter_zero b seconds, ?_⟩
      have hdisabled : ¬ Enabled b 0 seconds 0 := by
        change ¬ (b : ℤ) ≤ 0
        omega
      simp [hdisabled]
    · refine ⟨b + 1 + d, exitsAfter_duration b d seconds hd, ?_⟩
      have hfilter : ((List.range (b + 1 + d + 1)).filter fun j => Enabled b d seconds j) =
          (List.range (b + (d + 2))).filter fun j => b ≤ j := by
        rw [show b + (d + 2) = b + 1 + d + 1 by omega]
        refine List.filter_congr fun k hk => decide_eq_decide.mpr ?_
        exact enabled_iff b d seconds hd (by have := List.mem_range.mp hk; omega)
      rw [hfilter, filter_range_le, if_neg hd]
  obtain ⟨k, hk, hlength⟩ := hexit
  constructor
  · rintro ⟨j, hj, hn⟩
    rw [← hn, hj.unique hk, hlength]
  · intro hn
    exact ⟨k, hk, hlength.trans hn.symm⟩

/-- The script records for exactly its duration if and only if that is zero. -/
theorem recordsFor_duration_iff (b d : ℕ) (hb : 1 ≤ b) (seconds : ℕ → Second) :
    RecordsFor b d seconds d ↔ d = 0 := by
  rw [recordsFor_iff b d d hb seconds]
  split_ifs with hd
  · exact iff_of_true hd hd
  · exact iff_of_false (by omega) hd

/-- A second in which nothing happens. -/
def quiet : Second := ⟨[], 0⟩

/-- With the delay and the duration of `busyio.py` without an argument. -/
theorem busyio_recordsFor_iff : RecordsFor (5 : ℕ) (60 : ℕ) (fun _ => quiet) 60 ↔ 60 = 0 :=
  recordsFor_duration_iff 5 60 (by decide) fun _ => quiet

/-- It does not record for 60 seconds but for 62. -/
theorem busyio_not_recordsFor : ¬ RecordsFor (5 : ℕ) (60 : ℕ) (fun _ => quiet) 60 ∧
    RecordsFor (5 : ℕ) (60 : ℕ) (fun _ => quiet) 62 := by
  rw [recordsFor_iff 5 60 60 (by decide), recordsFor_iff 5 60 62 (by decide)]
  decide

end FlukeTesting.HddMonitorIo
