import FlukeTesting.HddMonitorIo.Busyio
import FlukeTesting.Lib.Tally
import Mathlib.Algebra.Order.BigOperators.Group.List
import Mathlib.Algebra.Order.Group.Int

/-!
# What `busyio.stp` reports

The report is one of the calls in the recording window and of nothing else. Every process, action
and inode for which bytes went through a device has one line with their sum, every inode that was
marked dirty has one line for each process and second, and the totals are those of all reads and all
writes. The script prints the report once, behind its announcements, and before it exits.
-/

namespace FlukeTesting.HddMonitorIo

open State (Call)

/-! ## The calls that count -/

/-- What a read or write through a device adds: its key, the device and the bytes. -/
def ioEntry : Call → Option (IoKey × String × ℤ)
  | .io process action devname ino returned =>
    if 0 < returned ∧ devname ≠ "N/A" then some (⟨process, action, ino⟩, devname, returned)
    else none
  | .dirty _ _ _ _ => none

/-- What an inode that is marked dirty adds. -/
def dirtyEntry : Call → Option DirtyKey
  | .dirty process dev filename time => some ⟨process, dev, filename, time⟩
  | .io _ _ _ _ _ => none

/-- The bytes of the calls, by their keys. -/
def ioBytes (calls : List Call) : List (IoKey × ℤ) :=
  (calls.filterMap ioEntry).map fun e => (e.1, e.2.2)

/-- The devices of the calls, by their keys. -/
def ioDevices (calls : List Call) : List (IoKey × String) :=
  (calls.filterMap ioEntry).map fun e => (e.1, e.2.1)

/-- The inodes that the calls mark dirty, each with a count of one. -/
def dirtyMarks (calls : List Call) : List (DirtyKey × ℕ) :=
  (calls.filterMap dirtyEntry).map fun key => (key, 1)

/-- All bytes of one action. -/
def bytesOf (action : Action) (calls : List Call) : ℤ :=
  (((ioBytes calls).filter fun e => e.1.action = action).map Prod.snd).sum

/-! ## What the globals hold -/

/-- Assigning to an element of an array. -/
theorem assign_eq_put {A B : Type} [DecidableEq A] (key : A) (value : B) (array : List (A × B)) :
    State.assign key value array = Tally.put key value array := by
  induction array with
  | nil => rfl
  | cons p rest ih =>
    obtain ⟨k, v⟩ := p
    rw [State.assign, Tally.put, ih]

/-- Adding to an element of an array. -/
theorem add_eq_bump {A B : Type} [DecidableEq A] [Add B] [Zero B] (key : A) (n : B)
    (array : List (A × B)) : State.add key n array = Tally.bump key n array :=
  assign_eq_put key _ array

/-- The globals hold the calls that were recorded. -/
structure Recorded (calls : List Call) (s : State) : Prop where
  io : Tally.Counts (ioBytes calls) s.ioStat
  device : Tally.Remembers (ioDevices calls) s.device
  dirty : Tally.Counts (dirtyMarks calls) s.inodeDirty
  read : s.readBytes = bytesOf .read calls
  write : s.writeBytes = bytesOf .write calls

/-- At first nothing is recorded. -/
theorem recorded_begin (b d : ℤ) : Recorded [] (.begin b d) :=
  ⟨Tally.counts_nil, Tally.remembers_nil, Tally.counts_nil, rfl, rfl⟩

/-- A call that does not count adds nothing. -/
theorem Recorded.of_none {calls : List Call} {s : State} (h : Recorded calls s) {call : Call}
    (hio : ioEntry call = none) (hdirty : dirtyEntry call = none) :
    Recorded (calls ++ [call]) s := by
  have hbytes : ioBytes (calls ++ [call]) = ioBytes calls := by simp [ioBytes, hio]
  have hdevices : ioDevices (calls ++ [call]) = ioDevices calls := by simp [ioDevices, hio]
  have hmarks : dirtyMarks (calls ++ [call]) = dirtyMarks calls := by simp [dirtyMarks, hdirty]
  exact ⟨hbytes ▸ h.io, hdevices ▸ h.device, hmarks ▸ h.dirty,
    by rw [bytesOf, hbytes]; exact h.read, by rw [bytesOf, hbytes]; exact h.write⟩

/-- One more call is recorded if the delay has run out. -/
theorem Recorded.record {calls : List Call} {s : State} (h : Recorded calls s)
    (henabled : s.beginDelay ≤ 0) (call : Call) : Recorded (calls ++ [call]) (s.record call) := by
  cases call with
  | dirty process dev filename time =>
    have hbytes : ioBytes (calls ++ [.dirty process dev filename time]) = ioBytes calls := by
      simp [ioBytes, ioEntry]
    have hdevices : ioDevices (calls ++ [.dirty process dev filename time]) = ioDevices calls := by
      simp [ioDevices, ioEntry]
    have hmarks : dirtyMarks (calls ++ [.dirty process dev filename time]) =
        dirtyMarks calls ++ [(⟨process, dev, filename, time⟩, 1)] := by
      simp [dirtyMarks, dirtyEntry]
    rw [State.record, if_pos henabled]
    refine ⟨hbytes ▸ h.io, hdevices ▸ h.device, ?_, ?_, ?_⟩
    · rw [hmarks]
      exact add_eq_bump _ _ s.inodeDirty ▸ h.dirty.bump _ _
    · rw [bytesOf, hbytes]
      exact h.read
    · rw [bytesOf, hbytes]
      exact h.write
  | io process action devname ino returned =>
    rw [State.record, if_pos henabled, State.recordIo]
    by_cases hcounts : 0 < returned ∧ devname ≠ "N/A"
    · have hbytes : ioBytes (calls ++ [.io process action devname ino returned]) =
          ioBytes calls ++ [(⟨process, action, ino⟩, returned)] := by
        simp [ioBytes, ioEntry, hcounts]
      have hdevices : ioDevices (calls ++ [.io process action devname ino returned]) =
          ioDevices calls ++ [(⟨process, action, ino⟩, devname)] := by
        simp [ioDevices, ioEntry, hcounts]
      have hmarks : dirtyMarks (calls ++ [.io process action devname ino returned]) =
          dirtyMarks calls := by simp [dirtyMarks, dirtyEntry]
      have hio : Tally.Counts (ioBytes (calls ++ [.io process action devname ino returned]))
          (State.add ⟨process, action, ino⟩ returned s.ioStat) := by
        rw [hbytes]
        exact add_eq_bump _ _ s.ioStat ▸ h.io.bump _ _
      have hdevice :
          Tally.Remembers (ioDevices (calls ++ [.io process action devname ino returned]))
            (State.assign ⟨process, action, ino⟩ devname s.device) := by
        rw [hdevices]
        exact assign_eq_put _ _ s.device ▸ h.device.put _ _
      have hbytesOf (a : Action) :
          bytesOf a (calls ++ [.io process action devname ino returned]) =
            if action = a then bytesOf a calls + returned else bytesOf a calls := by
        rw [bytesOf, hbytes, List.filter_append]
        by_cases ha : action = a <;> simp [ha, bytesOf]
      rw [if_pos hcounts.1, if_pos hcounts.2]
      cases action with
      | read =>
        exact ⟨hio, hdevice, hmarks ▸ h.dirty,
          by rw [hbytesOf, if_pos rfl]; exact congrArg (· + returned) h.read,
          by rw [hbytesOf, if_neg (by decide)]; exact h.write⟩
      | write =>
        exact ⟨hio, hdevice, hmarks ▸ h.dirty,
          by rw [hbytesOf, if_neg (by decide)]; exact h.read,
          by rw [hbytesOf, if_pos rfl]; exact congrArg (· + returned) h.write⟩
    · have hentry : ioEntry (.io process action devname ino returned) = none := if_neg hcounts
      split_ifs with hpositive hdevice
      · exact absurd ⟨hpositive, hdevice⟩ hcounts
      · exact h.of_none hentry rfl
      · exact h.of_none hentry rfl

/-- The calls of a second are recorded if the delay has run out. -/
theorem Recorded.foldl_record {calls : List Call} {s : State} (h : Recorded calls s)
    (henabled : s.beginDelay ≤ 0) (more : List Call) :
    Recorded (calls ++ more) (more.foldl State.record s) := by
  induction more generalizing calls s with
  | nil => simpa using h
  | cons call rest ih =>
    have hdelay : (s.record call).beginDelay = s.beginDelay :=
      congrArg Prod.fst (s.record_counters call)
    have hrest := ih (h.record henabled call) (hdelay ▸ henabled)
    rwa [List.append_assoc] at hrest

/-- The calls of a second change nothing before the delay has run out. -/
theorem State.foldl_record_of_delay {s : State} (h : 0 < s.beginDelay) (calls : List Call) :
    calls.foldl State.record s = s := by
  induction calls with
  | nil => rfl
  | cons call rest ih =>
    have hcall : s.record call = s := by
      unfold State.record
      exact if_neg (by omega)
    rw [List.foldl_cons, hcall, ih]

/-- The recording probes print nothing. -/
theorem State.foldl_record_printed (s : State) (calls : List Call) :
    (calls.foldl State.record s).printed = s.printed := by
  induction calls generalizing s with
  | nil => rfl
  | cons call rest ih =>
    rw [List.foldl_cons, ih]
    unfold State.record
    split
    · cases call with
      | dirty process dev filename time => rfl
      | io process action devname ino returned =>
        dsimp only [State.recordIo]
        split_ifs
        · cases action <;> rfl
        · rfl
        · rfl
    · rfl

/-- A tick before the duration has run out counts down, and says when the recording starts. -/
theorem State.timer_of_running {s : State} (hrunning : s.endAfter ≠ 0) (now : ℕ) :
    s.timer now = { s with
      endAfter := if s.beginDelay > -1 then s.endAfter else s.endAfter - 1
      beginDelay := if s.beginDelay > -1 then s.beginDelay - 1 else s.beginDelay
      printed := s.printed ++ if s.beginDelay = 0 then [.recording s.endAfter] else [] } := by
  unfold State.timer
  by_cases hzero : s.beginDelay = 0
  · simp [hzero, hrunning]
  · by_cases hmore : s.beginDelay > -1
    · simp [hzero, hrunning, hmore]
    · simp [hzero, hrunning, hmore]

/-- A tick before the duration has run out keeps what is recorded. -/
theorem Recorded.timer {calls : List Call} {s : State} (h : Recorded calls s)
    (hrunning : s.endAfter ≠ 0) (now : ℕ) : Recorded calls (s.timer now) := by
  rw [State.timer_of_running hrunning]
  exact ⟨h.io, h.device, h.dirty, h.read, h.write⟩

/-- The tick at which the duration has run out prints the report. -/
theorem State.timer_report {s : State} (hended : s.endAfter = 0) (hdelay : s.beginDelay = -1)
    (now : ℕ) : (s.timer now).printed = s.printed ++ s.reportLines now := by
  have hzero : s.beginDelay ≠ 0 := by omega
  unfold State.timer
  simp only [if_neg hzero, if_pos hended]
  split <;> rfl

/-! ## The recording window -/

section

variable (b d : ℕ) (seconds : ℕ → Second)

/-- The calls of the first seconds behind the delay. -/
def window (n : ℕ) : List Call := (List.range n).flatMap fun i => (seconds (b + i)).calls

/-- The window with one more second. -/
theorem window_succ (n : ℕ) :
    window b seconds (n + 1) = window b seconds n ++ (seconds (b + n)).calls := by
  rw [window, List.range_succ, List.flatMap_append, List.flatMap_singleton]
  rfl

/-- Nothing is recorded before the delay has run out. -/
theorem stateAt_waiting (hd : d ≠ 0) {k : ℕ} (hk : k ≤ b) :
    Recorded [] (stateAt b d seconds k) ∧
      (stateAt b d seconds k).printed = [.sync, .starting b] := by
  induction k with
  | zero => exact ⟨recorded_begin b d, rfl⟩
  | succ k ih =>
    obtain ⟨hrecorded, hprinted⟩ := ih (by omega)
    have hcounters := stateAt_delay b d seconds hd (by omega : k ≤ b + 1)
    have hdelay : (stateAt b d seconds k).beginDelay = (b : ℤ) - k := congrArg Prod.fst hcounters
    have hrest : (stateAt b d seconds k).endAfter = d := congrArg (·.2.1) hcounters
    have hrunning : (stateAt b d seconds k).endAfter ≠ 0 := by omega
    rw [stateAt, State.second, State.foldl_record_of_delay (by omega)]
    refine ⟨hrecorded.timer hrunning _, ?_⟩
    simp only [State.timer_of_running hrunning]
    rw [if_neg (by omega), List.append_nil, hprinted]

/-- What the timer counts with behind the delay. -/
theorem stateAt_recording (hd : d ≠ 0) {i : ℕ} (hi : i ≤ d + 1) :
    (stateAt b d seconds (b + i)).counters =
      (if i = 0 then 0 else -1, if i = 0 then (d : ℤ) else d + 1 - i, false) := by
  cases i with
  | zero =>
    rw [Nat.add_zero, stateAt_delay b d seconds hd (by omega), sub_self]
    rfl
  | succ j =>
    rw [show b + (j + 1) = b + 1 + j by omega, stateAt_duration b d seconds hd (by omega),
      if_neg j.succ_ne_zero, if_neg j.succ_ne_zero]
    congr 2
    omega

/-- Behind the delay all calls are recorded. -/
theorem stateAt_window (hd : d ≠ 0) {i : ℕ} (hi : i ≤ d + 1) :
    Recorded (window b seconds i) (stateAt b d seconds (b + i)) ∧
      (stateAt b d seconds (b + i)).printed =
        if i = 0 then [.sync, .starting b] else [.sync, .starting b, .recording d] := by
  induction i with
  | zero => exact stateAt_waiting b d seconds hd le_rfl
  | succ i ih =>
    obtain ⟨hrecorded, hprinted⟩ := ih (by omega)
    have hcounters := stateAt_recording b d seconds hd (by omega : i ≤ d + 1)
    have hcalls := State.foldl_record_counters (stateAt b d seconds (b + i)) (seconds (b + i)).calls
    rw [hcounters] at hcalls
    have hdelay := congrArg Prod.fst hcounters
    have hdelay' := congrArg Prod.fst hcalls
    have hrest := congrArg (·.2.1) hcalls
    dsimp only [State.counters] at hdelay hdelay' hrest
    have henabled : (stateAt b d seconds (b + i)).beginDelay ≤ 0 := by
      rw [hdelay]
      split <;> decide
    have hrunning : ((seconds (b + i)).calls.foldl State.record
        (stateAt b d seconds (b + i))).endAfter ≠ 0 := by
      rw [hrest]
      split <;> omega
    rw [← Nat.add_assoc, stateAt, State.second, window_succ]
    refine ⟨(hrecorded.foldl_record henabled _).timer hrunning _, ?_⟩
    simp only [State.timer_of_running hrunning]
    rw [State.foldl_record_printed, hprinted, hdelay', hrest, if_neg i.succ_ne_zero]
    by_cases hfirst : i = 0
    · simp [hfirst]
    · simp [hfirst]

end

/-! ## The report -/

/-- Lines report calls: the totals of all reads and writes in kilobytes, then a line for every
process, action and inode with bytes through a device, and then a line for every inode that was
marked dirty by a process in a second. The lines of each kind come in some order, and the totals are
printed if and only if there is a line with bytes. -/
def Reports (calls : List Call) (now : ℕ) (lines : List Output) : Prop :=
  ∃ totals ios dirties : List Output, lines = totals ++ ios ++ dirties ∧
    totals = (if ios = [] then [] else
      [.total now ((bytesOf .read calls + bytesOf .write calls) / 1024)
        (bytesOf .read calls / 1024) (bytesOf .write calls / 1024), .heading]) ∧
    ios.Perm (((ioBytes calls).map Prod.fst).dedup.map fun key =>
      let n := Tally.total (ioBytes calls) key
      .io key ((Tally.last? (ioDevices calls) key).getD "") (State.size n).1 (State.size n).2) ∧
    dirties.Perm (((calls.filterMap dirtyEntry)).dedup.map .dirty)

/-- Bytes are only counted if there are some. -/
theorem pos_of_mem_ioBytes {calls : List Call} {entry : IoKey × ℤ} (h : entry ∈ ioBytes calls) :
    0 < entry.2 := by
  obtain ⟨e, he, rfl⟩ := List.mem_map.mp h
  obtain ⟨call, -, hcall⟩ := List.mem_filterMap.mp he
  cases call with
  | dirty process dev filename time => cases hcall
  | io process action devname ino returned =>
    dsimp only [ioEntry] at hcall
    split at hcall
    · rename_i hcounts
      cases hcall
      exact hcounts.1
    · cases hcall

/-- The bytes of both actions are all bytes. -/
theorem bytesOf_add (calls : List Call) :
    bytesOf .read calls + bytesOf .write calls = ((ioBytes calls).map Prod.snd).sum := by
  unfold bytesOf
  induction ioBytes calls with
  | nil => rfl
  | cons entry rest ih =>
    obtain ⟨⟨process, action, ino⟩, n⟩ := entry
    cases action <;> simp at ih ⊢ <;> omega

/-- There are bytes if and only if a call counts. -/
theorem bytesOf_pos_iff (calls : List Call) :
    0 < bytesOf .read calls + bytesOf .write calls ↔ ioBytes calls ≠ [] := by
  rw [bytesOf_add]
  constructor
  · intro hpos hnil
    rw [hnil] at hpos
    exact absurd hpos (by decide)
  · intro hne
    apply List.sum_pos
    · intro n hn
      obtain ⟨entry, hentry, rfl⟩ := List.mem_map.mp hn
      exact pos_of_mem_ioBytes hentry
    · simpa using hne

/-- The report is one of what is recorded. -/
theorem Recorded.reports {calls : List Call} {s : State} (h : Recorded calls s) (now : ℕ) :
    Reports calls now (s.reportLines now) := by
  refine ⟨_, _, _, rfl, ?_, ?_, ?_⟩
  · have hnil : s.ioStat = [] ↔ ioBytes calls = [] := by
      have hkeys := h.io.perm.length_eq
      rw [List.length_map] at hkeys
      rw [← List.length_eq_zero_iff, hkeys, List.length_eq_zero_iff, List.dedup_eq_nil,
        List.map_eq_nil_iff]
    rw [h.read, h.write]
    simp only [gt_iff_lt, bytesOf_pos_iff, List.map_eq_nil_iff, hnil]
    split_ifs <;> simp_all
  · have hperm := h.io.perm.map fun p => Output.io p.1 ((s.device.lookup p.1).getD "")
      (State.size p.2).1 (State.size p.2).2
    rw [List.map_map] at hperm
    refine hperm.trans (List.Perm.of_eq (List.map_congr_left fun key _ => ?_))
    rw [Function.comp_apply, h.device key]
  · have hperm := h.dirty.perm.map fun p => Output.dirty p.1
    rw [List.map_map, dirtyMarks, List.map_map] at hperm
    simpa [Function.comp_def] using hperm

/-- Once the duration has been counted down, the script has printed that it is up, that the
recording starts, and one report of exactly the calls between the delay and the exit. -/
theorem printed_report (b d : ℕ) (hd : d ≠ 0) (seconds : ℕ → Second) :
    ∃ report, (stateAt b d seconds (b + 1 + d + 1)).printed =
        [.sync, .starting b, .recording d] ++ report ∧
      Reports (window b seconds (d + 2)) (seconds (b + 1 + d)).now report := by
  obtain ⟨hrecorded, hprinted⟩ := stateAt_window b d seconds hd (le_refl (d + 1))
  have hcounters := stateAt_recording b d seconds hd (le_refl (d + 1))
  rw [if_neg d.succ_ne_zero, if_neg d.succ_ne_zero] at hcounters
  have hcalls := State.foldl_record_counters (stateAt b d seconds (b + (d + 1)))
    (seconds (b + (d + 1))).calls
  rw [hcounters] at hcalls
  have hdelay := congrArg Prod.fst hcounters
  have hdelay' := congrArg Prod.fst hcalls
  have hrest := congrArg (·.2.1) hcalls
  dsimp only [State.counters] at hdelay hdelay' hrest
  have hall := hrecorded.foldl_record (by omega) (seconds (b + (d + 1))).calls
  rw [← window_succ] at hall
  rw [show b + 1 + d = b + (d + 1) by omega, stateAt, State.second,
    State.timer_report (by omega) hdelay', State.foldl_record_printed, hprinted,
    if_neg d.succ_ne_zero]
  exact ⟨_, rfl, hall.reports _⟩

/-- With a duration, the script exits one second after the duration has been counted down, and then
it has printed that it is up, that the recording starts, and one report of exactly the calls
between the delay and the exit. -/
theorem busyio_report (b d : ℕ) (hd : d ≠ 0) (seconds : ℕ → Second) :
    ExitsAfter b d seconds (b + 1 + d) ∧
      ∃ report, (stateAt b d seconds (b + 1 + d + 1)).printed =
          [.sync, .starting b, .recording d] ++ report ∧
        Reports (window b seconds (d + 2)) (seconds (b + 1 + d)).now report :=
  ⟨exitsAfter_duration b d seconds hd, printed_report b d hd seconds⟩

/-- A process that reads two kilobytes in every second. -/
def reading : Second where
  calls := [.io ⟨412, "updatedb", 0, 1⟩ .read "sda1" 7 2048]
  now := 1300000000

/-- With a process that reads while the script waits and while it records. -/
theorem reading_busyio_report : 60 ≠ 0 ∧
    ExitsAfter (5 : ℕ) (60 : ℕ) (fun _ => reading) (5 + 1 + 60) ∧
      ∃ report, (stateAt (5 : ℕ) (60 : ℕ) (fun _ => reading) (5 + 1 + 60 + 1)).printed =
          [.sync, .starting (5 : ℕ), .recording (60 : ℕ)] ++ report ∧
        Reports (window 5 (fun _ => reading) (60 + 2)) reading.now report :=
  ⟨by decide, busyio_report 5 60 (by decide) fun _ => reading⟩

end FlukeTesting.HddMonitorIo
