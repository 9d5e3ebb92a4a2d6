import FlukeTesting.HddMonitorIo.Report
import FlukeTesting.Lib.Lines
import FlukeTesting.Lib.Search

/-!
# What `busyio.py` does with the output of `busyio.stp`

The parent takes lines off the two pipes of `stap` as `select` finds them readable, until both are
empty. It drops the errors, and it prints what the script prints, except for the line that says that
the script is up: then it flushes the disks. So what is recorded is not what was still to be written
before. Any other line that starts with `SYNC` would do the same, but no line of a report does.
-/

namespace FlukeTesting.HddMonitorIo

open Lines Printf

/-! ## The text that the script prints -/

/-- `%8s` and the like. -/
def right (width : ℕ) (text : String) : List Char := text.toList.leftpad width ' '

/-- `%-8s` and the like. -/
def left (width : ℕ) (text : String) : List Char := text.toList.rightpad width ' '

/-- `%8d` and the like. -/
def number (width : ℕ) (n : ℤ) : List Char := pad width (decimal n)

/-- The columns of a line up to the command. -/
def processColumns (process : Process) : List Char :=
  number 8 process.uid ++ [' '] ++ number 8 process.pid ++ [' '] ++ number 8 process.ppid ++
    [' '] ++ left 15 process.execname ++ [' ']

/-- The lines that are printed, without their newlines. -/
def Output.rows (ctime : ℕ → String) : Output → List (List Char)
  | .sync => ["SYNC".toList]
  | .starting seconds => ["Starting in ".toList ++ number 0 seconds ++ " seconds..".toList]
  | .recording seconds =>
    ["Now recording ".toList ++ number 0 seconds ++ " seconds of samples".toList]
  | .total now sum read write =>
    [[], left 25 (ctime now) ++ ", ".toList ++ left 8 "Total:" ++ number 4 sum ++ "Kb, ".toList ++
      left 7 "Read:" ++ number 6 read ++ "Kb, ".toList ++ left 7 "Write:" ++ number 6 write ++
      "Kb".toList, []]
  | .heading =>
    [right 8 "UID" ++ [' '] ++ right 8 "PID" ++ [' '] ++ right 8 "PPID" ++ [' '] ++
      right 15 "Cmd" ++ [' '] ++ right 8 "Device" ++ [' '] ++ right 1 "T" ++ [' '] ++
      "Size,inode/When Filename".toList]
  | .io key device size unit =>
    [processColumns key.process ++ right 8 device ++ [' '] ++
      right 1 (match key.action with | .read => "R" | .write => "W") ++ [' '] ++
      number 5 size ++ [unit] ++ [','] ++ number 8 key.ino]
  | .dirty key =>
    [processColumns key.process ++ right 8 key.dev ++ [' '] ++ right 1 "D" ++ [' '] ++
      (ctime key.time).toList ++ [' '] ++ key.filename.toList]

/-- What the script prints, as a text. -/
def text (ctime : ℕ → String) (printed : List Output) : List Char :=
  unlines (printed.flatMap (Output.rows ctime))

/-! ## The parent -/

/-- The pipes of the script. -/
inductive Pipe
  | stderr
  | stdout
  deriving DecidableEq

/-- What the parent does. -/
inductive Effect
  | print (text : List Char)
  | callSync
  deriving DecidableEq

/-- What is left in the pipes, whether they have not ended yet, and what the parent has done. -/
structure Parent where
  stderr : List Char
  stdout : List Char
  stderrOpen : Bool
  stdoutOpen : Bool
  effects : List Effect

/-- A line of the script. -/
def handle (line : List Char) : List Effect :=
  if Search.find "SYNC".toList line = some 0 then [.print "Syncing..\n".toList, .callSync]
  else [.print line]

namespace Parent

/-- The parent when it has started the script. -/
def start (stderr stdout : List Char) : Parent := ⟨stderr, stdout, true, true, []⟩

/-- A pipe is readable. -/
def read (s : Parent) : Pipe → Parent
  | .stderr =>
    let (line, rest) := readline s.stderr
    let s := { s with stderr := rest }
    if line = [] then { s with stderrOpen := false } else s
  | .stdout =>
    let (line, rest) := readline s.stdout
    let s := { s with stdout := rest }
    if line = [] then { s with stdoutOpen := false }
    else { s with effects := s.effects ++ handle line }

/-- The loop, with what `select` finds readable each time. -/
def loop (s : Parent) : List (List Pipe) → Parent
  | [] => s
  | readable :: rounds =>
    if s.stderrOpen || s.stdoutOpen then (readable.foldl read s).loop rounds else s

/-- The loop has ended. -/
def Ended (s : Parent) : Prop := s.stderrOpen = false ∧ s.stdoutOpen = false

/-! ## Every line is handled once -/

/-- What is done, and what is still to do, is everything. -/
structure Handles (stdout : List Char) (s : Parent) : Prop where
  effects : s.effects ++ (lines s.stdout).flatMap handle = (lines stdout).flatMap handle
  ended : s.stdoutOpen = false → s.stdout = []

/-- At first everything is to do. -/
theorem handles_start (stderr stdout : List Char) : Handles stdout (start stderr stdout) :=
  ⟨rfl, fun h => Bool.noConfusion h⟩

/-- Taking a line off a pipe. -/
theorem Handles.read {stdout : List Char} {s : Parent} (h : Handles stdout s) (pipe : Pipe) :
    Handles stdout (s.read pipe) := by
  cases pipe with
  | stderr =>
    dsimp only [Parent.read]
    split <;> exact ⟨h.effects, h.ended⟩
  | stdout =>
    dsimp only [Parent.read]
    by_cases hempty : s.stdout = []
    · have hline : (readline s.stdout).1 = [] := (readline_eq_nil_iff _).mpr hempty
      have hrest : (readline s.stdout).2 = [] := by rw [hempty]; rfl
      rw [if_pos hline]
      exact ⟨by dsimp only; rw [hrest, ← hempty]; exact h.effects, fun _ => hrest⟩
    · have hline : (readline s.stdout).1 ≠ [] := mt (readline_eq_nil_iff _).mp hempty
      rw [if_neg hline]
      refine ⟨?_, fun hclosed => absurd (h.ended hclosed) hempty⟩
      have heffects := h.effects
      rw [lines_readline hempty, List.flatMap_cons] at heffects
      rw [List.append_assoc]
      exact heffects

/-- A round of the loop. -/
theorem Handles.foldl_read {stdout : List Char} {s : Parent} (h : Handles stdout s)
    (readable : List Pipe) : Handles stdout (readable.foldl Parent.read s) := by
  induction readable generalizing s with
  | nil => exact h
  | cons pipe rest ih => exact ih (h.read pipe)

/-- The whole loop. -/
theorem Handles.loop {stdout : List Char} {s : Parent} (h : Handles stdout s)
    (rounds : List (List Pipe)) : Handles stdout (s.loop rounds) := by
  induction rounds generalizing s with
  | nil => exact h
  | cons readable rounds ih =>
    rw [Parent.loop]
    split
    · exact ih (h.foldl_read readable)
    · exact h

/-- When the loop has ended, every line was handled once, in its order. -/
theorem effects_of_ended {stderr stdout : List Char} {rounds : List (List Pipe)}
    (h : ((start stderr stdout).loop rounds).Ended) :
    ((start stderr stdout).loop rounds).effects = (lines stdout).flatMap handle := by
  have hhandles := (handles_start stderr stdout).loop rounds
  have heffects := hhandles.effects
  rwa [hhandles.ended h.2, lines, List.flatMap_nil, List.append_nil] at heffects

/-! ## The loop ends -/

/-- How often a pipe has to be read until the loop knows its end. -/
def pending (s : Parent) : Pipe → ℕ
  | .stderr => if s.stderrOpen then (lines s.stderr).length + 1 else 0
  | .stdout => if s.stdoutOpen then (lines s.stdout).length + 1 else 0

/-- Reading a pipe brings its end nearer. -/
theorem pending_read (s : Parent) (pipe other : Pipe) :
    (s.read pipe).pending other ≤ s.pending other - if pipe = other then 1 else 0 := by
  have hstep (text : List Char) (isOpen : Bool) :
      (if (if (readline text).1 = [] then false else isOpen) = true
        then (lines (readline text).2).length + 1 else 0) ≤
      (if isOpen = true then (lines text).length + 1 else 0) - 1 := by
    by_cases hempty : text = []
    · rw [if_pos ((readline_eq_nil_iff text).mpr hempty)]
      exact Nat.zero_le _
    · rw [if_neg (mt (readline_eq_nil_iff text).mp hempty), lines_readline hempty]
      cases isOpen <;> simp
  cases pipe with
  | stderr =>
    have hstderr := hstep s.stderr s.stderrOpen
    cases other with
    | stderr =>
      dsimp only [Parent.read, pending]
      split_ifs at hstderr ⊢ <;> simp_all
    | stdout =>
      dsimp only [Parent.read, pending]
      split <;> simp
  | stdout =>
    have hstdout := hstep s.stdout s.stdoutOpen
    cases other with
    | stderr =>
      dsimp only [Parent.read, pending]
      split <;> simp
    | stdout =>
      dsimp only [Parent.read, pending]
      split_ifs at hstdout ⊢ <;> simp_all

/-- A round brings the ends nearer. -/
theorem pending_foldl (s : Parent) (readable : List Pipe) (pipe : Pipe) :
    (readable.foldl Parent.read s).pending pipe ≤ s.pending pipe - readable.count pipe := by
  induction readable generalizing s with
  | nil => exact le_rfl
  | cons other rest ih =>
    have hrest := ih (s.read other)
    have hother := s.pending_read other pipe
    rw [List.foldl_cons, List.count_cons]
    by_cases hpipe : other = pipe
    · simp only [hpipe, beq_self_eq_true, if_true] at hrest hother ⊢
      omega
    · simp only [hpipe, beq_iff_eq, if_false] at hrest hother ⊢
      omega

/-- The loop has ended, or all of its rounds have brought the ends nearer. -/
theorem ended_or_pending_loop (s : Parent) (rounds : List (List Pipe)) :
    (s.loop rounds).Ended ∨
      ∀ pipe, (s.loop rounds).pending pipe ≤ s.pending pipe - rounds.flatten.count pipe := by
  induction rounds generalizing s with
  | nil => exact Or.inr fun pipe => le_rfl
  | cons readable rounds ih =>
    rw [Parent.loop]
    by_cases hopen : (s.stderrOpen || s.stdoutOpen) = true
    · rw [if_pos hopen]
      refine (ih (readable.foldl Parent.read s)).imp_right fun hpending pipe => ?_
      have hrest := hpending pipe
      have hround := s.pending_foldl readable pipe
      rw [List.flatten_cons, List.count_append]
      omega
    · rw [if_neg hopen]
      left
      simpa [Ended] using hopen

/-- The loop ends when every pipe was readable as often as it has lines, and once more. -/
theorem ended_loop {s : Parent} {rounds : List (List Pipe)}
    (h : ∀ pipe, s.pending pipe ≤ rounds.flatten.count pipe) : (s.loop rounds).Ended := by
  refine (s.ended_or_pending_loop rounds).elim id fun hpending => ?_
  have hstderr := hpending .stderr
  have hstdout := hpending .stdout
  rw [Nat.sub_eq_zero_of_le (h _), Nat.le_zero] at hstderr hstdout
  dsimp only [pending] at hstderr hstdout
  constructor
  · by_contra hopen
    rw [if_pos (Bool.eq_true_of_not_eq_false hopen)] at hstderr
    exact Nat.succ_ne_zero _ hstderr
  · by_contra hopen
    rw [if_pos (Bool.eq_true_of_not_eq_false hopen)] at hstdout
    exact Nat.succ_ne_zero _ hstdout

end Parent

/-! ## No line of a report flushes the disks -/

/-- The names of a call that may be printed. -/
def State.Call.names : Call → List String
  | .dirty process dev filename _ => [process.execname, dev, filename]
  | .io process _ devname _ _ => [process.execname, devname]

/-- The days, as `ctime` names them. -/
def days : List String := ["Sun", "Mon", "Tue", "Wed", "Thu", "Fri", "Sat"]

/-- The time in words starts with a day, and is one line. -/
structure IsCtime (words : String) : Prop where
  day : ∃ day ∈ days, day.toList ++ [' '] <+: words.toList
  oneLine : '\n' ∉ words.toList

/-- A line that the parent prints. -/
structure Passes (row : List Char) : Prop where
  oneLine : '\n' ∉ row
  noSync : ¬ "SYNC".toList <+: row ++ ['\n']

/-- A pattern is found at the front if and only if the text starts with it. -/
theorem find_eq_zero_iff {pattern line : List Char} :
    Search.find pattern line = some 0 ↔ pattern <+: line := by
  refine ⟨fun h => ?_, Search.find_of_starts⟩
  cases line with
  | nil =>
    rw [Search.find] at h
    split at h
    · rename_i hnil
      exact hnil ▸ List.nil_prefix
    · cases h
  | cons c rest =>
    rw [Search.find] at h
    split at h
    · rename_i hpre
      exact List.isPrefixOf_iff_prefix.mp hpre
    · obtain ⟨k, -, hk⟩ := Option.map_eq_some_iff.mp h
      exact absurd hk (Nat.succ_ne_zero k)

/-- The parent prints it. -/
theorem Passes.handle {row : List Char} (h : Passes row) :
    handle (row ++ ['\n']) = [.print (row ++ ['\n'])] :=
  if_neg fun hfind => h.noSync (find_eq_zero_iff.mp hfind)

/-- A line whose front cannot start with `SYNC`. -/
theorem noSync_of_front {front : List Char} (hne : front ≠ []) (h : 'S' ∉ front)
    (rest : List Char) : ¬ "SYNC".toList <+: front ++ rest := by
  obtain ⟨c, front, rfl⟩ := List.exists_cons_of_ne_nil hne
  rintro ⟨more, hmore⟩
  have hhead : 'S' = c := by
    have := congrArg List.head? hmore
    simpa using this
  exact h (hhead ▸ List.mem_cons_self)

/-- A number in a column is not empty. -/
theorem number_ne_nil (width : ℕ) (n : ℤ) : number width n ≠ [] :=
  List.append_ne_nil_of_right_ne_nil _ (decimal n).ne_nil

/-- Only digits, a sign and blanks are in a number. -/
theorem letter_not_mem_number {c : Char} (hblank : c ≠ ' ') (hsign : c ≠ '-')
    (hdigit : c.isDigit = false) (width : ℕ) (n : ℤ) : c ∉ number width n := by
  intro hmem
  rcases List.mem_append.mp hmem with hpad | hword
  · exact not_mem_blanks hblank _ hpad
  · have hdigits (m : ℕ) : c ∉ Nat.toDigits 10 m := fun hc =>
      Bool.false_ne_true (hdigit.symm.trans
        (Nat.isDigit_of_mem_toDigits (by decide) (by decide) hc))
    dsimp only [decimal, signed] at hword
    split at hword
    · rcases List.mem_cons.mp hword with rfl | hc
      · exact hsign rfl
      · exact hdigits _ hc
    · exact hdigits _ hword

/-- A text that is filled up has no newline if it had none. -/
theorem newline_not_mem_right (width : ℕ) {name : String} (h : '\n' ∉ name.toList) :
    '\n' ∉ right width name := by
  intro hmem
  rcases List.mem_append.mp hmem with hpad | hname
  · exact absurd (List.eq_of_mem_replicate hpad) (by decide)
  · exact h hname

/-- A text that is filled up has no newline if it had none. -/
theorem newline_not_mem_left (width : ℕ) {name : String} (h : '\n' ∉ name.toList) :
    '\n' ∉ left width name := by
  intro hmem
  rcases List.mem_append.mp hmem with hname | hpad
  · exact h hname
  · exact absurd (List.eq_of_mem_replicate hpad) (by decide)

/-- A line that starts with a process passes if there is no newline in it. -/
theorem passes_processColumns {process : Process} (hname : '\n' ∉ process.execname.toList)
    {rest : List Char} (hrest : '\n' ∉ rest) : Passes (processColumns process ++ rest) where
  oneLine := by
    have hleft := newline_not_mem_left 15 hname
    simp [processColumns, number, hleft, hrest]
  noSync := by
    simp only [processColumns, List.append_assoc]
    exact noSync_of_front (number_ne_nil _ _)
      (letter_not_mem_number (by decide) (by decide) rfl _ _) _

/-- An empty line passes. -/
theorem passes_nil : Passes [] := ⟨List.not_mem_nil, by decide +kernel⟩

/-- A text that starts with four other characters does not start with the signal. -/
theorem noSync_of_take {front : List Char} (hlength : 4 ≤ front.length)
    (h : front.take 4 ≠ "SYNC".toList) (rest : List Char) :
    ¬ "SYNC".toList <+: front ++ rest := by
  intro hpre
  have htake := List.prefix_iff_eq_take.mp hpre
  have hfour : "SYNC".toList.length = 4 := by decide +kernel
  rw [hfour, List.take_append_of_le_length hlength] at htake
  exact h htake.symm

/-- The announcements pass. -/
theorem passes_announcement {front back : String}
    (hfront : (front, back) ∈ [("Starting in ", " seconds.."),
      ("Now recording ", " seconds of samples")]) (seconds : ℤ) :
    Passes (front.toList ++ number 0 seconds ++ back.toList) := by
  have hall : ∀ p ∈ [("Starting in ", " seconds.."), ("Now recording ", " seconds of samples")],
      '\n' ∉ p.1.toList ∧ '\n' ∉ p.2.toList ∧ 4 ≤ p.1.toList.length ∧
        p.1.toList.take 4 ≠ "SYNC".toList := by decide +kernel
  obtain ⟨hnewline, hnewline', hlength, htake⟩ := hall _ hfront
  refine ⟨by simp [number, hnewline, hnewline'], ?_⟩
  rw [List.append_assoc, List.append_assoc]
  exact noSync_of_take hlength htake _

/-- The time in words cannot be taken for the signal. -/
theorem IsCtime.noSync {words : String} (h : IsCtime words) (rest : List Char) :
    ¬ "SYNC".toList <+: words.toList ++ rest := by
  obtain ⟨day, hday, more, hmore⟩ := h.day
  have hdays : ∀ day ∈ days, 4 ≤ (day.toList ++ [' ']).length ∧
      (day.toList ++ [' ']).take 4 ≠ "SYNC".toList := by decide +kernel
  obtain ⟨hlength, htake⟩ := hdays day hday
  rw [← hmore, List.append_assoc]
  exact noSync_of_take hlength htake _

/-- No row of a line of the report is taken for the signal. -/
def Output.Pass (ctime : ℕ → String) (o : Output) : Prop := ∀ row ∈ o.rows ctime, Passes row

section

variable {ctime : ℕ → String} (hctime : ∀ t, IsCtime (ctime t))

include hctime in
/-- The totals pass. -/
theorem pass_total (now : ℕ) (sum read write : ℤ) :
    (Output.total now sum read write).Pass ctime := by
  intro row hrow
  rcases List.mem_cons.mp hrow with rfl | hrow
  · exact passes_nil
  rcases List.mem_cons.mp hrow with rfl | hrow
  · have hleft := newline_not_mem_left 25 (hctime now).oneLine
    have htitles : '\n' ∉ left 8 "Total:" ∧ '\n' ∉ left 7 "Read:" ∧ '\n' ∉ left 7 "Write:" ∧
        '\n' ∉ ", ".toList ∧ '\n' ∉ "Kb, ".toList ∧ '\n' ∉ "Kb".toList := by decide +kernel
    obtain ⟨htotal, hread, hwrite, hcomma, hkb, hkb'⟩ := htitles
    refine ⟨?_, ?_⟩
    · simp only [number, List.mem_append, hleft, htotal, hread, hwrite, hcomma, hkb, hkb',
        newline_not_mem_pad, or_self, not_false_eq_true]
    · simp only [left, List.rightpad, List.append_assoc]
      exact (hctime now).noSync _
  · rw [List.mem_singleton.mp hrow]
    exact passes_nil

/-- The heading passes. -/
theorem pass_heading : Output.heading.Pass ctime := by
  intro row hrow
  obtain rfl := List.mem_singleton.mp hrow
  constructor <;> decide +kernel

/-- A line of bytes passes. -/
theorem pass_io {key : IoKey} (hname : '\n' ∉ key.process.execname.toList) {device : String}
    (hdevice : '\n' ∉ device.toList) (n : ℤ) :
    (Output.io key device (State.size n).1 (State.size n).2).Pass ctime := by
  intro row hrow
  rw [Output.rows, List.mem_singleton] at hrow
  rw [hrow]
  have hunit : (State.size n).2 ≠ '\n' := by
    unfold State.size
    split_ifs <;> simp
  have haction : '\n' ∉ right 1 (match key.action with | .read => "R" | .write => "W") := by
    cases key.action <;> decide +kernel
  have hright := newline_not_mem_right 8 hdevice
  simp only [List.append_assoc]
  apply passes_processColumns hname
  simp only [number, List.mem_append, List.mem_singleton, hright, haction, hunit.symm,
    newline_not_mem_pad, or_false, false_or]
  decide

include hctime in
/-- A line of an inode passes. -/
theorem pass_dirty {key : DirtyKey} (hname : '\n' ∉ key.process.execname.toList)
    (hdev : '\n' ∉ key.dev.toList) (hfilename : '\n' ∉ key.filename.toList) :
    (Output.dirty key).Pass ctime := by
  intro row hrow
  rw [Output.rows, List.mem_singleton] at hrow
  rw [hrow]
  have hkind : '\n' ∉ right 1 "D" := by decide +kernel
  have hright := newline_not_mem_right 8 hdev
  simp only [List.append_assoc]
  apply passes_processColumns hname
  simp only [List.mem_append, List.mem_singleton, hright, hkind, (hctime key.time).oneLine,
    hfilename, or_false, false_or]
  decide

/-- The names of bytes that are counted. -/
theorem names_of_ioEntry {call : State.Call} {key : IoKey} {device : String} {n : ℤ}
    (h : ioEntry call = some (key, device, n)) :
    key.process.execname ∈ call.names ∧ device ∈ call.names := by
  cases call with
  | dirty process dev filename time => cases h
  | io process action devname ino returned =>
    dsimp only [ioEntry] at h
    split at h
    · cases h
      exact ⟨List.mem_cons_self, List.mem_cons_of_mem _ List.mem_cons_self⟩
    · cases h

/-- The names of the bytes that are counted have no newline in them if no name has. -/
theorem oneLine_ioEntry {calls : List State.Call}
    (hnames : ∀ call ∈ calls, ∀ name ∈ call.names, '\n' ∉ name.toList) :
    ∀ e ∈ calls.filterMap ioEntry, '\n' ∉ e.1.process.execname.toList ∧ '\n' ∉ e.2.1.toList := by
  intro e he
  obtain ⟨call, hcall, hentry⟩ := List.mem_filterMap.mp he
  obtain ⟨hexecname, hdevice⟩ := names_of_ioEntry hentry
  exact ⟨hnames call hcall _ hexecname, hnames call hcall _ hdevice⟩

/-- The device that is printed has no newline in it if no name has. -/
theorem oneLine_device {calls : List State.Call}
    (hnames : ∀ call ∈ calls, ∀ name ∈ call.names, '\n' ∉ name.toList) (key : IoKey) :
    '\n' ∉ ((Tally.last? (ioDevices calls) key).getD "").toList := by
  cases hlast : Tally.last? (ioDevices calls) key with
  | none => simp
  | some device =>
    obtain ⟨e, he, heq⟩ := List.mem_map.mp (Tally.mem_of_last? hlast)
    cases heq
    exact (oneLine_ioEntry hnames e he).2

include hctime in
/-- All lines of a report pass, if no name that was recorded has a newline in it. -/
theorem pass_report {calls : List State.Call}
    (hnames : ∀ call ∈ calls, ∀ name ∈ call.names, '\n' ∉ name.toList) {now : ℕ}
    {report : List Output} (h : Reports calls now report) : ∀ o ∈ report, o.Pass ctime := by
  obtain ⟨totals, ios, dirties, rfl, htotals, hios, hdirties⟩ := h
  intro o ho
  rcases List.mem_append.mp ho with hfront | hdirty
  · rcases List.mem_append.mp hfront with htotal | hio
    · rw [htotals] at htotal
      split at htotal
      · cases htotal
      · rcases List.mem_cons.mp htotal with rfl | hheading
        · exact pass_total hctime _ _ _ _
        · rw [List.mem_singleton.mp hheading]
          exact pass_heading
    · obtain ⟨key, hkey, rfl⟩ := List.mem_map.mp (hios.mem_iff.mp hio)
      obtain ⟨entry, hentry, rfl⟩ := List.mem_map.mp (List.mem_dedup.mp hkey)
      obtain ⟨e, he, rfl⟩ := List.mem_map.mp hentry
      exact pass_io (oneLine_ioEntry hnames e he).1 (oneLine_device hnames _) _
  · obtain ⟨key, hkey, rfl⟩ := List.mem_map.mp (hdirties.mem_iff.mp hdirty)
    obtain ⟨call, hcall, hentry⟩ := List.mem_filterMap.mp (List.mem_dedup.mp hkey)
    have hcallNames := hnames call hcall
    cases call with
    | io process action devname ino returned => cases hentry
    | dirty process dev filename time =>
      cases hentry
      exact pass_dirty hctime (hcallNames _ (by simp [State.Call.names]))
        (hcallNames _ (by simp [State.Call.names])) (hcallNames _ (by simp [State.Call.names]))

/-- Lines that pass are printed as they are. -/
theorem flatMap_handle {printed : List Output} (h : ∀ o ∈ printed, o.Pass ctime) :
    (lines (text ctime printed)).flatMap handle = (lines (text ctime printed)).map .print := by
  have hrows : ∀ row ∈ printed.flatMap (Output.rows ctime), Passes row := by
    intro row hrow
    obtain ⟨o, ho, hmem⟩ := List.mem_flatMap.mp hrow
    exact h o ho row hmem
  rw [text, lines_unlines fun row hrow => (hrows row hrow).oneLine, List.flatMap_map, List.map_map]
  generalize printed.flatMap (Output.rows ctime) = rows at hrows
  induction rows with
  | nil => rfl
  | cons row rest ih =>
    rw [List.flatMap_cons, (hrows row List.mem_cons_self).handle,
      ih fun row' hrow' => hrows row' (List.mem_cons_of_mem row hrow')]
    rfl

/-- The announcements of the script pass. -/
theorem pass_announced (b d : ℤ) :
    ∀ o ∈ [Output.starting b, Output.recording d], o.Pass ctime := by
  intro o ho row hrow
  rcases List.mem_cons.mp ho with rfl | ho
  · rw [List.mem_singleton.mp hrow]
    exact passes_announcement (by decide) b
  · rw [List.mem_singleton.mp ho] at hrow
    rw [List.mem_singleton.mp hrow]
    exact passes_announcement (by decide) d

/-- The signal comes first. -/
theorem flatMap_handle_sync (printed : List Output) :
    (lines (text ctime (.sync :: printed))).flatMap handle =
      [.print "Syncing..\n".toList, .callSync] ++ (lines (text ctime printed)).flatMap handle := by
  have hrow : '\n' ∉ "SYNC".toList := by decide +kernel
  have htext : text ctime (.sync :: printed) = "SYNC".toList ++ '\n' :: text ctime printed := by
    rw [text, List.flatMap_cons, unlines_append]
    rfl
  have hsync : handle ("SYNC".toList ++ ['\n']) = [.print "Syncing..\n".toList, .callSync] :=
    if_pos (Search.find_of_starts (List.prefix_append _ _))
  rw [htext, lines_append hrow, List.flatMap_cons, hsync]

/-- However the pipes become readable, the loop ends when each was readable as often as it has lines
and once more. When it has ended, the disks were flushed once, before anything was printed, and then
the announcements and the report of the recording window were printed as they are. -/
theorem busyio_forwards (hctime : ∀ t, IsCtime (ctime t)) (b d : ℕ) (hd : d ≠ 0)
    (seconds : ℕ → Second)
    (hnames : ∀ k, ∀ call ∈ (seconds k).calls, ∀ name ∈ call.names, '\n' ∉ name.toList)
    (stderr : List Char) (rounds : List (List Pipe)) :
    let s := Parent.start stderr (text ctime (stateAt b d seconds (b + 1 + d + 1)).printed)
    ((∀ pipe, s.pending pipe ≤ rounds.flatten.count pipe) → (s.loop rounds).Ended) ∧
      ((s.loop rounds).Ended → ∃ report,
        Reports (window b seconds (d + 2)) (seconds (b + 1 + d)).now report ∧
        (s.loop rounds).effects = [.print "Syncing..\n".toList, .callSync] ++
          (lines (text ctime ([.starting b, .recording d] ++ report))).map .print) := by
  intro s
  refine ⟨Parent.ended_loop, fun hended => ?_⟩
  obtain ⟨report, hprinted, hreport⟩ := printed_report b d hd seconds
  refine ⟨report, hreport, ?_⟩
  have hpass : ∀ o ∈ [Output.starting (b : ℤ), Output.recording (d : ℤ)] ++ report,
      o.Pass ctime := by
    intro o ho
    rcases List.mem_append.mp ho with hannounced | hreported
    · exact pass_announced b d o hannounced
    · refine pass_report hctime (fun call hcall => ?_) hreport o hreported
      obtain ⟨i, -, hmem⟩ := List.mem_flatMap.mp hcall
      exact hnames _ call hmem
  rw [Parent.effects_of_ended hended, hprinted]
  exact (flatMap_handle_sync _).trans (congrArg _ (flatMap_handle hpass))

end

/-- The time in words, on a morning in March. -/
def marchMorning : ℕ → String := fun _ => "Sun Mar 13 07:06:40 2011"

/-- It is one. -/
theorem isCtime_marchMorning (t : ℕ) : IsCtime (marchMorning t) := by
  have hstart : "Sun".toList ++ [' '] <+: "Sun Mar 13 07:06:40 2011".toList := by decide +kernel
  have hline : '\n' ∉ "Sun Mar 13 07:06:40 2011".toList := by decide +kernel
  exact ⟨⟨"Sun", List.mem_cons_self, hstart⟩, hline⟩

/-- With a process that reads in every second, and a warning of `stap`. -/
theorem reading_busyio_forwards :
    let seconds : ℕ → Second := fun _ => reading
    let s := Parent.start "WARNING: cannot find module kernel debuginfo\n".toList
      (text marchMorning (stateAt (5 : ℕ) (60 : ℕ) seconds (5 + 1 + 60 + 1)).printed)
    let rounds := List.replicate 10 [Pipe.stderr, Pipe.stdout]
    ((∀ pipe, s.pending pipe ≤ rounds.flatten.count pipe) → (s.loop rounds).Ended) ∧
      ((s.loop rounds).Ended → ∃ report,
        Reports (window 5 seconds (60 + 2)) (seconds (5 + 1 + 60)).now report ∧
        (s.loop rounds).effects = [.print "Syncing..\n".toList, .callSync] ++
          (lines (text marchMorning
            ([.starting (5 : ℕ), .recording (60 : ℕ)] ++ report))).map .print) := by
  apply busyio_forwards isCtime_marchMorning 5 60 (by decide)
  intro k call hcall name hname
  rw [List.mem_singleton.mp hcall] at hname
  revert name
  decide +kernel

end FlukeTesting.HddMonitorIo
