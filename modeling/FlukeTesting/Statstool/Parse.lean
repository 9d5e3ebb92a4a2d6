import FlukeTesting.Lib.Outcome
import FlukeTesting.Statstool.Analyse
import FlukeTesting.Statstool.Timestamp
import Mathlib.Logic.Function.Basic

/-!
# `data_parse`

The read loop of `data_parse` with its tag and sample handlers. A step ends in undefined
behaviour where the C code writes or reads outside its objects: the run array, the fixed
string buffers, the line buffer, freed points or the uninitialised `arch` pointer.

What the program gets from outside is an input, indexed by the number of the line that asks
for it: whether `calloc` and `fopen` succeed and what uninitialised locals hold.
-/

namespace FlukeTesting.Statstool

open Imperative Scanf

/-- `MAX_TEST_RUNS`. -/
def maxTestRuns : ℕ := 128

/-- The size of `hostname`, `kernel` and `test`. -/
def nameSize : ℕ := 1024

/-- The size of `buf` in the `TEST_CLIENT` handler. -/
def machineSize : ℕ := 64

/-- The names that `arch` can point to. -/
inductive Arch
  | amd64
  | i386
  | unknown
  deriving DecidableEq

/-- The text of an architecture name. -/
def Arch.text : Arch → Text
  | amd64 => "amd64".toList
  | i386 => "i386".toList
  | unknown => "unknown".toList

/-- Where a step leaves the defined behaviour of C. -/
inductive Fault
  | stripIndex
  | stringOverflow
  | archUninitialised
  | slotIndex
  | staleSlot
  deriving DecidableEq

/-- One call of `data_analyse`, with the file it writes to, if any, and the text printed
there before it; `line` is the log line that caused it. -/
structure Report (K : Type*) where
  file : Option Text
  heading : List (Piece K)
  runs : List (Slot K)
  analysis : Analysis K
  line : ℕ

/-- What the program does to the outside. -/
inductive Output (K : Type*)
  | stdout (pieces : List (Piece K))
  | stderr (pieces : List (Piece K))
  | report (r : Report K)

/-- What the program gets from outside, by the number of the line that asks for it. -/
structure Env (K : Type*) where
  sqrt : K → K
  utcOffset : ℤ
  calloc : ℕ → Bool
  fopen : ℕ → Bool
  tm : ℕ → Tm
  buf : ℕ → Text

/-- The globals of the program and its environment. -/
structure Context (K : Type*) where
  opts : Opts
  scaleBy : K
  env : Env K

/-- The locals of `data_parse` and its outputs so far. A slot that is not initialised, or
whose points are freed, is `none`. -/
structure State (K : Type*) where
  index : ℤ
  testBegin : Bool
  testRunBegin : Bool
  hostname : Text
  kernel : Text
  test : Text
  arch : Option Arch
  startSecs : K
  data : Fin maxTestRuns → Option (Slot K)
  out : List (Output K)

/-- The index expression `data[i]`, for an `i` that may lie outside the array. -/
def slotAt (i : ℤ) : Option (Fin maxTestRuns) :=
  if h : 0 ≤ i ∧ i < maxTestRuns then
    some ⟨i.toNat, by have := h.1; have := h.2; omega⟩
  else none

/-- An index in the array denotes its slot. -/
theorem slotAt_natCast (i : ℕ) (h : i < maxTestRuns) : slotAt (i : ℤ) = some ⟨i, h⟩ := by
  unfold slotAt
  rw [dif_pos ⟨by omega, by exact_mod_cast h⟩]
  simp

/-- What a statement of the parser does. -/
abbrev Step (K : Type*) := State K → Outcome Fault (State K)

namespace State

variable {K : Type*}

/-- Append an output. -/
def emit (s : State K) (o : Output K) : State K := { s with out := s.out ++ [o] }

/-- The first `n` slots, if all of them are initialised. -/
def slots (s : State K) (n : ℕ) : Option (List (Slot K)) :=
  (List.range n).mapM fun i => if h : i < maxTestRuns then s.data ⟨i, h⟩ else none

/-- The argument `index+1` of `data_analyse` and `data_free`. -/
def count (s : State K) : ℕ := (s.index + 1).toNat

end State

section

variable {K : Type*} [Field K] [LinearOrder K]

/-- The locals on entry to the read loop. -/
def State.initial : State K where
  index := -1
  testBegin := false
  testRunBegin := false
  hostname := []
  kernel := []
  test := []
  arch := none
  startSecs := -1
  data := fun _ => none
  out := []

/-- `if (start_secs < 0.0) start_secs = sec`. -/
def State.originate (s : State K) (sec : K) : State K :=
  if s.startSecs < 0 then { s with startSecs := sec } else s

/-- `test_run_begin`, called from the given line. -/
def testRunBegin (line : ℕ) : Step K := fun s =>
  let i := s.index + 1
  if maxTestRuns ≤ i then
    .next (s.emit (.stderr [lit "Too many test runs, maximum allowed ", .int 0 maxTestRuns,
      lit "\n"]))
  else
    let s := { s with index := i, testRunBegin := true }
    match slotAt i with
    | none => .fault .slotIndex s
    | some k => .next { s with data := Function.update s.data k (some (.fresh line)) }

/-- `test_run_end`. -/
def testRunEnd : Step K := fun s => .next { s with testRunBegin := false }

/-- `data_analyse(fp, data, index+1)`. -/
def analyseTo (ctx : Context K) (line : ℕ) (file : Option Text) (heading : List (Piece K)) :
    Step K := fun s =>
  match s.slots s.count with
  | none => .fault .staleSlot s
  | some runs =>
    let analysis := dataAnalyse ctx.opts ctx.env.sqrt runs
    .next (s.emit (.report { file, heading, runs, analysis, line }))

/-- `data_free(data, index+1)`. -/
def dataFree : Step K := fun s =>
  match s.slots s.count with
  | none => .fault .staleSlot s
  | some _ => .next { s with data := fun i => if i.val < s.count then none else s.data i }

/-- The machine name decides the architecture. -/
def archOf (machine : Text) : Arch :=
  if "x86_64".toList.isPrefixOf machine then .amd64
  else if "i".toList.isPrefixOf machine then .i386
  else .unknown

/-- The destinations of the conversions in the `TEST_CLIENT` handler; `buf` holds a machine
name only if the third one succeeds. -/
structure ClientWords where
  hostname : Text
  kernel : Text
  machine : Option Text

/-- The format `"%s %s %s"` with its destinations. -/
def clientFormat : List (Directive ClientWords) :=
  [.word fun w c => { c with hostname := w }, .space,
    .word fun w c => { c with kernel := w }, .space,
    .word fun w c => { c with machine := some w }]

/-- What the `TEST_CLIENT` handler reads from the text at `s + 12`. A word that is missing
leaves the text that was there before. -/
def clientWords (arg hostname kernel : Text) : ClientWords :=
  sscanf clientFormat arg ⟨hostname, kernel, none⟩

/-- The words fit into the destinations with their terminators. -/
def ClientWords.Fits (words : ClientWords) : Prop :=
  words.hostname.length < nameSize ∧ words.kernel.length < nameSize ∧
    (words.machine.getD []).length < machineSize

instance (words : ClientWords) : Decidable words.Fits :=
  inferInstanceAs (Decidable (_ ∧ _ ∧ _))

/-- The line that the `TEST_CLIENT` and `TEST_BEGIN` handlers print unless results are
extracted, with its prefixes for tagged and plain output. -/
def announce (ctx : Context K) (tagged plain : String) (arg : Text) (s : State K) : State K :=
  if ctx.opts.extractResults then s
  else s.emit (.stdout
    [lit (if ctx.opts.taggedOutput then tagged else plain), .str arg, lit "\n"])

/-- The `TEST_CLIENT` handler; `arg` is the text at `s + 12`. -/
def testClient (ctx : Context K) (line : ℕ) (arg : Text) : Step K := fun s =>
  let s := announce ctx "info:client:" "Client: " arg s
  let words := clientWords arg s.hostname s.kernel
  if words.Fits then
    .next { s with
      hostname := words.hostname
      kernel := words.kernel
      arch := some (archOf (words.machine.getD (ctx.env.buf line))) }
  else .fault .stringOverflow s

/-- The format `"%s"` of the `TEST_BEGIN` handler. -/
def testFormat : List (Directive Text) := [.word fun w _ => w]

/-- What the `TEST_BEGIN` handler reads from the text at `ptr + 11`. -/
def testWord (arg test : Text) : Text := sscanf testFormat arg test

/-- The `TEST_BEGIN` handler; `arg` is the text at `ptr + 11`. -/
def testBegin (ctx : Context K) (arg : Text) : Step K := fun s =>
  let s := announce ctx "info:test-name:" "Test:   " arg s
  let test := testWord arg s.test
  if test.length < nameSize then .next { s with test, testBegin := true }
  else .fault .stringOverflow s

/-- The file name `"%s-%s-%s-%s.txt"`. -/
def reportName (hostname kernel test : Text) (arch : Arch) : Text :=
  hostname ++ '-' :: kernel ++ '-' :: test ++ '-' :: arch.text ++ ".txt".toList

/-- The heading `"%s %s (%s), %s\n\n"`. -/
def reportHeading (hostname kernel : Text) (arch : Arch) (test : Text) : List (Piece K) :=
  [.str hostname, lit " ", .str kernel, lit " (", .str arch.text, lit "), ", .str test,
    lit "\n\n"]

/-- The part of the `TEST_END` handler that writes the report. -/
def writeReport (ctx : Context K) (line : ℕ) : Step K := fun s =>
  if ctx.opts.extractResults then
    match s.arch with
    | none => .fault .archUninitialised s
    | some arch =>
      let name := reportName s.hostname s.kernel s.test arch
      if ctx.env.fopen line then
        analyseTo ctx line (some name) (reportHeading s.hostname s.kernel arch s.test) s
      else .next (s.emit (.stderr [lit "Cannot create ", .str name, lit "\n"]))
  else analyseTo ctx line none [] s

/-- The `TEST_END` handler. -/
def testEnd (ctx : Context K) (line : ℕ) : Step K := fun s =>
  (writeReport ctx line { s with testBegin := false }).bind fun s =>
    (dataFree s).bind fun s => .next { s with hostname := [], kernel := [], test := [], index := -1 }

/-- The format `"%lf"` of a sample. -/
def valueFormat : List (Directive ℚ) := [.double fun v _ => v]

/-- The value of a sample: `p->y` is 0 after `calloc` and stays so without a number. -/
def sampleValue (text : Text) : ℚ := sscanf valueFormat text 0

/-- Store a point in a slot: the minima and maxima, then the list. -/
def Slot.store (slot : Slot K) (p : Point K) : Slot K :=
  { slot with
    xMin := if p.x < slot.xMin then p.x else slot.xMin
    xMax := if slot.xMax < p.x then p.x else slot.xMax
    yMin := if p.y < slot.yMin then p.y else slot.yMin
    yMax := if slot.yMax < p.y then p.y else slot.yMax }.dataAppendPoint p

/-- The part of the `SAMPLE` handler that stores a point in the open run. -/
def storePoint (ctx : Context K) (p : Point K) : Step K := fun s =>
  if ctx.env.calloc p.line then
    match slotAt s.index with
    | none => .fault .slotIndex s
    | some i =>
      match s.data i with
      | none => .fault .staleSlot s
      | some slot => .next { s with data := Function.update s.data i (some (slot.store p)) }
  else .stop (s.emit (.stderr [lit "Out of memory allocating a data point\n"]))

/-- The `SAMPLE` handler; `text` is the text at `buffer + 34`. -/
def sample (ctx : Context K) (line : ℕ) (sec : K) (text : Text) : Step K := fun s =>
  (if ctx.opts.statsAllSamples && !s.testRunBegin then testRunBegin line s else .next s).bind
    fun s =>
      if s.testRunBegin then storePoint ctx ⟨sec, sampleValue text * ctx.scaleBy, line⟩ s
      else .next s

/-- `"TAG:"`. -/
def tagKeyword : Text := "TAG:".toList

/-- `"SAMPLE:"`. -/
def sampleKeyword : Text := "SAMPLE:".toList

/-- `"TEST_CLIENT"`. -/
def testClientKeyword : Text := "TEST_CLIENT".toList

/-- `"TEST_BEGIN"`. -/
def testBeginKeyword : Text := "TEST_BEGIN".toList

/-- `"TEST_END"`. -/
def testEndKeyword : Text := "TEST_END".toList

/-- `"TEST_RUN_BEGIN"`. -/
def testRunBeginKeyword : Text := "TEST_RUN_BEGIN".toList

/-- `"TEST_RUN_END"`. -/
def testRunEndKeyword : Text := "TEST_RUN_END".toList

/-- The tag handlers of a line in their order; `ptr` is `buffer + 32`. -/
def tagHandlers (ctx : Context K) (line : ℕ) (b : Buffer) : Step K := fun s =>
  (match b.strstr 32 testClientKeyword with
    | some p => testClient ctx line (b.str (p + 12)) s
    | none => .next s).bind fun s =>
  (if (b.strstr 32 testBeginKeyword).isSome then testBegin ctx (b.str 43) s else .next s).bind
    fun s =>
  (if (b.strstr 32 testEndKeyword).isSome then testEnd ctx line s else .next s).bind fun s =>
  (if (b.strstr 32 testRunBeginKeyword).isSome then testRunBegin line s else .next s).bind
    fun s =>
  if (b.strstr 32 testRunEndKeyword).isSome then testRunEnd s else .next s

/-- The body of the read loop on the buffer that `fgets` filled for the given line. -/
def handleLine (ctx : Context K) (raw : Buffer) (line : ℕ) : Step K := fun s =>
  match raw.strip with
  | none => .fault .stripIndex s
  | some b =>
    let sec : K := (parseTimestamp ctx.env.utcOffset (ctx.env.tm line) (b.str 0) : ℚ)
    let s := s.originate sec
    let sec := sec - s.startSecs
    (if (b.strstr 27 tagKeyword).isSome then tagHandlers ctx line b s else .next s).bind fun s =>
    if (b.strstr 27 sampleKeyword).isSome then sample ctx line sec (b.str 34) s else .next s

/-- The read loop over the buffers of successive lines, numbered from zero. -/
def readLoop (ctx : Context K) (lines : List Buffer) : Step K :=
  forEach (fun (raw, line) => handleLine ctx raw line) lines.zipIdx

/-- What `data_parse` does after the read loop: under `-a`, an open run is reported. -/
def finish (ctx : Context K) (line : ℕ) : Step K := fun s =>
  if ctx.opts.statsAllSamples && s.testRunBegin then
    (testRunEnd s).bind (analyseTo ctx line none [])
  else .next s

/-- `data_parse` on the lines it reads. The end of the file and a failed allocation both
lead out of the loop. -/
def parseLines (ctx : Context K) (lines : List Buffer) : Outcome Fault (State K) :=
  match readLoop ctx lines .initial with
  | .next s => finish ctx lines.length s
  | .stop s => finish ctx lines.length s
  | .fault e s => .fault e s

/-- `data_parse` on the content of a file that could be opened; `junk` is what the line
buffer held before. -/
def dataParse (ctx : Context K) (junk : Buffer) (file : Text) : Outcome Fault (State K) :=
  parseLines ctx (frames junk (chunks file))

end

end FlukeTesting.Statstool
