import FlukeTesting.Statstool.Parse

/-!
# The read loop as a sequence of events

What a line makes the parser do depends on the text of the line alone: the time stamp is
taken, and then some of the handlers run in a fixed order. Listing these events for every
line turns the read loop into one loop over events, so that a property of the parser is a
property that every single event preserves.
-/

namespace FlukeTesting.Statstool

open Imperative

/-- One thing that a line makes the parser do, with the text it reads for it. -/
inductive Event (K : Type*)
  | unstrippable
  | time (sec : K)
  | testClient (arg : Text)
  | testBegin (arg : Text)
  | testEnd
  | testRunBegin
  | testRunEnd
  | sample (sec : K) (text : Text)

/-- A handler of `data_parse` with the text that it reads. -/
inductive Handler
  | testClient (arg : Text)
  | testBegin (arg : Text)
  | testEnd
  | testRunBegin
  | testRunEnd
  | sample (text : Text)
  deriving DecidableEq

/-- The tag handlers that a line triggers, in their order, when `str` gives the string at every
offset of the buffer. -/
def tagHandlersOf (str : ℕ → Text) : List Handler :=
  if (Search.find tagKeyword (str 27)).isSome then
    ((Search.find testClientKeyword (str 32)).elim [] fun k =>
      [.testClient (str (32 + k + 12))]) ++
    (if (Search.find testBeginKeyword (str 32)).isSome then [.testBegin (str 43)] else []) ++
    (if (Search.find testEndKeyword (str 32)).isSome then [.testEnd] else []) ++
    (if (Search.find testRunBeginKeyword (str 32)).isSome then [.testRunBegin] else []) ++
    (if (Search.find testRunEndKeyword (str 32)).isSome then [.testRunEnd] else [])
  else []

/-- All handlers that a line triggers, in their order. -/
def handlersOf (str : ℕ → Text) : List Handler :=
  tagHandlersOf str ++
    if (Search.find sampleKeyword (str 27)).isSome then [.sample (str 34)] else []

/-- All handlers that a stripped line triggers, in their order. -/
def Buffer.handlers (b : Buffer) : List Handler := handlersOf b.str

section

variable {K : Type*}

/-- The part of the state that the bookkeeping of runs and samples never touches: the client,
the test and the time origin. -/
def State.identity (s : State K) : Text × Text × Text × Option Arch × K :=
  (s.hostname, s.kernel, s.test, s.arch, s.startSecs)

/-- Printing the text of a tag touches neither the client, the test nor the time origin. -/
theorem announce_identity (ctx : Context K) (tagged plain : String) (arg : Text) (s : State K) :
    (announce ctx tagged plain arg s).identity = s.identity := by
  unfold announce
  split <;> rfl

/-- Storing a point touches neither the client, the test nor the time origin. -/
theorem storePoint_identity [LinearOrder K] (ctx : Context K) (p : Point K) (s : State K) :
    (storePoint ctx p s).Ends fun t => t.identity = s.identity := by
  unfold storePoint Outcome.Ends
  split
  · split
    · rfl
    · split <;> rfl
  · rfl

variable [Field K]

/-- The event of a handler on a line with the given time stamp. -/
def Handler.event (sec : K) : Handler → Event K
  | .testClient arg => .testClient arg
  | .testBegin arg => .testBegin arg
  | .testEnd => .testEnd
  | .testRunBegin => .testRunBegin
  | .testRunEnd => .testRunEnd
  | .sample text => .sample sec text

/-- The time stamp of a stripped line. -/
def stamp (ctx : Context K) (line : ℕ) (b : Buffer) : K :=
  (parseTimestamp ctx.env.utcOffset (ctx.env.tm line) (b.str 0) : ℚ)

/-- The events of one line, each with the number of the line. -/
def lineEvents (ctx : Context K) (raw : Buffer) (line : ℕ) : List (Event K × ℕ) :=
  match raw.strip with
  | none => [(.unstrippable, line)]
  | some b => (.time (stamp ctx line b) :: b.handlers.map (Handler.event (stamp ctx line b))).map
      (·, line)

/-- The events of a log. -/
def logEvents (ctx : Context K) (lines : List Buffer) : List (Event K × ℕ) :=
  lines.zipIdx.flatMap fun (raw, line) => lineEvents ctx raw line

/-- Opening a run touches neither the client, the test nor the time origin. -/
theorem testRunBegin_identity (line : ℕ) (s : State K) :
    (testRunBegin line s).Ends fun t => t.identity = s.identity := by
  unfold testRunBegin Outcome.Ends
  dsimp only
  split
  · rfl
  · split <;> rfl

/-- Reporting never touches the time origin. -/
theorem analyseTo_origin (ctx : Context K) (line : ℕ) (file : Option Text)
    (heading : List (Piece K)) (s : State K) :
    (analyseTo ctx line file heading s).Ends fun t => t.startSecs = s.startSecs := by
  unfold analyseTo Outcome.Ends
  split <;> rfl

/-- Ending a test never touches the time origin. -/
theorem testEnd_origin (ctx : Context K) (line : ℕ) (s : State K) :
    (testEnd ctx line s).Ends fun t => t.startSecs = s.startSecs := by
  refine Outcome.Ends.bind ?_ fun t ht => Outcome.Ends.bind ?_ fun u hu => hu
  · unfold writeReport
    split
    · split
      · rfl
      · dsimp only
        split
        · exact analyseTo_origin ctx line _ _ _
        · rfl
    · exact analyseTo_origin ctx line _ _ _
  · unfold dataFree Outcome.Ends
    split <;> exact ht

variable [LinearOrder K]

/-- What one event does. -/
def Event.exec (ctx : Context K) : Event K × ℕ → Step K
  | (.unstrippable, _) => .fault .stripIndex
  | (.time sec, _) => fun s => .next (s.originate sec)
  | (.testClient arg, line) => Statstool.testClient ctx line arg
  | (.testBegin arg, _) => Statstool.testBegin ctx arg
  | (.testEnd, line) => Statstool.testEnd ctx line
  | (.testRunBegin, line) => Statstool.testRunBegin line
  | (.testRunEnd, _) => Statstool.testRunEnd
  | (.sample sec text, line) => fun s => Statstool.sample ctx line (sec - s.startSecs) text s

/-- Taking a sample touches neither the client, the test nor the time origin. -/
theorem sample_identity (ctx : Context K) (line : ℕ) (sec : K) (text : Text) (s : State K) :
    (sample ctx line sec text s).Ends fun t => t.identity = s.identity := by
  refine Outcome.Ends.bind ?_ fun t ht => ?_
  · split
    · exact testRunBegin_identity line s
    · rfl
  · split
    · exact Eq.trans (storePoint_identity ctx _ t) ht
    · exact ht

/-- No handler touches the time origin. -/
theorem Handler.exec_origin (ctx : Context K) (line : ℕ) (sec : K) (h : Handler) (s : State K) :
    (Event.exec ctx (h.event sec, line) s).Ends fun t => t.startSecs = s.startSecs := by
  cases h with
  | testClient arg =>
    change (Statstool.testClient ctx line arg s).Ends _
    unfold Statstool.testClient Outcome.Ends
    dsimp only
    split <;> exact congrArg (·.2.2.2.2) (announce_identity ctx _ _ arg s)
  | testBegin arg =>
    change (Statstool.testBegin ctx arg s).Ends _
    unfold Statstool.testBegin Outcome.Ends
    dsimp only
    split <;> exact congrArg (·.2.2.2.2) (announce_identity ctx _ _ arg s)
  | testEnd => exact testEnd_origin ctx line s
  | testRunBegin => exact congrArg (·.2.2.2.2) (testRunBegin_identity line s)
  | testRunEnd => rfl
  | sample text => exact congrArg (·.2.2.2.2) (sample_identity ctx line _ text s)

/-- The tag handlers of a line are the events of its tag handlers. -/
theorem tagHandlers_eq_events (ctx : Context K) (line : ℕ) (b : Buffer) (sec : K)
    (htag : (b.strstr 27 tagKeyword).isSome) :
    tagHandlers ctx line b =
      forEach (fun h => Event.exec ctx (h.event sec, line)) (tagHandlersOf b.str) := by
  funext s
  rw [Buffer.strstr, Option.isSome_map] at htag
  simp only [tagHandlersOf, htag, if_true, forEach_append, forEach_ite, tagHandlers,
    Outcome.bind_assoc, Buffer.strstr, Option.isSome_map]
  congr 1
  cases Search.find testClientKeyword (b.str 32) <;> simp [Handler.event, Event.exec]

/-- The handlers of a stripped line run on its events. The sample is taken at the time that
the line computed before its tags, because no tag handler moves the time origin. -/
theorem handlers_eq_events (ctx : Context K) (line : ℕ) (b : Buffer) (sec : K) (s : State K) :
    ((if (b.strstr 27 tagKeyword).isSome then tagHandlers ctx line b s else .next s).bind fun t =>
      if (b.strstr 27 sampleKeyword).isSome then
        sample ctx line (sec - s.startSecs) (b.str 34) t
      else .next t) =
      forEach (fun h => Event.exec ctx (h.event sec, line)) b.handlers s := by
  have htags : (if (b.strstr 27 tagKeyword).isSome then tagHandlers ctx line b s else .next s) =
      forEach (fun h => Event.exec ctx (h.event sec, line)) (tagHandlersOf b.str) s := by
    by_cases htag : (b.strstr 27 tagKeyword).isSome
    · rw [if_pos htag, tagHandlers_eq_events ctx line b sec htag]
    · rw [if_neg htag]
      rw [Buffer.strstr, Option.isSome_map] at htag
      simp [htag, tagHandlersOf]
  have hsample : (b.strstr 27 sampleKeyword).isSome =
      (Search.find sampleKeyword (b.str 27)).isSome := by rw [Buffer.strstr, Option.isSome_map]
  rw [htags, hsample, Buffer.handlers, handlersOf, forEach_append, forEach_ite]
  apply Outcome.bind_congr
  intro t ht
  have horigin : (forEach (fun h => Event.exec ctx (Handler.event sec h, line))
      (tagHandlersOf b.str) s).Ends fun u => u.startSecs = s.startSecs :=
    forEach_ends rfl fun h _ u hu => Eq.trans (h.exec_origin ctx line sec u) hu
  rw [ht] at horigin
  have hstart : t.startSecs = s.startSecs := horigin
  simp only [Handler.event, Event.exec, hstart]

/-- One pass of the read loop is the sequence of the events of its line. -/
theorem handleLine_eq_events (ctx : Context K) (raw : Buffer) (line : ℕ) :
    handleLine ctx raw line = forEach (Event.exec ctx) (lineEvents ctx raw line) := by
  funext s
  unfold handleLine lineEvents
  cases raw.strip with
  | none => rfl
  | some b =>
    simp only [List.map_cons, List.map_map, forEach_cons, forEach_map, Event.exec,
      Outcome.next_bind]
    exact handlers_eq_events ctx line b (stamp ctx line b) _

/-- The read loop is the sequence of the events of the log. -/
theorem readLoop_eq_events (ctx : Context K) (lines : List Buffer) (s : State K) :
    readLoop ctx lines s = forEach (Event.exec ctx) (logEvents ctx lines) s := by
  simp only [readLoop, logEvents, handleLine_eq_events]
  exact forEach_flatMap (Event.exec ctx) (fun p : Buffer × ℕ => lineEvents ctx p.1 p.2) _ s

end

end FlukeTesting.Statstool
