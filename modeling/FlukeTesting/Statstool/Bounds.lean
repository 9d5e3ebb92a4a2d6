import FlukeTesting.Statstool.Log

/-!
# Writes to the buffers of the parser

The parser writes to its line buffer when it takes the last character off a line, and to its string
buffers when `sscanf` copies a word. The first write is in front of the buffer when a line starts
with a NUL. The others have no bound at all: the words of a tag are copied whatever their length. So
the writes are in bounds exactly when no line that the loop gets to starts with a NUL or has too
long a word among the first ones behind a `TEST_CLIENT` or `TEST_BEGIN`.
-/

namespace FlukeTesting.Statstool

open Imperative Scanf Words

/-- The first words of a text fit, with their terminators, into destinations of these sizes. -/
def WordsFit (sizes : List ℕ) (arg : Text) : Prop :=
  ∀ p ∈ (words isSpace arg).zip sizes, p.1.length < p.2

instance (sizes : List ℕ) (arg : Text) : Decidable (WordsFit sizes arg) :=
  inferInstanceAs (Decidable (∀ p ∈ _, _))

/-- The words behind a tag are short enough. -/
def Handler.Short : Handler → Prop
  | .testClient arg => WordsFit [nameSize, nameSize, machineSize] arg
  | .testBegin arg => WordsFit [nameSize] arg
  | _ => True

/-- The words that a handler copies, each with the size of its destination. -/
def Handler.copies : Handler → List (Text × ℕ)
  | .testClient arg =>
    [((clientWords arg [] []).hostname, nameSize), ((clientWords arg [] []).kernel, nameSize),
      ((clientWords arg [] []).machine.getD [], machineSize)]
  | .testBegin arg => [(testWord arg [], nameSize)]
  | _ => []

/-- The buffer of a line that makes the parser write inside its buffers. -/
structure Buffer.Harmless (raw : Buffer) : Prop where
  head : raw.bytes.head? ≠ some NUL
  short : ∀ b, raw.strip = some b → ∀ h ∈ b.handlers, h.Short

/-! ## The words that `sscanf` copies -/

/-- What the `TEST_CLIENT` handler reads are the first three words behind the tag. -/
theorem clientWords_eq (arg hostname kernel : Text) :
    clientWords arg hostname kernel =
      ⟨(words isSpace arg)[0]?.getD hostname, (words isSpace arg)[1]?.getD kernel,
        (words isSpace arg)[2]?⟩ := by
  simp only [clientWords, clientFormat, sscanf]
  cases hfirst : scanWord arg with
  | none => simp [words_of_scanWord_none hfirst]
  | some first =>
    rw [words_of_scanWord_some hfirst, ← words_dropWhile]
    cases hsecond : scanWord (first.2.dropWhile isSpace) with
    | none => simp [hsecond, words_of_scanWord_none hsecond]
    | some second =>
      rw [words_of_scanWord_some hsecond, ← words_dropWhile]
      cases hthird : scanWord (second.2.dropWhile isSpace) with
      | none => simp [hsecond, hthird, words_of_scanWord_none hthird]
      | some third => simp [hsecond, hthird, words_of_scanWord_some hthird]

/-- What the `TEST_BEGIN` handler reads is the first word behind the tag. -/
theorem testWord_eq (arg test : Text) : testWord arg test = (words isSpace arg)[0]?.getD test := by
  simp only [testWord, testFormat, sscanf]
  cases hfirst : scanWord arg with
  | none => simp [words_of_scanWord_none hfirst]
  | some first => simp [words_of_scanWord_some hfirst]

/-- The handlers copy words that fit exactly if the words behind the tag are short enough. -/
theorem Handler.short_iff (h : Handler) : h.Short ↔ ∀ c ∈ h.copies, c.1.length < c.2 := by
  cases h with
  | testClient arg =>
    simp only [Short, WordsFit, copies, clientWords_eq]
    rcases words isSpace arg with _ | ⟨first, _ | ⟨second, _ | ⟨third, rest⟩⟩⟩
    · decide
    · simp [nameSize, machineSize]
    · simp [nameSize, machineSize]
    · simp [nameSize, machineSize]
  | testBegin arg =>
    simp only [Short, WordsFit, copies, testWord_eq]
    rcases words isSpace arg with _ | ⟨first, rest⟩
    · decide
    · simp [nameSize]
  | testEnd | testRunBegin | testRunEnd | sample =>
    simp [Short, copies]

/-- Short words and the names from before fit the buffers of the `TEST_CLIENT` handler. -/
theorem WordsFit.client {arg hostname kernel : Text}
    (h : WordsFit [nameSize, nameSize, machineSize] arg) (hhostname : hostname.length < nameSize)
    (hkernel : kernel.length < nameSize) : (clientWords arg hostname kernel).Fits := by
  rw [clientWords_eq]
  unfold WordsFit at h
  have hnone : ([] : Text).length < machineSize := by decide
  generalize words isSpace arg = ws at h ⊢
  rcases ws with _ | ⟨first, _ | ⟨second, _ | ⟨third, rest⟩⟩⟩
  · exact ⟨hhostname, hkernel, hnone⟩
  · have hfits : first.length < nameSize := by simpa using h
    exact ⟨hfits, hkernel, hnone⟩
  · have hfits : first.length < nameSize ∧ second.length < nameSize := by simpa using h
    exact ⟨hfits.1, hfits.2, hnone⟩
  · have hfits : first.length < nameSize ∧ second.length < nameSize ∧
        third.length < machineSize := by simpa using h
    exact hfits

/-- A short word and the name from before fit the buffer of the `TEST_BEGIN` handler. -/
theorem WordsFit.test {arg test : Text} (h : WordsFit [nameSize] arg)
    (htest : test.length < nameSize) : (testWord arg test).length < nameSize := by
  rw [testWord_eq]
  unfold WordsFit at h
  generalize words isSpace arg = ws at h ⊢
  rcases ws with _ | ⟨first, rest⟩
  · exact htest
  · have hfits : first.length < nameSize := by simpa using h
    exact hfits

/-! ## What a line can overflow -/

/-- A fault that is not a write outside a buffer. -/
def Fault.Spares (f : Fault) : Prop := f ≠ .stripIndex ∧ f ≠ .stringOverflow

section

variable {K : Type*}

/-- The names in a state fit into their buffers. -/
structure NamesFit (s : State K) : Prop where
  hostname : s.hostname.length < nameSize
  kernel : s.kernel.length < nameSize
  test : s.test.length < nameSize

/-- The names fit as long as they stay. -/
theorem NamesFit.of_identity {s t : State K} (hs : NamesFit s) (h : t.identity = s.identity) :
    NamesFit t := by
  simp only [State.identity, Prod.mk.injEq] at h
  exact ⟨h.1 ▸ hs.hostname, h.2.1 ▸ hs.kernel, h.2.2.1 ▸ hs.test⟩

/-- Printing the text of a tag keeps the names. -/
theorem NamesFit.announce {s : State K} (hs : NamesFit s) (ctx : Context K) (tagged plain : String)
    (arg : Text) : NamesFit (Statstool.announce ctx tagged plain arg s) :=
  hs.of_identity (announce_identity ctx tagged plain arg s)

/-- Storing a point keeps the names. -/
theorem NamesFit.storePoint [LinearOrder K] {s : State K} (hs : NamesFit s) (ctx : Context K)
    (p : Point K) :
    (Statstool.storePoint ctx p s).Yields NamesFit Fault.Spares := by
  unfold Statstool.storePoint
  split
  · split
    · exact ⟨by decide, by decide⟩
    · split
      · exact ⟨by decide, by decide⟩
      · exact ⟨hs.hostname, hs.kernel, hs.test⟩
  · trivial

variable [Field K]

/-- Reporting keeps the names. -/
theorem NamesFit.analyseTo {s : State K} (hs : NamesFit s) (ctx : Context K) (line : ℕ)
    (file : Option Text) (heading : List (Piece K)) :
    (Statstool.analyseTo ctx line file heading s).Yields NamesFit Fault.Spares := by
  unfold Statstool.analyseTo
  split
  · exact ⟨by decide, by decide⟩
  · exact ⟨hs.hostname, hs.kernel, hs.test⟩

/-- Ending a test clears the names. -/
theorem NamesFit.testEnd {s : State K} (hs : NamesFit s) (ctx : Context K) (line : ℕ) :
    (Statstool.testEnd ctx line s).Yields NamesFit Fault.Spares := by
  have hclosed : NamesFit { s with testBegin := false } := ⟨hs.hostname, hs.kernel, hs.test⟩
  apply Outcome.Yields.bind (P := NamesFit)
  · unfold writeReport
    split
    · split
      · exact ⟨by decide, by decide⟩
      · dsimp only
        split
        · exact hclosed.analyseTo ctx line _ _
        · exact ⟨hs.hostname, hs.kernel, hs.test⟩
    · exact hclosed.analyseTo ctx line _ _
  · intro t ht
    apply Outcome.Yields.bind (P := fun _ => True)
    · unfold dataFree
      split
      · exact ⟨by decide, by decide⟩
      · trivial
    · intro u _
      exact ⟨by simp [nameSize], by simp [nameSize], by simp [nameSize]⟩

/-- Opening a run keeps the names. -/
theorem NamesFit.testRunBegin {s : State K} (hs : NamesFit s) (line : ℕ) :
    (Statstool.testRunBegin line s).Yields NamesFit Fault.Spares := by
  unfold Statstool.testRunBegin
  dsimp only
  split
  · exact ⟨hs.hostname, hs.kernel, hs.test⟩
  · split
    · exact ⟨by decide, by decide⟩
    · exact ⟨hs.hostname, hs.kernel, hs.test⟩

/-- Reporting an open run at the end of the log writes to no buffer. -/
theorem finish_yields (ctx : Context K) (line : ℕ) (s : State K) :
    (finish ctx line s).Yields (fun _ => True) Fault.Spares := by
  unfold finish testRunEnd
  split
  · rw [Outcome.next_bind, Statstool.analyseTo]
    split
    · exact ⟨by decide, by decide⟩
    · trivial
  · trivial

variable [LinearOrder K]

/-- A handler whose words are short enough writes inside the buffers. -/
theorem Handler.Short.exec {h : Handler} (hshort : h.Short) (ctx : Context K) (sec : K) (line : ℕ)
    {s : State K} (hs : NamesFit s) :
    (Event.exec ctx (h.event sec, line) s).Yields NamesFit Fault.Spares := by
  cases h with
  | testClient arg =>
    have hnames := hs.announce ctx "info:client:" "Client: " arg
    have hfits := WordsFit.client hshort hnames.hostname hnames.kernel
    change (Statstool.testClient ctx line arg s).Yields NamesFit Fault.Spares
    rw [Statstool.testClient, if_pos hfits]
    exact ⟨hfits.1, hfits.2.1, hnames.test⟩
  | testBegin arg =>
    have hnames := hs.announce ctx "info:test-name:" "Test:   " arg
    have hfits := WordsFit.test hshort hnames.test
    change (Statstool.testBegin ctx arg s).Yields NamesFit Fault.Spares
    rw [Statstool.testBegin, if_pos hfits]
    exact ⟨hnames.hostname, hnames.kernel, hfits⟩
  | testEnd => exact hs.testEnd ctx line
  | testRunBegin => exact hs.testRunBegin line
  | testRunEnd => exact ⟨hs.hostname, hs.kernel, hs.test⟩
  | sample text =>
    apply Outcome.Yields.bind (P := NamesFit)
    · split
      · exact hs.testRunBegin line
      · exact hs
    · intro t ht
      split
      · exact ht.storePoint ctx _
      · exact ht

/-- The loop starts its pass over a line with this state. -/
def Iterates (ctx : Context K) (junk : Buffer) (file : Text) (raw : Buffer) (line : ℕ)
    (s : State K) : Prop :=
  ComesTo (fun p : Buffer × ℕ => handleLine ctx p.1 p.2) (frames junk (chunks file)).zipIdx .initial
    (raw, line) s

/-- All writes to the buffers are in bounds: in every pass of the loop, the index at which the line
is stripped, and every word that is copied. A parser that checks them finds nothing. -/
structure InBounds (ctx : Context K) (junk : Buffer) (file : Text) : Prop where
  strip : ∀ raw line s, Iterates ctx junk file raw line s →
    0 ≤ (raw.strlen : ℤ) - 1 ∧ (raw.strlen : ℤ) - 1 ≤ 4095
  words : ∀ raw line s, Iterates ctx junk file raw line s →
    ∀ b, raw.strip = some b → ∀ h ∈ b.handlers, ∀ c ∈ h.copies, c.1.length < c.2
  unreachable : ∀ f, (dataParse ctx junk file).fault? = some f → f.Spares

/-- Every line that the loop gets to is harmless. -/
def LinesHarmless (ctx : Context K) (junk : Buffer) (file : Text) : Prop :=
  ∀ raw line s, Iterates ctx junk file raw line s → raw.Harmless

/-- A string is empty if and only if it starts with a NUL. -/
theorem Buffer.strlen_eq_zero_iff (raw : Buffer) : raw.strlen = 0 ↔ raw.bytes.head? = some NUL := by
  have hsize := raw.size
  cases hbytes : raw.bytes with
  | nil => simp [hbytes, bufferSize] at hsize
  | cons c rest =>
    by_cases hc : c = NUL
    · simp [Buffer.strlen, Buffer.str, hbytes, hc]
    · simp [Buffer.strlen, Buffer.str, hbytes, hc]

/-- A string is no longer than its buffer. -/
theorem Buffer.strlen_le (raw : Buffer) : raw.strlen ≤ bufferSize := by
  rw [← raw.size, Buffer.strlen, Buffer.str, List.drop_zero]
  exact (List.takeWhile_sublist _).length_le

/-- A harmless line keeps the names and writes inside the buffers. -/
theorem Buffer.Harmless.handleLine {raw : Buffer} (h : raw.Harmless) (ctx : Context K) (line : ℕ)
    {s : State K} (hs : NamesFit s) :
    (Statstool.handleLine ctx raw line s).Yields NamesFit Fault.Spares := by
  have hstrip : raw.strlen ≠ 0 := fun hzero => h.head (raw.strlen_eq_zero_iff.mp hzero)
  rw [handleLine_eq_events]
  unfold lineEvents
  cases hb : raw.strip with
  | none => simp [Buffer.strip, hstrip] at hb
  | some b =>
    apply forEach_yields hs
    intro e he t ht
    obtain ⟨event, hevent, rfl⟩ := List.mem_map.mp he
    rcases List.mem_cons.mp hevent with rfl | hhandler
    · change NamesFit (t.originate _)
      unfold State.originate
      split
      · exact ⟨ht.hostname, ht.kernel, ht.test⟩
      · exact ht
    · obtain ⟨handler, hmem, rfl⟩ := List.mem_map.mp hhandler
      exact (h.short b hb handler hmem).exec ctx _ line ht

/-- If all lines are harmless, the names fit whenever the loop starts a pass, and the loop writes
inside the buffers. -/
theorem LinesHarmless.readLoop {ctx : Context K} {junk : Buffer} {file : Text}
    (h : LinesHarmless ctx junk file) :
    (Statstool.readLoop ctx (frames junk (chunks file)) .initial).Yields NamesFit Fault.Spares := by
  have hinitial : NamesFit (State.initial : State K) :=
    ⟨by simp [State.initial, nameSize], by simp [State.initial, nameSize],
      by simp [State.initial, nameSize]⟩
  have hnames (s : State K) (hs : Reaches (fun p : Buffer × ℕ => handleLine ctx p.1 p.2)
      (frames junk (chunks file)).zipIdx .initial s) : NamesFit s := by
    refine Reaches.induction hinitial (fun p t u hiter hu ht => ?_) hs
    have hstep := (h p.1 p.2 t hiter).handleLine ctx p.2 ht
    rw [hu] at hstep
    exact hstep
  rcases forEach_exit (fun p : Buffer × ℕ => handleLine ctx p.1 p.2)
    (frames junk (chunks file)).zipIdx State.initial with ⟨t, ht, hreach⟩ | ⟨p, t, hiter, hlast, -⟩
  · change (forEach (fun p : Buffer × ℕ => handleLine ctx p.1 p.2) _ _).Yields _ _
    rw [ht]
    exact hnames t hreach
  · change (forEach (fun p : Buffer × ℕ => handleLine ctx p.1 p.2) _ _).Yields _ _
    rw [← hlast]
    exact (h p.1 p.2 t hiter).handleLine ctx p.2 (hnames t hiter.reaches)

/-- The parser writes inside its buffers if and only if every line that its loop gets to is
harmless. -/
theorem inBounds_iff (ctx : Context K) (junk : Buffer) (file : Text) :
    InBounds ctx junk file ↔ LinesHarmless ctx junk file := by
  constructor
  · intro h raw line s hiter
    refine ⟨fun hnul => ?_, fun b hb handler hmem => ?_⟩
    · have hstrip := (h.strip raw line s hiter).1
      rw [raw.strlen_eq_zero_iff.mpr hnul] at hstrip
      exact absurd hstrip (by decide)
    · exact handler.short_iff.mpr (h.words raw line s hiter b hb handler hmem)
  · intro h
    refine ⟨fun raw line s hiter => ?_, fun raw line s hiter b hb handler hmem => ?_,
      fun f hf => ?_⟩
    · have hpos : raw.strlen ≠ 0 := fun hzero =>
        (h raw line s hiter).head (raw.strlen_eq_zero_iff.mp hzero)
      have hle : raw.strlen ≤ 4096 := raw.strlen_le
      omega
    · exact handler.short_iff.mp ((h raw line s hiter).short b hb handler hmem)
    · have hloop := h.readLoop
      unfold dataParse parseLines at hf
      cases hread : readLoop ctx (frames junk (chunks file)) .initial with
      | next s =>
        rw [hread] at hf
        exact (finish_yields ctx _ s).fault hf
      | stop s =>
        rw [hread] at hf
        exact (finish_yields ctx _ s).fault hf
      | fault e s =>
        rw [hread] at hf hloop
        exact hloop.fault hf

/-- The loop gets to the first line. -/
theorem iterates_first (ctx : Context K) (junk : Buffer) {file : Text} {c : Chunk}
    {rest : List Chunk} (h : chunks file = c :: rest) :
    Iterates ctx junk file (junk.load c) 0 .initial := by
  obtain ⟨others, hframes⟩ : ∃ others, frames junk (c :: rest) = junk.load c :: others :=
    ⟨_, rfl⟩
  refine ⟨[], others.zipIdx 1, ?_, rfl⟩
  rw [h, hframes]
  rfl

/-- A file that starts with a NUL makes the parser write in front of its line buffer. -/
theorem not_inBounds_of_nul (ctx : Context K) (junk : Buffer) (rest : Text) :
    ¬ InBounds ctx junk (NUL :: rest) := by
  intro h
  have hhead : (fgets (NUL :: rest)).1.text.head? = some NUL := by
    change (splitLine (4094 + 1) (NUL :: rest)).1.head? = some NUL
    simp [splitLine, show NUL ≠ '\n' by decide]
  have hstrip := (h.strip _ _ _ (iterates_first ctx junk rfl)).1
  rw [(Buffer.strlen_eq_zero_iff _).mpr (by simp [Buffer.load, hhead])] at hstrip
  exact absurd hstrip (by decide)

/-- A log whose first line carries a tag with too long a word makes the parser write behind a
string buffer. -/
theorem not_inBounds_of_long (ctx : Context K) (junk : Buffer) {l : LogLine} (log : List LogLine)
    (hsize : 27 ≤ l.size) {h : Handler} (hmem : h ∈ handlersOf (textAt l.body))
    (hlong : ¬ h.Short) :
    ¬ InBounds ctx junk (logFile (l :: log)) := by
  intro hbounds
  obtain ⟨b, hb, -⟩ := l.strip_load junk
  have hhandlers := lineHandlers_of_size l hsize junk
  rw [lineHandlers, hb, Option.map_some, Option.getD_some] at hhandlers
  have hiter := iterates_first ctx junk ((chunks_logFile (l :: log)).trans List.map_cons)
  exact hlong (h.short_iff.mpr (hbounds.words _ _ _ hiter b hb h (hhandlers ▸ hmem)))

end

/-- A client whose machine name has 64 characters. -/
def longMachineLine : LogLine :=
  .ofText ("2011-12-02T01:03:41.720551 TAG: TEST_CLIENT host kernel ".toList ++
    List.replicate 64 'x')

/-- The machine name of a client can run over its buffer, and a NUL at the start of a line puts a
byte in front of the line buffer. -/
theorem longMachineLine_not_inBounds :
    ¬ InBounds (plainContext {}) zeroBuffer (logFile [longMachineLine]) ∧
      ¬ InBounds (plainContext {}) zeroBuffer [NUL, '\n'] := by
  refine ⟨?_, not_inBounds_of_nul _ _ _⟩
  have hmem : Handler.testClient ("host kernel ".toList ++ List.replicate 64 'x') ∈
      handlersOf (textAt longMachineLine.body) := by decide +kernel
  have hlong : ¬ WordsFit [nameSize, nameSize, machineSize]
      ("host kernel ".toList ++ List.replicate 64 'x') := by decide +kernel
  exact not_inBounds_of_long _ _ [] (by decide +kernel) hmem hlong

end FlukeTesting.Statstool
