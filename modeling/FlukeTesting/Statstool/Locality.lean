import FlukeTesting.Statstool.Events

/-!
# What a line can see of the lines before it

A line of `n` characters overwrites the front of the buffer and leaves two NULs behind its
text, one from stripping the newline and one from `fgets`. The parser looks for keywords from
offset 27 on. So a line of at least 27 bytes is parsed from its own text alone, while a
shorter one is parsed from whatever an earlier line left behind it.
-/

namespace FlukeTesting.Statstool

open Imperative

/-- A line of the log without its newline: no NUL, no newline, and it fits the buffer. -/
structure LogLine where
  body : Text
  noNul : NUL ∉ body
  noNewline : '\n' ∉ body
  fits : body.length + 1 < bufferSize

/-- The number of bytes of the line with its newline. -/
def LogLine.size (l : LogLine) : ℕ := l.body.length + 1

/-- What `fgets` reads for the line. -/
def LogLine.chunk (l : LogLine) : Chunk := ⟨l.body ++ ['\n'], by simpa using l.fits⟩

namespace Buffer

/-- A string in front of a NUL ends there. -/
theorem takeWhile_append_nul {body : Text} (h : NUL ∉ body) (rest : Text) :
    (body ++ NUL :: rest).takeWhile (fun c => c != NUL) = body := by
  have hall : ∀ c ∈ body, (c != NUL) = true := fun c hc => by
    rw [bne_iff_ne]
    exact fun heq => h (heq ▸ hc)
  rw [List.takeWhile_append_of_pos hall]
  simp

/-- The buffer after a chunk is loaded and its last character stripped: the rest of the chunk,
two NULs, and what was there before. -/
theorem strip_load (old : Buffer) (c : Chunk) (body : Text) (last : Char)
    (hc : c.text = body ++ [last]) (hbody : NUL ∉ body) (hlast : last ≠ NUL) :
    ∃ b, (old.load c).strip = some b ∧
      b.bytes = body ++ NUL :: NUL :: old.bytes.drop (body.length + 2) := by
  have hbytes : (old.load c).bytes =
      (body ++ [last]) ++ NUL :: old.bytes.drop (body.length + 2) := by
    simp [load, hc]
  have hnul : NUL ∉ body ++ [last] := by
    simp [hbody, hlast.symm]
  have hlen : (old.load c).strlen = body.length + 1 := by
    rw [strlen, str, hbytes, List.drop_zero, takeWhile_append_nul hnul]
    simp
  refine ⟨(old.load c).put body.length NUL, ?_, ?_⟩
  · rw [strip, hlen, if_neg (Nat.succ_ne_zero _), Nat.add_sub_cancel]
  · change (old.load c).bytes.set body.length NUL = _
    rw [hbytes]
    simp

/-- Inside a stripped line the strings are the ends of its text. -/
theorem str_of_bytes {b : Buffer} {body rest : Text} (hbytes : b.bytes = body ++ NUL :: NUL :: rest)
    (hbody : NUL ∉ body) {offset : ℕ} (h : offset ≤ body.length + 1) :
    b.str offset = body.drop offset := by
  rw [str, hbytes]
  rcases Nat.lt_or_ge body.length offset with hlt | hle
  · have heq : offset = body.length + 1 := by omega
    rw [heq, List.drop_append, List.drop_eq_nil_of_le (by omega)]
    simp
  · rw [List.drop_append_of_le_length hle]
    exact takeWhile_append_nul (fun hmem => hbody (List.mem_of_mem_drop hmem)) _

/-- Behind a stripped line the strings are those that were there before. -/
theorem str_of_bytes_ge {b old : Buffer} {body : Text}
    (hbytes : b.bytes = body ++ NUL :: NUL :: old.bytes.drop (body.length + 2)) {offset : ℕ}
    (h : body.length + 2 ≤ offset) : b.str offset = old.str offset := by
  obtain ⟨k, rfl⟩ := Nat.exists_eq_add_of_le h
  rw [str, str, hbytes, List.drop_append, List.drop_eq_nil_of_le (by omega)]
  simp [show body.length + 2 + k - body.length = k + 2 by omega]

end Buffer

/-- The string at an offset of a text on its own. -/
def textAt (body : Text) (offset : ℕ) : Text := body.drop offset

/-- A keyword found at an offset of a text lies inside the text. -/
theorem find_textAt_le {keyword body : Text} {offset k : ℕ} (hne : keyword ≠ [])
    (h : Search.find keyword (textAt body offset) = some k) :
    offset + k + keyword.length ≤ body.length := by
  have hle := Search.find_le h
  have hpos := List.length_pos_of_ne_nil hne
  rw [textAt, List.length_drop] at hle
  omega

/-- The `TEST_CLIENT` handler reads inside the line or directly behind it. -/
theorem clientHandler_congr {str : ℕ → Text} {body : Text}
    (hstr : ∀ offset ≤ body.length + 1, str offset = textAt body offset) :
    ((Search.find testClientKeyword (textAt body 32)).elim [] fun k =>
        [Handler.testClient (str (32 + k + 12))]) =
      (Search.find testClientKeyword (textAt body 32)).elim [] fun k =>
        [Handler.testClient (textAt body (32 + k + 12))] := by
  cases hfind : Search.find testClientKeyword (textAt body 32) with
  | none => rfl
  | some k =>
    have hk := find_textAt_le (by decide) hfind
    have hlen : testClientKeyword.length = 11 := by decide
    rw [Option.elim_some, Option.elim_some, hstr (32 + k + 12) (by omega)]

/-- A handler that a keyword of the given length triggers reads inside the line or directly
behind it, if its own offset is at most one behind the earliest end of the keyword. -/
theorem keywordHandler_congr {str : ℕ → Text} {body keyword : Text} {offset read : ℕ}
    (hstr : ∀ offset ≤ body.length + 1, str offset = textAt body offset)
    (hne : keyword ≠ []) (hread : read ≤ offset + keyword.length + 1) (make : Text → Handler) :
    (if (Search.find keyword (textAt body offset)).isSome then [make (str read)] else []) =
      if (Search.find keyword (textAt body offset)).isSome then [make (textAt body read)]
      else [] := by
  cases hfind : Search.find keyword (textAt body offset) with
  | none => rfl
  | some k =>
    have hk := find_textAt_le hne hfind
    rw [hstr read (by omega)]

/-- Every text that the handlers read lies inside the line or directly behind it: keywords are
searched from offset 27, and a found keyword leaves the other offsets inside the line. -/
theorem handlersOf_congr {str : ℕ → Text} {body : Text} (hsize : 26 ≤ body.length)
    (hstr : ∀ offset ≤ body.length + 1, str offset = textAt body offset) :
    handlersOf str = handlersOf (textAt body) := by
  have h27 : str 27 = textAt body 27 := hstr 27 (by omega)
  have htags : tagHandlersOf str = tagHandlersOf (textAt body) := by
    unfold tagHandlersOf
    rw [h27]
    cases htag : Search.find tagKeyword (textAt body 27) with
    | none => rfl
    | some k =>
      have hk := find_textAt_le (by decide) htag
      have hlen : tagKeyword.length = 4 := by decide
      rw [hstr 32 (by omega), clientHandler_congr hstr,
        keywordHandler_congr hstr (by decide) (by decide) .testBegin]
  rw [handlersOf, handlersOf, htags, h27,
    keywordHandler_congr hstr (by decide) (by decide) .sample]

/-- The handlers that the loop runs for the buffer `fgets` filled; none if it cannot be
stripped. -/
def lineHandlers (raw : Buffer) : List Handler := (raw.strip.map Buffer.handlers).getD []

/-- A loaded line can be stripped, and the buffer then holds its text, two NULs and what was
there before. -/
theorem LogLine.strip_load (l : LogLine) (old : Buffer) :
    ∃ b, (old.load l.chunk).strip = some b ∧
      b.bytes = l.body ++ NUL :: NUL :: old.bytes.drop (l.body.length + 2) :=
  old.strip_load l.chunk l.body '\n' rfl l.noNul (by decide)

/-- A line of at least 27 bytes triggers the handlers of its own text. -/
theorem lineHandlers_of_size (l : LogLine) (h : 27 ≤ l.size) (old : Buffer) :
    lineHandlers (old.load l.chunk) = handlersOf (textAt l.body) := by
  obtain ⟨b, hstrip, hbytes⟩ := l.strip_load old
  have hsize : 26 ≤ l.body.length := by
    unfold LogLine.size at h
    omega
  rw [lineHandlers, hstrip, Option.map_some, Option.getD_some, Buffer.handlers]
  exact handlersOf_congr hsize fun _ hoffset => Buffer.str_of_bytes hbytes l.noNul hoffset

/-- The handlers look at no offset before 27. -/
theorem handlersOf_of_agree {str str' : ℕ → Text}
    (h : ∀ offset, 27 ≤ offset → str offset = str' offset) :
    handlersOf str = handlersOf str' := by
  unfold handlersOf tagHandlersOf
  rw [h 27 le_rfl, h 32 (by decide), h 34 (by decide), h 43 (by decide)]
  congr 8
  funext k
  rw [h (32 + k + 12) (by omega)]

/-- A shorter line triggers the handlers of whatever the buffer held before. -/
theorem lineHandlers_of_short (l : LogLine) (h : l.size < 27) (old : Buffer) :
    lineHandlers (old.load l.chunk) = old.handlers := by
  obtain ⟨b, hstrip, hbytes⟩ := l.strip_load old
  rw [lineHandlers, hstrip, Option.map_some, Option.getD_some, Buffer.handlers]
  unfold LogLine.size at h
  exact handlersOf_of_agree fun offset hoffset => Buffer.str_of_bytes_ge hbytes (by omega)

/-- A text without `TAG:` and `SAMPLE:` triggers nothing. -/
theorem handlersOf_eq_nil {body : Text} (htag : ¬ tagKeyword <:+: body)
    (hsample : ¬ sampleKeyword <:+: body) : handlersOf (textAt body) = [] := by
  have hnone {keyword : Text} (h : ¬ keyword <:+: body) :
      Search.find keyword (textAt body 27) = none := by
    rw [Search.find_eq_none_iff]
    exact fun hinside => h (hinside.trans (List.drop_suffix 27 body).isInfix)
  simp [handlersOf, tagHandlersOf, hnone htag, hnone hsample]

/-- Line locality: the handlers of a line and the texts they read do not depend on what the
buffer held, and a line with neither keyword touches no run. -/
def LogLine.Local (K : Type*) [Field K] [LinearOrder K] (l : LogLine) : Prop :=
  (∀ old old' : Buffer, lineHandlers (old.load l.chunk) = lineHandlers (old'.load l.chunk)) ∧
  (¬ tagKeyword <:+: l.body → ¬ sampleKeyword <:+: l.body →
    ∀ (ctx : Context K) (old : Buffer) (line : ℕ) (s : State K),
      (handleLine ctx (old.load l.chunk) line s).Ends fun t =>
        t.testRunBegin = s.testRunBegin ∧ t.index = s.index ∧ t.data = s.data)

/-- A line whose buffer triggers no handler touches no run. -/
theorem handleLine_of_noHandlers {K : Type*} [Field K] [LinearOrder K] (ctx : Context K)
    (raw : Buffer) (line : ℕ) (s : State K) (h : lineHandlers raw = []) :
    (handleLine ctx raw line s).Ends fun t =>
      t.testRunBegin = s.testRunBegin ∧ t.index = s.index ∧ t.data = s.data := by
  rw [handleLine_eq_events]
  unfold lineEvents
  cases hstrip : raw.strip with
  | none => exact ⟨rfl, rfl, rfl⟩
  | some b =>
    rw [lineHandlers, hstrip, Option.map_some, Option.getD_some] at h
    simp only [h, List.map_nil, List.map_cons, forEach_cons, forEach_nil, Event.exec,
      Outcome.next_bind]
    change (s.originate _).testRunBegin = _ ∧ (s.originate _).index = _ ∧
      (s.originate _).data = _
    unfold State.originate
    split <;> exact ⟨rfl, rfl, rfl⟩

/-- A buffer of NULs. -/
def zeroBuffer : Buffer := ⟨List.replicate bufferSize NUL, List.length_replicate⟩

/-- A sample line of the log. -/
def sampleLine : LogLine where
  body := "2011-12-02T01:03:41.720551 SAMPLE: 0.25".toList
  noNul := by decide
  noNewline := by decide
  fits := by decide

/-- A line without text. -/
def blankLine : LogLine where
  body := []
  noNul := by decide
  noNewline := by decide
  fits := by decide

/-- A sample line leaves a buffer that triggers the sample handler once more. -/
theorem exists_stale_sample : ∃ old : Buffer, old.handlers = [.sample " 0.25".toList] := by
  obtain ⟨b, hstrip, -⟩ := sampleLine.strip_load zeroBuffer
  have h := lineHandlers_of_size sampleLine (by decide) zeroBuffer
  rw [lineHandlers, hstrip, Option.map_some, Option.getD_some] at h
  exact ⟨b, h.trans (by decide)⟩

/-- A buffer of NULs triggers nothing. -/
theorem zeroBuffer_handlers : zeroBuffer.handlers = [] := by
  have hstr : ∀ offset, 27 ≤ offset → zeroBuffer.str offset = textAt [] offset := by
    intro offset _
    simp [zeroBuffer, Buffer.str, textAt]
  rw [Buffer.handlers, handlersOf_of_agree hstr]
  decide

/-- A line of at most 26 bytes shows the handlers an older line. -/
theorem size_of_local {K : Type*} [Field K] [LinearOrder K] {l : LogLine}
    (h : l.Local K) : 27 ≤ l.size := by
  by_contra hshort
  obtain ⟨old, hold⟩ := exists_stale_sample
  have hsame := h.1 old zeroBuffer
  rw [lineHandlers_of_short l (by omega), lineHandlers_of_short l (by omega), hold,
    zeroBuffer_handlers] at hsame
  contradiction

/-- A line is parsed from its own text exactly when it has at least 27 bytes. -/
theorem logLine_local_iff {K : Type*} [Field K] [LinearOrder K] (l : LogLine) :
    l.Local K ↔ 27 ≤ l.size := by
  refine ⟨size_of_local, fun hsize => ⟨fun old old' => ?_, ?_⟩⟩
  · rw [lineHandlers_of_size l hsize, lineHandlers_of_size l hsize]
  · intro htag hsample ctx old line s
    apply handleLine_of_noHandlers
    rw [lineHandlers_of_size l hsize, handlersOf_eq_nil htag hsample]

/-- A blank line is parsed from what the line before it left behind. -/
theorem blankLine_not_local : ¬ blankLine.Local ℚ := by
  intro h
  exact absurd (size_of_local h) (by decide)

end FlukeTesting.Statstool
