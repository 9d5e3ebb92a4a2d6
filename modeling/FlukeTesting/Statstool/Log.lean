import FlukeTesting.Statstool.Framing

/-!
# Logs of whole lines

The lines that the logger writes are complete, end in a newline and hold a time stamp. The
parser reads a log of such lines line by line: the buffer contributes nothing, and the events
of the log are those of the texts of its lines.
-/

namespace FlukeTesting.Statstool

/-- The file that holds the given lines. -/
def logFile (log : List LogLine) : Text := log.flatMap fun l => l.body ++ ['\n']

/-- The buffers that the parser sees for the given lines. -/
def logLines (junk : Buffer) (log : List LogLine) : List Buffer :=
  frames junk (log.map LogLine.chunk)

/-- A file of whole lines is read line by line, with any number of calls that suffices. -/
theorem readChunks_logFile (count : ℕ) (log : List LogLine) (hcount : log.length ≤ count) :
    readChunks count (logFile log) = log.map LogLine.chunk := by
  induction log generalizing count with
  | nil => cases count <;> rfl
  | cons l log ih =>
    obtain ⟨count, rfl⟩ := Nat.exists_eq_add_of_le' (show 1 ≤ count by simp at hcount; omega)
    have hfile : logFile (l :: log) = l.body ++ '\n' :: logFile log := by simp [logFile]
    have hsplit : splitLine (bufferSize - 1) (l.body ++ '\n' :: logFile log) =
        (l.body ++ ['\n'], logFile log) := by
      have hfits := l.fits
      exact splitLine_of_fits l.body (logFile log) l.noNewline (by omega)
    obtain ⟨c, file, hne⟩ : ∃ c file, l.body ++ '\n' :: logFile log = c :: file := by
      cases l.body with
      | nil => exact ⟨_, _, rfl⟩
      | cons c body => exact ⟨_, _, rfl⟩
    rw [hfile, hne, readChunks, fgets, ← hne]
    simp only [hsplit, List.map_cons]
    rw [ih count (by simpa using hcount)]
    rfl

/-- A file of whole lines is read line by line. -/
theorem chunks_logFile (log : List LogLine) : chunks (logFile log) = log.map LogLine.chunk := by
  apply readChunks_logFile _ log
  induction log with
  | nil => exact le_rfl
  | cons l log ih =>
    simp only [logFile, List.flatMap_cons, List.length_append, List.length_cons] at ih ⊢
    omega

section

variable {K : Type*} [Field K]

/-- The time stamp in a text. -/
def textStamp (ctx : Context K) (line : ℕ) (body : Text) : K :=
  (parseTimestamp ctx.env.utcOffset (ctx.env.tm line) body : ℚ)

/-- The events of the text of a line. -/
def LogLine.events (ctx : Context K) (l : LogLine) (line : ℕ) : List (Event K × ℕ) :=
  (.time (textStamp ctx line l.body) ::
    (handlersOf (textAt l.body)).map (Handler.event (textStamp ctx line l.body))).map (·, line)

/-- The events of the texts of a log. -/
def textEvents (ctx : Context K) (log : List LogLine) : List (Event K × ℕ) :=
  log.zipIdx.flatMap fun (l, line) => l.events ctx line

/-- A handler of the text of a line is an event of the log. -/
theorem mem_textEvents (ctx : Context K) {log : List LogLine} {line : ℕ} {l : LogLine}
    (hl : log[line]? = some l) {h : Handler} (hh : h ∈ handlersOf (textAt l.body)) :
    (h.event (textStamp ctx line l.body), line) ∈ textEvents ctx log := by
  refine List.mem_flatMap.mpr ⟨(l, line), List.mem_zipIdx_iff_getElem?.mpr hl, ?_⟩
  exact List.mem_map_of_mem (List.mem_cons_of_mem _ (List.mem_map_of_mem hh))

/-- A stripped line keeps its time stamp. -/
theorem LogLine.stamp_eq (l : LogLine) (ctx : Context K) (line : ℕ) {b : Buffer} {rest : Text}
    (hbytes : b.bytes = l.body ++ NUL :: NUL :: rest) :
    stamp ctx line b = textStamp ctx line l.body := by
  rw [stamp, textStamp, Buffer.str_of_bytes hbytes l.noNul (Nat.zero_le _), List.drop_zero]

/-- The events of a log of lines with at least 27 bytes are those of its texts. -/
theorem logEvents_logLines (ctx : Context K) (junk : Buffer) (log : List LogLine)
    (hsize : ∀ l ∈ log, 27 ≤ l.size) :
    logEvents ctx (logLines junk log) = textEvents ctx log := by
  have hfrom (first : ℕ) : ((logLines junk log).zipIdx first).flatMap
      (fun p => lineEvents ctx p.1 p.2) = (log.zipIdx first).flatMap fun p => p.1.events ctx p.2 := by
    induction log generalizing junk first with
    | nil => rfl
    | cons l log ih =>
      obtain ⟨b, hstrip, hbytes⟩ := l.strip_load junk
      have hhandlers := lineHandlers_of_size l (hsize l (by simp)) junk
      rw [lineHandlers, hstrip, Option.map_some, Option.getD_some] at hhandlers
      have hline : lineEvents ctx (junk.load l.chunk) first = l.events ctx first := by
        simp only [lineEvents, hstrip, LogLine.events, hhandlers, l.stamp_eq ctx first hbytes]
      have hlines : logLines junk (l :: log) = junk.load l.chunk :: logLines b log := by
        simp only [logLines, List.map_cons, frames, hstrip]
      rw [hlines, List.zipIdx_cons, List.zipIdx_cons, List.flatMap_cons, List.flatMap_cons, hline,
        ih b fun l' hl' => hsize l' (List.mem_cons_of_mem _ hl')]
  exact hfrom 0

/-- The parser on a file of whole lines reads these lines. -/
theorem dataParse_logFile [LinearOrder K] (ctx : Context K) (junk : Buffer) (log : List LogLine) :
    dataParse ctx junk (logFile log) = parseLines ctx (logLines junk log) := by
  rw [dataParse, chunks_logFile, logLines]

end

/-- A line of the log from its text. -/
def LogLine.ofText (body : Text)
    (h : NUL ∉ body ∧ '\n' ∉ body ∧ body.length + 1 < bufferSize := by decide +kernel) : LogLine :=
  ⟨body, h.1, h.2.1, h.2.2⟩

/-- Exact arithmetic with a successful environment and cleared memory. -/
def plainEnv : Env ℚ where
  sqrt := id
  utcOffset := 0
  calloc _ := true
  fopen _ := true
  tm _ := ⟨0, 0, 0, 0, 0, 0⟩
  buf _ := []

/-- The given options without scaling. -/
def plainContext (opts : Opts) : Context ℚ := ⟨opts.complete, 1, plainEnv⟩

end FlukeTesting.Statstool
