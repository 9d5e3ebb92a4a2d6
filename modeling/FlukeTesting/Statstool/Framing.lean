import FlukeTesting.Statstool.Locality

/-!
# The strings that the read loop hands to the parser

The loop takes the last character off whatever `fgets` returns. That is the newline of a line
that fits the buffer, but the last character of the text when a line is longer than the buffer
or the file does not end in a newline. So the strings handed on are the lines of the file
exactly when neither happens.
-/

namespace FlukeTesting.Statstool

/-- The lines of a file, without their newlines. Text behind the last newline is a line. -/
def fileLines : Text → List Text
  | [] => []
  | c :: file =>
    if c = '\n' then [] :: fileLines file
    else
      match fileLines file with
      | [] => [[c]]
      | line :: rest => (c :: line) :: rest

/-- The strings that the loop hands to the time stamp, tag and sample parsing. -/
def handedLines (junk : Buffer) (file : Text) : List Text :=
  (frames junk (chunks file)).filterMap fun raw => raw.strip.map fun b => b.str 0

/-- A file that starts with a whole line. -/
theorem fileLines_append (body rest : Text) (h : '\n' ∉ body) :
    fileLines (body ++ '\n' :: rest) = body :: fileLines rest := by
  induction body with
  | nil => simp [fileLines]
  | cons c body ih =>
    have hc : c ≠ '\n' := fun heq => h (by simp [heq])
    have hbody : '\n' ∉ body := fun hmem => h (List.mem_cons_of_mem _ hmem)
    simp [fileLines, hc, ih hbody]

/-- A file without any newline is one line. -/
theorem fileLines_of_noNewline (body : Text) (hne : body ≠ []) (h : '\n' ∉ body) :
    fileLines body = [body] := by
  induction body with
  | nil => exact absurd rfl hne
  | cons c body ih =>
    have hc : c ≠ '\n' := fun heq => h (by simp [heq])
    cases body with
    | nil => simp [fileLines, hc]
    | cons d body =>
      have hbody : '\n' ∉ d :: body := fun hmem => h (List.mem_cons_of_mem _ hmem)
      rw [fileLines, if_neg hc, ih (by simp) hbody]

/-- A nonempty file starts with a whole line or has no newline. -/
theorem file_cases (file : Text) :
    ('\n' ∉ file) ∨ ∃ body rest, file = body ++ '\n' :: rest ∧ '\n' ∉ body := by
  induction file with
  | nil => simp
  | cons c file ih =>
    by_cases hc : c = '\n'
    · exact Or.inr ⟨[], file, by simp [hc], by simp⟩
    · rcases ih with hnone | ⟨body, rest, rfl, hbody⟩
      · exact Or.inl (by simpa [hnone] using fun heq => hc heq.symm)
      · exact Or.inr ⟨c :: body, rest, rfl, by simpa [hbody] using fun heq => hc heq.symm⟩

/-- A line that fits the room is read with its newline. -/
theorem splitLine_of_fits {room : ℕ} (body rest : Text) (h : '\n' ∉ body)
    (hroom : body.length + 1 ≤ room) :
    splitLine room (body ++ '\n' :: rest) = (body ++ ['\n'], rest) := by
  induction body generalizing room with
  | nil =>
    obtain ⟨room, rfl⟩ := Nat.exists_eq_add_of_le' hroom
    simp [splitLine]
  | cons c body ih =>
    have hc : c ≠ '\n' := fun heq => h (by simp [heq])
    have hbody : '\n' ∉ body := fun hmem => h (List.mem_cons_of_mem _ hmem)
    simp only [List.length_cons] at hroom
    obtain ⟨room, rfl⟩ := Nat.exists_eq_add_of_le' (show 1 ≤ room by omega)
    simp [splitLine, hc, ih hbody (by omega : body.length + 1 ≤ room)]

/-- Without a newline in reach, as much is read as there is room for. -/
theorem splitLine_of_noNewline (room : ℕ) (body rest : Text) (h : '\n' ∉ body)
    (hbody : room ≤ body.length ∨ rest = []) :
    (splitLine room (body ++ rest)).1 = body.take room := by
  induction room generalizing body with
  | zero => simp [splitLine]
  | succ room ih =>
    cases body with
    | nil =>
      have hrest : rest = [] := by simpa using hbody
      simp [splitLine, hrest]
    | cons c body =>
      have hc : c ≠ '\n' := fun heq => h (by simp [heq])
      have htail : '\n' ∉ body := fun hmem => h (List.mem_cons_of_mem _ hmem)
      have := ih body htail (hbody.imp_left (by simp))
      simp [splitLine, hc, this]

/-- Reading splits the file without losing or changing a character. -/
theorem splitLine_append (room : ℕ) (file : Text) :
    (splitLine room file).1 ++ (splitLine room file).2 = file := by
  induction room generalizing file with
  | zero => simp [splitLine]
  | succ room ih =>
    cases file with
    | nil => simp [splitLine]
    | cons c file =>
      by_cases hc : c = '\n'
      · simp [splitLine, hc]
      · simp [splitLine, hc, ih file]

/-- Every call of `fgets` on a nonempty file reads something. -/
theorem fgets_ne_nil (c : Char) (file : Text) : (fgets (c :: file)).1.text ≠ [] := by
  change (splitLine (4094 + 1) (c :: file)).1 ≠ []
  by_cases hc : c = '\n' <;> simp [splitLine, hc]

/-- Chunks of a file without NULs are nonempty and have none. -/
theorem readChunks_spec (count : ℕ) (file : Text) (hnul : NUL ∉ file) :
    ∀ c ∈ readChunks count file, c.text ≠ [] ∧ NUL ∉ c.text := by
  induction count generalizing file with
  | zero => simp [readChunks]
  | succ count ih =>
    cases file with
    | nil => simp [readChunks]
    | cons c file =>
      have happend : (fgets (c :: file)).1.text ++ (fgets (c :: file)).2 = c :: file :=
        splitLine_append _ _
      rw [← happend, List.mem_append, not_or] at hnul
      intro d hd
      rcases List.mem_cons.mp hd with rfl | hd
      · exact ⟨fgets_ne_nil c file, hnul.1⟩
      · exact ih _ hnul.2 d hd

/-- A chunk without NULs loses exactly its last character, whatever the buffer held. -/
theorem strip_load_chunk (old : Buffer) (c : Chunk) (hne : c.text ≠ []) (hnul : NUL ∉ c.text) :
    ∃ b, (old.load c).strip = some b ∧ b.str 0 = c.text.dropLast := by
  have hsplit : c.text = c.text.dropLast ++ [c.text.getLast hne] :=
    (List.dropLast_concat_getLast hne).symm
  have hfront : NUL ∉ c.text.dropLast := fun h => hnul (List.mem_of_mem_dropLast h)
  have hlast : c.text.getLast hne ≠ NUL := fun h => hnul (h ▸ List.getLast_mem hne)
  obtain ⟨b, hstrip, hbytes⟩ := old.strip_load c _ _ hsplit hfront hlast
  exact ⟨b, hstrip, by rw [Buffer.str_of_bytes hbytes hfront (Nat.zero_le _), List.drop_zero]⟩

/-- The loop hands on every chunk without its last character. -/
theorem frames_strings (old : Buffer) (cs : List Chunk)
    (h : ∀ c ∈ cs, c.text ≠ [] ∧ NUL ∉ c.text) :
    ((frames old cs).filterMap fun raw => raw.strip.map fun b => b.str 0) =
      cs.map fun c => c.text.dropLast := by
  induction cs generalizing old with
  | nil => rfl
  | cons c cs ih =>
    obtain ⟨hne, hnul⟩ := h c (by simp)
    obtain ⟨b, hstrip, hstr⟩ := strip_load_chunk old c hne hnul
    simp [frames, hstrip, hstr, ih b fun d hd => h d (List.mem_cons_of_mem _ hd)]

/-- The chunks of a file that starts with a line that fits: that line with its newline first. -/
theorem readChunks_of_fits (count : ℕ) (body rest : Text) (h : '\n' ∉ body)
    (hfits : body.length + 1 < bufferSize) :
    (readChunks (count + 1) (body ++ '\n' :: rest)).map (fun c => c.text.dropLast) =
      body :: (readChunks count rest).map fun c => c.text.dropLast := by
  have hsplit : splitLine (bufferSize - 1) (body ++ '\n' :: rest) = (body ++ ['\n'], rest) :=
    splitLine_of_fits body rest h (by omega)
  obtain ⟨c, file, hfile⟩ : ∃ c file, body ++ '\n' :: rest = c :: file := by
    cases body with
    | nil => exact ⟨_, _, rfl⟩
    | cons c body => exact ⟨_, _, rfl⟩
  rw [hfile] at hsplit ⊢
  simp [readChunks, fgets, hsplit]

/-- The first string of a file without a newline in reach of the buffer is not its first line. -/
theorem readChunks_of_noNewline (count : ℕ) (body rest : Text) (hne : body ≠ []) (h : '\n' ∉ body)
    (hbody : bufferSize - 1 ≤ body.length ∨ rest = []) (lines : List Text) :
    (readChunks (count + 1) (body ++ rest)).map (fun c => c.text.dropLast) ≠ body :: lines := by
  intro heq
  have hsplit := splitLine_of_noNewline (bufferSize - 1) body rest h hbody
  obtain ⟨c, file, hfile⟩ : ∃ c file, body ++ rest = c :: file := by
    cases body with
    | nil => exact absurd rfl hne
    | cons c body => exact ⟨_, _, rfl⟩
  rw [hfile] at heq hsplit
  simp only [readChunks, List.map_cons, List.cons.injEq, fgets] at heq
  have hlen := congrArg List.length heq.1
  rw [hsplit, List.length_dropLast, List.length_take] at hlen
  have hpos := List.length_pos_of_ne_nil hne
  omega

/-- Every line of the file fits the buffer with its newline and its terminator. -/
def LinesFit (file : Text) : Prop := ∀ line ∈ fileLines file, line.length + 1 < bufferSize

/-- The file is empty or ends in a newline. -/
def EndsInNewline (file : Text) : Prop := file = [] ∨ file.getLast? = some '\n'

/-- The loop hands on the lines of the file exactly when all of them fit and end in a newline. -/
theorem readChunks_eq_fileLines_iff (count : ℕ) (file : Text) (hcount : file.length ≤ count) :
    (readChunks count file).map (fun c => c.text.dropLast) = fileLines file ↔
      LinesFit file ∧ EndsInNewline file := by
  induction count generalizing file with
  | zero =>
    have hnil : file = [] := List.length_eq_zero_iff.mp (by omega)
    simp [hnil, readChunks, fileLines, LinesFit, EndsInNewline]
  | succ count ih =>
    rcases file_cases file with hnone | ⟨body, rest, rfl, hbody⟩
    · by_cases hne : file = []
      · simp [hne, readChunks, fileLines, LinesFit, EndsInNewline]
      · -- the only line has no newline to lose
        have hbad := readChunks_of_noNewline count file [] hne hnone (Or.inr rfl) []
        rw [List.append_nil] at hbad
        rw [fileLines_of_noNewline file hne hnone]
        apply iff_of_false hbad
        rintro ⟨-, hend | hend⟩
        · exact hne hend
        · exact hnone (List.mem_of_getLast? hend)
    · rw [fileLines_append body rest hbody]
      have hlines : LinesFit (body ++ '\n' :: rest) ↔
          body.length + 1 < bufferSize ∧ LinesFit rest := by
        simp [LinesFit, fileLines_append body rest hbody]
      have hends : EndsInNewline (body ++ '\n' :: rest) ↔ EndsInNewline rest := by
        cases rest <;> simp [EndsInNewline]
      by_cases hfits : body.length + 1 < bufferSize
      · rw [readChunks_of_fits count body rest hbody hfits, List.cons.injEq, hlines, hends]
        simp only [true_and, hfits]
        exact ih rest (by simp at hcount; omega)
      · -- the buffer ends before the newline
        have hne : body ≠ [] := by
          rintro rfl
          exact hfits (by decide)
        apply iff_of_false (readChunks_of_noNewline count body _ hne hbody (Or.inl (by omega)) _)
        rintro ⟨hfit, -⟩
        exact hfits (hlines.mp hfit).1

/-- The strings of a file without NULs are its lines exactly when every line fits the buffer
and the file is empty or ends in a newline. -/
theorem handedLines_eq_fileLines_iff (junk : Buffer) (file : Text) (hnul : NUL ∉ file) :
    handedLines junk file = fileLines file ↔ LinesFit file ∧ EndsInNewline file := by
  rw [handedLines, chunks, frames_strings junk _ (readChunks_spec _ file hnul)]
  exact readChunks_eq_fileLines_iff file.length file le_rfl

/-- A log of one sample whose line has its newline. -/
def terminatedLog : Text := "2011-12-02T01:03:41.720551 SAMPLE: 0.25\n".toList

/-- The terminated log is handed on line by line. -/
theorem terminatedLog_handed :
    handedLines zeroBuffer terminatedLog = fileLines terminatedLog :=
  (handedLines_eq_fileLines_iff zeroBuffer terminatedLog (by decide)).mpr
    ⟨by unfold LinesFit; decide, Or.inr (by decide)⟩

/-- The same log without its newline. -/
def unterminatedLog : Text := "2011-12-02T01:03:41.720551 SAMPLE: 0.25".toList

/-- The sample of the unterminated log is handed on as 0.2. -/
theorem unterminatedLog_not_handed :
    ¬ handedLines zeroBuffer unterminatedLog = fileLines unterminatedLog := by
  rw [handedLines, chunks, frames_strings _ _ (readChunks_spec _ _ (by decide)),
    readChunks_eq_fileLines_iff _ _ le_rfl]
  rintro ⟨-, hend | hend⟩
  · exact absurd hend (by decide)
  · exact absurd hend (by decide)

end FlukeTesting.Statstool
