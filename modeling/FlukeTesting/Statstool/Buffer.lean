import FlukeTesting.Lib.Search
import Mathlib.Data.List.TakeWhile
import Mathlib.Tactic.Common

/-!
# The line buffer of `data_parse`

One buffer of 4096 bytes holds every line in turn. `fgets` writes a chunk of the file and a
NUL over its front and leaves the rest as the previous line left it, and the loop then
overwrites the last character of the string with a NUL. Bytes are characters, and a string
inside the buffer ends at its first NUL or, failing that, at the end of the buffer.
-/

namespace FlukeTesting.Statstool

/-- A byte string. -/
abbrev Text := List Char

/-- The terminator of a C string. -/
def NUL : Char := Char.ofNat 0

/-- `sizeof(buffer)`. -/
def bufferSize : ℕ := 4096

/-- `char buffer[4096]`. -/
structure Buffer where
  bytes : Text
  size : bytes.length = bufferSize

/-- What one call of `fgets(buffer, sizeof(buffer), fp)` reads: it leaves room for the NUL. -/
structure Chunk where
  text : Text
  fits : text.length < bufferSize

/-- Split off the next line with its newline, reading at most `room` characters. -/
def splitLine : ℕ → Text → Text × Text
  | 0, file => ([], file)
  | _ + 1, [] => ([], [])
  | room + 1, c :: file =>
    if c = '\n' then ([c], file)
    else
      let (line, rest) := splitLine room file
      (c :: line, rest)

/-- A line never takes more than the room it was given. -/
theorem splitLine_length (room : ℕ) (file : Text) : (splitLine room file).1.length ≤ room := by
  induction room generalizing file with
  | zero => simp [splitLine]
  | succ room ih =>
    cases file with
    | nil => simp [splitLine]
    | cons c file =>
      by_cases hc : c = '\n'
      · simp [splitLine, hc]
      · simpa [splitLine, hc] using ih file

/-- The next chunk of the file and what is left of it. -/
def fgets (file : Text) : Chunk × Text :=
  (⟨(splitLine (bufferSize - 1) file).1,
    (splitLine_length (bufferSize - 1) file).trans_lt (by decide)⟩,
    (splitLine (bufferSize - 1) file).2)

/-- The chunks of at most `count` successful calls of `fgets`. -/
def readChunks : ℕ → Text → List Chunk
  | 0, _ => []
  | _ + 1, [] => []
  | count + 1, c :: file => (fgets (c :: file)).1 :: readChunks count (fgets (c :: file)).2

/-- All chunks of a file: every call consumes a character, so there are at most as many
calls as characters. -/
def chunks (file : Text) : List Chunk := readChunks file.length file

namespace Buffer

/-- `fgets` writes the chunk and a NUL; the bytes behind them stay. -/
def load (b : Buffer) (c : Chunk) : Buffer where
  bytes := c.text ++ NUL :: b.bytes.drop (c.text.length + 1)
  size := by
    have hfits := c.fits
    have hsize := b.size
    simp only [List.length_append, List.length_cons, List.length_drop]
    omega

/-- The string that starts at an offset. -/
def str (b : Buffer) (offset : ℕ) : Text := (b.bytes.drop offset).takeWhile fun c => c != NUL

/-- `strlen(buffer)`. -/
def strlen (b : Buffer) : ℕ := (b.str 0).length

/-- Overwrite one byte. -/
def put (b : Buffer) (offset : ℕ) (c : Char) : Buffer where
  bytes := b.bytes.set offset c
  size := by rw [List.length_set, b.size]

/-- `buffer[strlen(buffer)-1] = '\0'`; on an empty string the index is -1 and there is no
such byte. -/
def strip (b : Buffer) : Option Buffer :=
  if b.strlen = 0 then none else some (b.put (b.strlen - 1) NUL)

/-- `strstr(buffer + offset, keyword)`, as an offset into the buffer. -/
def strstr (b : Buffer) (offset : ℕ) (keyword : Text) : Option ℕ :=
  (Search.find keyword (b.str offset)).map (offset + ·)

end Buffer

/-- The buffer after each `fgets`, for a buffer that held `junk` before the first one. The
next chunk overwrites the stripped line; no line follows one that cannot be stripped. -/
def frames (junk : Buffer) : List Chunk → List Buffer
  | [] => []
  | c :: rest =>
    junk.load c ::
      match (junk.load c).strip with
      | some b => frames b rest
      | none => []

end FlukeTesting.Statstool
