import FlukeTesting.Statstool.Recorded
import FlukeTesting.Statstool.TagEncoding

/-!
# The messages between a driver and the logger

A driver sends its messages with `sendtag`, and the logger writes each of them to the log behind a
time stamp and `TAG:`, as it writes every reading of the meter behind a time stamp and `SAMPLE:`.
Messages whose texts hold no keyword but their own have one meaning for the parser, so the lines of
such a log are lines of actions.
-/

namespace FlukeTesting.Drivers

open Statstool Scanf

/-- No keyword of the parser occurs in a text. -/
def Plain (text : Text) : Prop :=
  (∀ t ∈ Tag.all, ¬ t.keyword <:+: text) ∧ ¬ sampleKeyword <:+: text

instance (text : Text) : Decidable (Plain text) :=
  @instDecidableAnd _ _ (List.decidableBAll _ Tag.all) inferInstance

/-- Every keyword has an underscore or an `M` in it. -/
theorem plain_of_notMem {text : Text} (hunderscore : '_' ∉ text) (hm : 'M' ∉ text) :
    Plain text := by
  refine ⟨fun t _ h => hunderscore (h.subset ?_), fun h => hm (h.subset (by decide))⟩
  cases t <;> decide

/-- A text in front of a blank and one behind it are plain together if they are apart. -/
theorem plain_append_space {left right : Text} (hleft : Plain left) (hright : Plain right) :
    Plain (left ++ ' ' :: right) := by
  refine ⟨fun t ht h => ?_, fun h => ?_⟩
  · rcases (Search.infix_append_cons_iff t.keyword_ne_nil t.space_notMem_keyword).mp h with h | h
    · exact hleft.1 t ht h
    · exact hright.1 t ht h
  · rcases (Search.infix_append_cons_iff (by decide) (by decide)).mp h with h | h
    · exact hleft.2 h
    · exact hright.2 h

/-- Different tags have different keywords. -/
theorem keyword_injective : Function.Injective Tag.keyword := by
  intro t t'
  cases t <;> cases t' <;> decide

/-- A plain text. -/
structure Payload where
  text : Text
  plain : Plain text

/-- A machine whose announcement is plain and fits. -/
structure Machine extends Client where
  plain : Plain toClient.arg
  fits : toClient.Fits

/-- A name of a test that is plain and fits. -/
structure Title extends TestName where
  plain : Plain text
  fits : toTestName.firstWord.length < nameSize

/-- The name of a test as a text. -/
def Title.payload (title : Title) : Payload := ⟨title.text, title.plain⟩

/-- The mark of a run. Most drivers send a text behind the keyword. The scripts of `pm-tests` send
`${SENDTAG_BEGIN}`, whose words have the quotes of the shell in them: a quote stands in front of the
keyword, and behind it what `sendtag` makes of the second word. -/
inductive RunMark
  | named (payload : Payload)
  | quoted (payload : Option Payload)

/-- What stands in front of the keyword. -/
def RunMark.front : RunMark → Text
  | named _ => []
  | quoted _ => ['\x27']

/-- The payload behind the keyword. -/
def RunMark.payload : RunMark → Option Text
  | named payload => some payload.text
  | quoted payload => payload.map Payload.text

/-- A payload of a mark is plain. -/
theorem RunMark.plain {mark : RunMark} {payload : Text} (h : payload ∈ mark.payload) :
    Plain payload := by
  cases mark with
  | named p =>
    obtain rfl := Option.some.inj h
    exact p.plain
  | quoted o =>
    obtain ⟨p, -, rfl⟩ := Option.map_eq_some_iff.mp h
    exact p.plain

/-- A mark around a keyword. -/
def RunMark.around (mark : RunMark) (keyword : Text) : Text :=
  mark.front ++ (keyword ++ mark.payload.elim [] (' ' :: ·))

/-- A word without blanks and quotes occurs in a mark only in the keyword or in the payload. -/
theorem RunMark.infix_around_iff (mark : RunMark) {word keyword : Text} (hne : word ≠ [])
    (hspace : ' ' ∉ word) (hquote : '\x27' ∉ word) : word <:+: mark.around keyword ↔
      word <:+: keyword ∨ ∃ payload ∈ mark.payload, word <:+: payload := by
  have hbehind (payload : Option Text) : word <:+: keyword ++ payload.elim [] (' ' :: ·) ↔
      word <:+: keyword ∨ ∃ p ∈ payload, word <:+: p := by
    cases payload with
    | none => simp
    | some p => simp [Search.infix_append_cons_iff hne hspace]
  cases mark with
  | named payload => exact hbehind (some payload.text)
  | quoted payload =>
    have hfront (right : Text) : word <:+: [] ++ '\x27' :: right ↔ word <:+: right := by
      rw [Search.infix_append_cons_iff hne hquote, List.infix_nil, or_iff_right hne]
    exact (hfront _).trans (hbehind (payload.map Payload.text))

/-- A message that a driver sends. -/
inductive Message
  | testClient (machine : Machine)
  | testBegin (title : Title)
  | testRunBegin (mark : RunMark)
  | testRunEnd (mark : RunMark)
  | testEnd (payload : Payload)
  | other (payload : Payload)

namespace Message

/-- The text of a message. -/
def text : Message → Text
  | testClient machine => testClientKeyword ++ ' ' :: machine.arg
  | testBegin title => testBeginKeyword ++ ' ' :: title.text
  | testRunBegin mark => mark.around testRunBeginKeyword
  | testRunEnd mark => mark.around testRunEndKeyword
  | testEnd payload => testEndKeyword ++ ' ' :: payload.text
  | other payload => payload.text

/-- What a message is for. -/
def action : Message → Action
  | testClient machine => .announce machine.toClient
  | testBegin title => .begin title.toTestName
  | testRunBegin _ => .start
  | testRunEnd _ => .stop
  | testEnd _ => .finish
  | other _ => .note

end Message

/-- A reading of the meter as it is logged. -/
structure Reading where
  text : Text
  noTag : ¬ tagKeyword <:+: sampleKeyword ++ text

/-- What a line of the log says. -/
inductive Said
  | tag (message : Message)
  | sample (reading : Reading)

/-- The part of a line behind its time stamp. -/
def Said.text : Said → Text
  | tag message => " TAG: ".toList ++ message.text
  | sample reading => " SAMPLE:".toList ++ reading.text

/-- What a line is for. -/
def Said.action : Said → Action
  | tag message => message.action
  | sample reading => .take reading.text

/-- A line that the logger writes. -/
structure Line extends StampedLine where
  said : Said
  rest_eq : rest = said.text

/-- A stamp has 26 characters. -/
theorem drop_stamp (stamp : Stamp) (rest : Text) (k : ℕ) :
    (stamp.line rest).drop (26 + k) = rest.drop k := by
  have hline : stamp.line rest = stamp.line [] ++ rest := by simp [Stamp.line]
  have hlength : (stamp.line []).length = 26 := by simp [Stamp.line]
  rw [hline, ← List.drop_drop, ← hlength, List.drop_left]

namespace Line

variable (l : Line)

/-- A line with a message has its text behind `TAG:`. -/
theorem rest_tag {message : Message} (hsaid : l.said = .tag message) :
    l.rest = " TAG: ".toList ++ message.text := l.rest_eq.trans (congrArg Said.text hsaid)

/-- The text of a line from an offset behind its stamp on. -/
theorem textAt_eq (k : ℕ) : textAt l.toStampedLine.logLine.body (26 + k) = l.said.text.drop k := by
  rw [textAt, StampedLine.logLine, drop_stamp, l.rest_eq]

/-- A line with a message, if that is a tag word and a payload, as a line of that tag. -/
def tagLine (t : Tag) {message : Message} (hsaid : l.said = .tag message) (payload : Text)
    (htext : message.text = t.keyword ++ ' ' :: payload) : TagLine where
  toLogLine := l.toStampedLine.logLine
  stamp := l.toStampedLine.stamp.line []
  word := t.keyword
  payload := some payload
  stampLength := by simp [Stamp.line]
  wordSpace := t.space_notMem_keyword
  layout := by
    have hline : l.toStampedLine.stamp.line l.rest =
        l.toStampedLine.stamp.line [] ++ l.rest := by simp [Stamp.line]
    rw [Option.elim_some, List.append_assoc, ← htext, ← l.rest_tag hsaid]
    exact hline

/-- No keyword occurs in a longer one that is different. -/
theorem keyword_not_within {t t' : Tag} (h : t'.keyword ≠ t.keyword) :
    ¬ t'.keyword <:+: t.keyword := by
  revert h
  cases t <;> cases t' <;> decide

/-- A message with a tag word and a plain payload triggers the handler of its tag. -/
theorem handlers_of_tag {t : Tag} {message : Message} (hsaid : l.said = .tag message)
    {payload : Text} (htext : message.text = t.keyword ++ ' ' :: payload) (hplain : Plain payload) :
    handlersOf (textAt l.toStampedLine.logLine.body) = [t.handler payload] := by
  have hsent : (l.tagLine t hsaid payload htext).sent = [t.handler payload] := by
    change (Tag.all.flatMap fun t' =>
      if t'.keyword = t.keyword then [t'.handler payload] else []) = _
    cases t <;> rfl
  rw [← hsent]
  refine (l.tagLine t hsaid payload htext).handlersOf_eq_sent_iff.mpr ⟨fun t' hne => ?_, ?_⟩
  · exact ⟨keyword_not_within hne, hplain.1 t' t'.mem_all⟩
  · refine ⟨?_, hplain.2⟩
    change ¬ sampleKeyword <:+: t.keyword
    cases t <;> decide

/-- Behind the stamp of a line with a message stand `TAG:` and the message. -/
theorem textAt_tag {message : Message} (hsaid : l.said = .tag message) :
    textAt l.toStampedLine.logLine.body 27 = tagKeyword ++ ' ' :: message.text := by
  rw [l.textAt_eq 1, hsaid]
  rfl

/-- The parser looks for keywords in the message. -/
theorem textAt_message {message : Message} (hsaid : l.said = .tag message) :
    textAt l.toStampedLine.logLine.body 32 = message.text := by
  rw [l.textAt_eq 6, hsaid]
  rfl

/-- A line with a message triggers what is found for the tags. -/
theorem handlers_of_found {message : Message} (hsaid : l.said = .tag message)
    (hsample : ¬ sampleKeyword <:+: message.text) :
    handlersOf (textAt l.toStampedLine.logLine.body) =
      Tag.all.flatMap fun t => t.found (textAt l.toStampedLine.logLine.body) := by
  have hnone : Search.find sampleKeyword (textAt l.toStampedLine.logLine.body 27) = none := by
    rw [Search.find_eq_none_iff, l.textAt_tag hsaid,
      Search.infix_append_cons_iff (by decide) (by decide)]
    exact not_or.mpr ⟨by decide, hsample⟩
  have htag : tagKeyword <:+: textAt l.toStampedLine.logLine.body 27 := by
    rw [l.textAt_tag hsaid]
    exact (List.prefix_append _ _).isInfix
  rw [handlersOf, tagHandlersOf_eq_found htag, hnone]
  simp

/-- In the mark of a run its tag is found and no other one. -/
theorem found_of_mark {t : Tag} {message : Message} (hsaid : l.said = .tag message)
    {mark : RunMark} (htext : message.text = mark.around t.keyword)
    (hsame : ∀ payload, t.handler payload = t.handler []) (t' : Tag) :
    t'.found (textAt l.toStampedLine.logLine.body) = if t' = t then [t.handler []] else [] := by
  have hquote : '\x27' ∉ t'.keyword := by cases t' <;> decide
  have hoccurs : t'.keyword <:+: mark.around t.keyword ↔
      t'.keyword <:+: t.keyword ∨ ∃ payload ∈ mark.payload, t'.keyword <:+: payload :=
    mark.infix_around_iff t'.keyword_ne_nil t'.space_notMem_keyword hquote
  have hword := (l.textAt_message hsaid).trans htext
  cases hfind : Search.find t'.keyword (textAt l.toStampedLine.logLine.body 32) with
  | none =>
    have hne : t' ≠ t := by
      rintro rfl
      rw [Search.find_eq_none_iff, hword, hoccurs] at hfind
      exact hfind (Or.inl List.infix_rfl)
    rw [Tag.found, hfind, if_neg hne, Option.elim_none]
  | some k =>
    have hsome : t'.keyword <:+: mark.around t.keyword := by
      rw [← hword, ← Search.find_isSome_iff, hfind]
      rfl
    have hkeyword : t'.keyword <:+: t.keyword := by
      rcases hoccurs.mp hsome with h | ⟨payload, hmem, h⟩
      · exact h
      · exact absurd h ((RunMark.plain hmem).1 t' t'.mem_all)
    obtain rfl : t' = t := by
      by_contra hne
      exact keyword_not_within (fun h => hne (keyword_injective h)) hkeyword
    rw [Tag.found, hfind, if_pos rfl, Option.elim_some, hsame]

/-- The mark of a run triggers the handler of its tag, if that does not look at the payload. -/
theorem handlers_of_mark {t : Tag} {message : Message} (hsaid : l.said = .tag message)
    {mark : RunMark} (htext : message.text = mark.around t.keyword)
    (hsame : ∀ payload, t.handler payload = t.handler []) :
    handlersOf (textAt l.toStampedLine.logLine.body) = [t.handler []] := by
  have hsample : ¬ sampleKeyword <:+: message.text := by
    rw [htext, mark.infix_around_iff (by decide) (by decide) (by decide)]
    rintro (h | ⟨payload, hmem, h⟩)
    · exact absurd h (by cases t <;> decide)
    · exact (RunMark.plain hmem).2 h
  rw [l.handlers_of_found hsaid hsample]
  simp only [l.found_of_mark hsaid htext hsame]
  cases t <;> rfl

/-- A plain message triggers nothing. -/
theorem handlers_of_plain {message : Message} (hsaid : l.said = .tag message)
    (hplain : Plain message.text) : handlersOf (textAt l.toStampedLine.logLine.body) = [] := by
  have hnone (t : Tag) : t.found (textAt l.toStampedLine.logLine.body) = [] := by
    have hfind : Search.find t.keyword (textAt l.toStampedLine.logLine.body 32) = none := by
      rw [Search.find_eq_none_iff, l.textAt_message hsaid]
      exact hplain.1 t t.mem_all
    rw [Tag.found, hfind, Option.elim_none]
  rw [l.handlers_of_found hsaid hplain.2]
  simp [hnone]

/-- A reading triggers the handler of samples. -/
theorem handlers_of_sample {reading : Reading} (hsaid : l.said = .sample reading) :
    handlersOf (textAt l.toStampedLine.logLine.body) = [.sample reading.text] := by
  have hword : textAt l.toStampedLine.logLine.body 27 = sampleKeyword ++ reading.text := by
    rw [l.textAt_eq 1, hsaid]
    rfl
  have hvalue : textAt l.toStampedLine.logLine.body 34 = reading.text := by
    rw [l.textAt_eq 8, hsaid]
    rfl
  have hnone : Search.find tagKeyword (textAt l.toStampedLine.logLine.body 27) = none := by
    rw [Search.find_eq_none_iff, hword]
    exact reading.noTag
  have hfind : Search.find sampleKeyword (textAt l.toStampedLine.logLine.body 27) = some 0 := by
    apply Search.find_of_starts
    rw [hword]
    exact List.prefix_append _ _
  rw [handlersOf, tagHandlersOf, hnone, hfind, hvalue]
  rfl

/-- Every line triggers exactly the handlers of what it is for. -/
theorem handlers_eq : handlersOf (textAt l.toStampedLine.logLine.body) =
    Action.handlers l.said.action := by
  cases hsaid : l.said with
  | sample reading => exact l.handlers_of_sample hsaid
  | tag message =>
    cases message with
    | testClient machine => exact l.handlers_of_tag (t := .testClient) hsaid rfl machine.plain
    | testBegin title => exact l.handlers_of_tag (t := .testBegin) hsaid rfl title.plain
    | testRunBegin mark => exact l.handlers_of_mark (t := .testRunBegin) hsaid rfl fun _ => rfl
    | testRunEnd mark => exact l.handlers_of_mark (t := .testRunEnd) hsaid rfl fun _ => rfl
    | testEnd payload => exact l.handlers_of_tag (t := .testEnd) hsaid rfl payload.plain
    | other payload => exact l.handlers_of_plain hsaid payload.plain

/-- A line that the logger writes is a line of one action. -/
def actionLine : ActionLine where
  toLogLine := l.toStampedLine.logLine
  action := l.said.action
  handlers_eq := l.handlers_eq
  fits' := by
    cases l.said with
    | sample reading => trivial
    | tag message =>
      cases message with
      | testClient machine => exact machine.fits
      | testBegin title => exact title.fits
      | testRunBegin | testRunEnd | testEnd | other => trivial
  size_ge := l.toStampedLine.size

end Line

/-- The messages of a log. -/
def logMessages (log : List Line) : List Message :=
  log.filterMap fun l => match l.said with
    | .tag message => some message
    | .sample _ => none

end FlukeTesting.Drivers
