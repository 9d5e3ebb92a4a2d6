import FlukeTesting.Statstool.Locality

/-!
# Tag lines and the handlers they trigger

A driver sends a tag word and a payload, and the logger writes them behind a time stamp of 26
characters. The parser does not compare the tag word: it searches the rest of the line for
each of its keywords in turn. So it takes a tag line for what was sent exactly when no other
keyword occurs in the word or in the payload.
-/

namespace FlukeTesting.Statstool

/-- The tags that `data_parse` knows. -/
inductive Tag
  | testClient
  | testBegin
  | testEnd
  | testRunBegin
  | testRunEnd
  deriving DecidableEq

namespace Tag

/-- The tags in the order of their handlers. -/
def all : List Tag := [testClient, testBegin, testEnd, testRunBegin, testRunEnd]

/-- The word that stands for a tag on a line. -/
def keyword : Tag → Text
  | testClient => testClientKeyword
  | testBegin => testBeginKeyword
  | testEnd => testEndKeyword
  | testRunBegin => testRunBeginKeyword
  | testRunEnd => testRunEndKeyword

/-- The handler of a tag, with the payload where the handler has one. -/
def handler (payload : Text) : Tag → Handler
  | testClient => .testClient payload
  | testBegin => .testBegin payload
  | testEnd => .testEnd
  | testRunBegin => .testRunBegin
  | testRunEnd => .testRunEnd

/-- The payload that the handler of a tag reads, if its keyword was found at the offset `k`
behind the fixed offset 32. -/
def payloadAt (str : ℕ → Text) (k : ℕ) : Tag → Text
  | testClient => str (32 + k + 12)
  | testBegin | testEnd | testRunBegin | testRunEnd => str 43

/-- What a tag line triggers for one tag: its handler if the keyword is found anywhere. -/
def found (str : ℕ → Text) (t : Tag) : List Handler :=
  (Search.find t.keyword (str 32)).elim [] fun k => [t.handler (t.payloadAt str k)]

/-- Every tag is in the list. -/
theorem mem_all (t : Tag) : t ∈ all := by
  cases t <;> decide

/-- Keywords are not empty. -/
theorem keyword_ne_nil (t : Tag) : t.keyword ≠ [] := by
  cases t <;> decide

/-- Keywords have no blank in them. -/
theorem space_notMem_keyword (t : Tag) : ' ' ∉ t.keyword := by
  cases t <;> decide

end Tag

/-- The tag of a handler; the sample handler has none. -/
def Handler.tag? : Handler → Option Tag
  | testClient _ => some .testClient
  | testBegin _ => some .testBegin
  | testEnd => some .testEnd
  | testRunBegin => some .testRunBegin
  | testRunEnd => some .testRunEnd
  | sample _ => none

@[simp] theorem Tag.handler_tag? (t : Tag) (payload : Text) :
    (t.handler payload).tag? = some t := by
  cases t <;> rfl

/-- The handlers of a tag line are those found for the five tags in turn. -/
theorem tagHandlersOf_eq_found {str : ℕ → Text} (h : tagKeyword <:+: str 27) :
    tagHandlersOf str = Tag.all.flatMap fun t => t.found str := by
  have hif (o : Option ℕ) (g : Handler) :
      (if o.isSome then [g] else []) = o.elim [] fun _ => [g] := by
    cases o <;> rfl
  rw [tagHandlersOf, if_pos ((Search.find_isSome_iff _ _).mpr h)]
  simp only [hif, Tag.all, List.flatMap_cons, List.flatMap_nil, List.append_nil,
    List.append_assoc]
  rfl

/-- A line with a keyword triggers a handler of its tag. -/
theorem exists_mem_handlersOf {str : ℕ → Text} (htag : tagKeyword <:+: str 27) {t : Tag}
    (h : t.keyword <:+: str 32) : ∃ g ∈ handlersOf str, g.tag? = some t := by
  obtain ⟨k, hk⟩ := Option.isSome_iff_exists.mp ((Search.find_isSome_iff _ _).mpr h)
  refine ⟨t.handler (t.payloadAt str k), ?_, by simp⟩
  rw [handlersOf, tagHandlersOf_eq_found htag, List.mem_append, List.mem_flatMap]
  exact Or.inl ⟨t, t.mem_all, by simp [Tag.found, hk]⟩

/-- A line with `SAMPLE:` triggers the sample handler. -/
theorem sample_mem_handlersOf {str : ℕ → Text} (h : sampleKeyword <:+: str 27) :
    ∃ g ∈ handlersOf str, g.tag? = none := by
  refine ⟨.sample (str 34), ?_, rfl⟩
  rw [handlersOf, if_pos ((Search.find_isSome_iff _ _).mpr h)]
  simp

/-- A line that the logger writes for a tag: the word that was sent, and the payload if one was
sent behind it. -/
structure TagLine extends LogLine where
  stamp : Text
  word : Text
  payload : Option Text
  stampLength : stamp.length = 26
  wordSpace : ' ' ∉ word
  layout : body = stamp ++ " TAG: ".toList ++ (word ++ payload.elim [] (' ' :: ·))

namespace TagLine

variable (l : TagLine)

/-- What follows the tag word on the line. -/
def tail : Text := l.payload.elim [] (' ' :: ·)

/-- The payload that was sent; a tag sent alone has an empty one. -/
def text : Text := l.payload.getD []

/-- What the line was sent for: the action of its tag, or none if the word is no tag. -/
def sent : List Handler :=
  Tag.all.flatMap fun t => if t.keyword = l.word then [t.handler l.text] else []

/-- No keyword occurs on the line beside the tag word: neither one in another word, nor another
one in the payload. -/
def Unambiguous : Prop :=
  (∀ t : Tag, t.keyword ≠ l.word → ¬ t.keyword <:+: l.word ∧ ¬ t.keyword <:+: l.text) ∧
    ¬ sampleKeyword <:+: l.word ∧ ¬ sampleKeyword <:+: l.text

/-- The time stamp, the blank and `TAG: ` are 32 characters. -/
theorem textAt_body (k : ℕ) : textAt l.body (32 + k) = (l.word ++ l.tail).drop k := by
  have hlen : (l.stamp ++ " TAG: ".toList).length = 32 := by
    rw [List.length_append, l.stampLength]
    decide
  rw [textAt, l.layout, ← List.drop_drop, ← hlen, List.drop_left]
  rfl

/-- Behind the time stamp and the blank stands `TAG:`. -/
theorem textAt_body_tag : textAt l.body 27 = tagKeyword ++ ' ' :: (l.word ++ l.tail) := by
  have hlen : (l.stamp ++ [' ']).length = 27 := by
    rw [List.length_append, l.stampLength]
    decide
  have hbody : l.body = (l.stamp ++ [' ']) ++ (tagKeyword ++ ' ' :: (l.word ++ l.tail)) := by
    have hsplit : " TAG: ".toList = [' '] ++ tagKeyword ++ [' '] := by decide
    rw [l.layout, hsplit, tail]
    simp
  rw [textAt, hbody, ← hlen, List.drop_left]

/-- A keyword occurs behind `TAG:` exactly when it occurs in the word or in the payload. -/
theorem infix_word_tail {keyword : Text} (hne : keyword ≠ []) (hspace : ' ' ∉ keyword) :
    keyword <:+: l.word ++ l.tail ↔ keyword <:+: l.word ∨ keyword <:+: l.text := by
  unfold tail text
  cases l.payload with
  | none => simp [List.infix_nil, hne]
  | some payload => exact Search.infix_append_cons_iff hne hspace

/-- A tag word reaches its own handler with the payload. -/
theorem found_word {t : Tag} (h : t.keyword = l.word) :
    t.found (textAt l.body) = [t.handler l.text] := by
  have hfind : Search.find t.keyword (textAt l.body 32) = some 0 := by
    apply Search.find_of_starts
    rw [l.textAt_body 0, List.drop_zero, h]
    exact List.prefix_append _ _
  have htail : (l.word ++ l.tail).drop (l.word.length + 1) = l.text := by
    unfold tail text
    cases l.payload <;> simp
  rw [Tag.found, hfind, Option.elim_some]
  cases t with
  | testClient =>
    have hlen : l.word.length + 1 = 12 := by
      rw [← h]
      decide
    rw [Tag.payloadAt, l.textAt_body 12, ← hlen, htail]
  | testBegin =>
    have hlen : l.word.length + 1 = 11 := by
      rw [← h]
      decide
    rw [Tag.payloadAt, l.textAt_body 11, ← hlen, htail]
  | testEnd => rfl
  | testRunBegin => rfl
  | testRunEnd => rfl

/-- The line says `TAG`. -/
theorem tagKeyword_infix : tagKeyword <:+: textAt l.body 27 := by
  rw [textAt_body_tag]
  exact (List.prefix_append _ _).isInfix

/-- `SAMPLE` occurs in the line if it occurs in the word or in the text. -/
theorem sampleKeyword_infix_iff : sampleKeyword <:+: textAt l.body 27 ↔
    sampleKeyword <:+: l.word ∨ sampleKeyword <:+: l.text := by
  rw [textAt_body_tag, Search.infix_append_cons_iff (by decide) (by decide),
    l.infix_word_tail (by decide) (by decide), or_iff_right (by decide)]

/-- A keyword occurs behind `TAG` if it occurs in the word or in the text. -/
theorem keyword_infix_iff (t : Tag) : t.keyword <:+: textAt l.body 32 ↔
    t.keyword <:+: l.word ∨ t.keyword <:+: l.text := by
  rw [l.textAt_body 0, List.drop_zero]
  exact l.infix_word_tail t.keyword_ne_nil t.space_notMem_keyword

/-- Whatever a line is sent for has the tag whose keyword is the word. -/
theorem tag_of_mem_sent {g : Handler} (hg : g ∈ l.sent) :
    ∃ t : Tag, g.tag? = some t ∧ t.keyword = l.word := by
  obtain ⟨t, -, ht⟩ := List.mem_flatMap.mp hg
  by_cases hkey : t.keyword = l.word
  · rw [if_pos hkey, List.mem_singleton] at ht
    exact ⟨t, by rw [ht, Tag.handler_tag?], hkey⟩
  · simp [hkey] at ht

/-- The line triggers what it was sent for exactly when it is unambiguous. -/
theorem handlersOf_eq_sent_iff : handlersOf (textAt l.body) = l.sent ↔ l.Unambiguous := by
  constructor
  · intro heq
    refine ⟨fun t hne => not_or.mp fun hocc => ?_, not_or.mp fun hocc => ?_⟩
    · obtain ⟨g, hg, htg⟩ :=
        exists_mem_handlersOf l.tagKeyword_infix ((l.keyword_infix_iff t).mpr hocc)
      obtain ⟨u, hu, hkey⟩ := l.tag_of_mem_sent (heq ▸ hg)
      rw [htg, Option.some.injEq] at hu
      exact hne (hu ▸ hkey)
    · obtain ⟨g, hg, htg⟩ := sample_mem_handlersOf (l.sampleKeyword_infix_iff.mpr hocc)
      obtain ⟨u, hu, -⟩ := l.tag_of_mem_sent (heq ▸ hg)
      rw [htg] at hu
      contradiction
  · rintro ⟨htags, hnosample⟩
    have hnone : Search.find sampleKeyword (textAt l.body 27) = none := by
      rw [Search.find_eq_none_iff, l.sampleKeyword_infix_iff]
      exact not_or.mpr hnosample
    have hfound : (fun t : Tag => t.found (textAt l.body)) =
        fun t => if t.keyword = l.word then [t.handler l.text] else [] := by
      funext t
      split
      · rename_i hkey
        exact l.found_word hkey
      · rename_i hkey
        have hmissing : Search.find t.keyword (textAt l.body 32) = none := by
          rw [Search.find_eq_none_iff, l.keyword_infix_iff]
          exact not_or.mpr (htags t hkey)
        rw [Tag.found, hmissing, Option.elim_none]
    rw [handlersOf, tagHandlersOf_eq_found l.tagKeyword_infix, hfound, hnone]
    simp [sent]

/-- The parser inverts the encoding of the line: whatever the buffer held before, the line
triggers the handler of its tag with its payload and no other one. -/
def Decoded : Prop := ∀ old : Buffer, lineHandlers (old.load l.chunk) = l.sent

/-- A tag line is longer than the offsets at which the parser looks. -/
theorem size_ge : 27 ≤ l.size := by
  have hlen : " TAG: ".toList.length = 6 := by decide
  rw [LogLine.size, l.layout, List.length_append, List.length_append, l.stampLength, hlen]
  omega

/-- A tag line is parsed as it was sent exactly when no keyword occurs on it beside its tag
word. -/
theorem decoded_iff : l.Decoded ↔ l.Unambiguous := by
  rw [← handlersOf_eq_sent_iff]
  refine ⟨fun h => ?_, fun h old => ?_⟩
  · rw [← lineHandlers_of_size l.toLogLine l.size_ge zeroBuffer, h zeroBuffer]
  · rw [lineHandlers_of_size l.toLogLine l.size_ge, h]

/-- A tag line whose payload may hold a keyword, as a test may be named after a tag. -/
def endingTest : TagLine where
  body := "2011-12-02T01:03:41.720551 TAG: TEST_BEGIN wait-for-TEST_END".toList
  stamp := "2011-12-02T01:03:41.720551".toList
  word := testBeginKeyword
  payload := some "wait-for-TEST_END".toList
  noNul := by decide
  noNewline := by decide
  fits := by decide
  stampLength := by decide
  wordSpace := by decide
  layout := by decide

/-- The parser takes the beginning of that test for its end. -/
theorem endingTest_not_decoded : ¬ endingTest.Decoded := by
  intro h
  have hsent := h zeroBuffer
  rw [lineHandlers_of_size _ endingTest.size_ge, handlersOf_eq_sent_iff] at hsent
  exact (hsent.1 .testEnd (by decide)).2 (by decide)

end TagLine

end FlukeTesting.Statstool
