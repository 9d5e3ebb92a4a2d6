import FlukeTesting.Drivers.Runs
import FlukeTesting.UdpRelay.Relay

/-!
# From the driver through the relay to the reports

The messages of a driver are datagrams, and `udp-relay` sends them on to the logger. The text of a
message determines the message, so what the logger writes is what the relay sends on: the first
messages, as many as the relay has descriptors left. The reports are those of the tests whose
messages are among these.
-/

namespace FlukeTesting.Drivers

open Statstool Imperative

/-- The tag word of a message, what stands in front of it, and its payload. -/
def Message.tag? : Message → Option (Tag × Text × Option Text)
  | .testClient machine => some (.testClient, [], some machine.arg)
  | .testBegin title => some (.testBegin, [], some title.text)
  | .testRunBegin mark => some (.testRunBegin, mark.front, mark.payload)
  | .testRunEnd mark => some (.testRunEnd, mark.front, mark.payload)
  | .testEnd payload => some (.testEnd, [], some payload.text)
  | .other _ => none

/-- A message with a tag word is what stands in front of it, the tag word, and the payload behind a
blank. -/
theorem Message.text_of_tag {m : Message} {t : Tag} {front : Text} {payload : Option Text}
    (h : m.tag? = some (t, front, payload)) :
    m.text = front ++ (t.keyword ++ payload.elim [] (' ' :: ·)) := by
  cases m <;> simp only [Message.tag?, Option.some.injEq, Prod.mk.injEq, reduceCtorEq] at h <;>
    obtain ⟨rfl, rfl, rfl⟩ := h <;> rfl

/-- In front of a tag word stands nothing or a quote. -/
theorem Message.front_of_tag {m : Message} {t : Tag} {front : Text} {payload : Option Text}
    (h : m.tag? = some (t, front, payload)) : front = [] ∨ front = ['\x27'] := by
  have hmark (mark : RunMark) : mark.front = [] ∨ mark.front = ['\x27'] := by
    cases mark
    · exact Or.inl rfl
    · exact Or.inr rfl
  cases m <;> simp only [Message.tag?, Option.some.injEq, Prod.mk.injEq, reduceCtorEq] at h <;>
    obtain ⟨-, rfl, -⟩ := h <;> first | exact Or.inl rfl | exact hmark _

/-- A message is plain if it has no tag word. -/
theorem Message.plain_iff (m : Message) : Plain m.text ↔ m.tag? = none := by
  constructor
  · intro hplain
    cases h : m.tag? with
    | none => rfl
    | some tagged =>
      obtain ⟨t, front, payload⟩ := tagged
      have hinfix : t.keyword <:+: m.text := by
        rw [Message.text_of_tag h, ← List.append_assoc]
        exact List.infix_append _ _ _
      exact absurd hinfix (hplain.1 t t.mem_all)
  · intro h
    cases m with
    | other payload => exact payload.plain
    | testClient | testBegin | testRunBegin | testRunEnd | testEnd => contradiction

/-- The announcement of a client determines it. -/
theorem arg_injective : Function.Injective Client.arg := by
  intro c c' harg
  have hwords := c.clientWords_arg [] []
  rw [harg, c'.clientWords_arg [] []] at hwords
  cases c
  cases c'
  simp_all

/-- The front and the payload of a mark determine it. -/
theorem RunMark.eq_of_parts {mark mark' : RunMark} (hfront : mark.front = mark'.front)
    (hpayload : mark.payload = mark'.payload) : mark = mark' := by
  have htext : Function.Injective Payload.text := fun a b h => by
    cases a
    cases b
    simp_all
  cases mark with
  | named p =>
    cases mark' with
    | named p' => rw [htext (Option.some.inj hpayload)]
    | quoted => exact absurd hfront (List.cons_ne_nil _ _).symm
  | quoted p =>
    cases mark' with
    | named => exact absurd hfront (List.cons_ne_nil _ _)
    | quoted p' => rw [Option.map_injective htext hpayload]

/-- The parts of a message with a tag word determine it. -/
theorem Message.eq_of_tag {m m' : Message} {t : Tag} {front : Text} {payload : Option Text}
    (h : m.tag? = some (t, front, payload)) (h' : m'.tag? = some (t, front, payload)) :
    m = m' := by
  have hmachine {a b : Machine} (harg : a.arg = b.arg) : a = b := by
    have hclient := arg_injective harg
    cases a
    cases b
    simp_all
  have htitle {a b : Title} (htext : a.text = b.text) : a = b := by
    obtain ⟨⟨_, _⟩, _, _⟩ := a
    obtain ⟨⟨_, _⟩, _, _⟩ := b
    simp_all
  have hpayload {a b : Payload} (htext : a.text = b.text) : a = b := by
    cases a
    cases b
    simp_all
  cases m <;> cases m' <;> simp only [Message.tag?, Option.some.injEq, Prod.mk.injEq,
    reduceCtorEq] at h h' <;> obtain ⟨rfl, rfl, rfl⟩ := h <;>
    simp only [reduceCtorEq, false_and, true_and, Option.some.injEq] at h'
  · rw [hmachine h']
  · rw [htitle h']
  · rw [RunMark.eq_of_parts h'.1 h'.2]
  · rw [RunMark.eq_of_parts h'.1 h'.2]
  · rw [hpayload h']

/-- A tag word ends in front of the first blank. -/
theorem takeWhile_keyword (t : Tag) (payload : Option Text) :
    (t.keyword ++ payload.elim [] (' ' :: ·)).takeWhile (· ≠ ' ') = t.keyword := by
  have hword : ∀ c ∈ t.keyword, decide (c ≠ ' ') = true := fun c hc =>
    decide_eq_true fun h => t.space_notMem_keyword (h ▸ hc)
  rw [List.takeWhile_append_of_pos hword]
  cases payload <;> simp

/-- A tag word does not begin with a quote, so messages of one text have the same front. -/
theorem front_eq {front front' : Text} (hfront : front = [] ∨ front = ['\x27'])
    (hfront' : front' = [] ∨ front' = ['\x27']) {t t' : Tag} {payload payload' : Option Text}
    (htext : front ++ (t.keyword ++ payload.elim [] (' ' :: ·)) =
      front' ++ (t'.keyword ++ payload'.elim [] (' ' :: ·))) : front = front' := by
  have hquote (t : Tag) (o : Option Text) (rest : Text) :
      t.keyword ++ o.elim [] (' ' :: ·) ≠ '\x27' :: rest := by
    obtain ⟨word, hword⟩ : ∃ word, t.keyword = 'T' :: word := by
      cases t <;> exact ⟨_, rfl⟩
    simp [hword]
  rcases hfront with rfl | rfl <;> rcases hfront' with rfl | rfl
  · rfl
  · exact absurd htext (hquote _ _ _)
  · exact absurd htext.symm (hquote _ _ _)
  · rfl

/-- The text of a message determines it. -/
theorem Message.text_injective : Function.Injective Message.text := by
  intro m m' htext
  cases h : m.tag? with
  | none =>
    have h' : m'.tag? = none := by
      rwa [← m'.plain_iff, ← htext, m.plain_iff]
    cases m <;> cases m' <;> simp only [Message.tag?, reduceCtorEq] at h h'
    rename_i payload payload'
    cases payload
    cases payload'
    exact congrArg Message.other (by simpa [Message.text] using htext)
  | some tagged =>
    obtain ⟨t, front, payload⟩ := tagged
    cases h' : m'.tag? with
    | none =>
      rw [← m'.plain_iff, ← htext, m.plain_iff, h] at h'
      contradiction
    | some tagged' =>
      obtain ⟨t', front', payload'⟩ := tagged'
      rw [Message.text_of_tag h, Message.text_of_tag h'] at htext
      obtain rfl : front = front' :=
        front_eq (Message.front_of_tag h) (Message.front_of_tag h') htext
      have hbehind := List.append_cancel_left htext
      have hword := congrArg (List.takeWhile (· ≠ ' ')) hbehind
      rw [takeWhile_keyword, takeWhile_keyword] at hword
      obtain rfl : t = t' := keyword_injective hword
      obtain rfl : payload = payload' := by
        have htail := List.append_cancel_left hbehind
        cases payload <;> cases payload' <;> simp_all
      exact Message.eq_of_tag h h'

/-- A message that fits into one datagram: it is not empty, its characters are bytes, none of them
NUL, and they are at most 1000. -/
structure Datagram where
  message : Message
  nonempty : message.text ≠ []
  bytes : ∀ c ∈ message.text, 0 < c.toNat ∧ c.toNat < 256
  fits : message.text.length ≤ 1000

/-- The bytes of a datagram. -/
def Datagram.wire (g : Datagram) : UdpRelay.Bytes :=
  g.message.text.map fun c => UInt8.ofNat c.toNat

/-- The bytes of a datagram determine it. -/
theorem Datagram.wire_injective : Function.Injective Datagram.wire := by
  intro g g' hwire
  have hback (d : Datagram) : d.wire.map (fun b => Char.ofNat b.toNat) = d.message.text := by
    rw [Datagram.wire, List.map_map]
    conv_rhs => rw [← List.map_id d.message.text]
    apply List.map_congr_left
    intro c hc
    have hbyte : (UInt8.ofNat c.toNat).toNat = c.toNat :=
      UInt8.toNat_ofNat_of_lt' (d.bytes c hc).2
    rw [Function.comp_apply, hbyte, Char.ofNat_toNat]
    rfl
  have htext : g.message.text = g'.message.text := by rw [← hback g, hwire, hback g']
  have hmessage := Message.text_injective htext
  cases g
  cases g'
  simpa using hmessage

/-- A datagram as the relay receives it. -/
def Datagram.tag (g : Datagram) : UdpRelay.Tag where
  bytes := g.wire
  nonempty := by simpa [Datagram.wire] using g.nonempty
  noNul := by
    intro hzero
    obtain ⟨c, hc, hbyte⟩ := List.mem_map.mp hzero
    have hnat := congrArg UInt8.toNat hbyte
    rw [UInt8.toNat_ofNat_of_lt' (g.bytes c hc).2] at hnat
    exact absurd hnat (g.bytes c hc).1.ne'
  fits := by simpa [Datagram.wire] using g.fits

/-- Of a driver whose messages go through the relay, the logger writes the first ones. -/
theorem relayed_messages {sys : UdpRelay.System} {mesg : UdpRelay.Mesg} {p : UdpRelay.Process}
    (hstart : UdpRelay.start sys true mesg = some p) {sent logged : List Datagram}
    (hrelay : logged.map Datagram.wire =
      (UdpRelay.relay p (sent.map Datagram.wire)).sent.map UdpRelay.Outgoing.payload) :
    logged = sent.take (sys.limit - (sys.opened + 1)) := by
  have hroom : sys.opened < sys.limit := by
    by_contra hfull
    simp [UdpRelay.start, UdpRelay.socket, hfull] at hstart
  rw [UdpRelay.start_eq hroom, Option.some.injEq] at hstart
  have htags : sent.map Datagram.wire = (sent.map Datagram.tag).map UdpRelay.Tag.bytes := by
    rw [List.map_map]
    rfl
  rw [htags, (UdpRelay.relay_tags p _).2, ← hstart, List.nil_append, ← List.map_take, List.map_map,
    List.map_map] at hrelay
  exact List.map_injective_iff.mpr Datagram.wire_injective hrelay

/-- The messages of the first tests of a driver are as many as the inputs of their plans. -/
theorem length_messages_take {d : Driver} {k : ℕ} {script : Script}
    (hscript : d.scripts[k]? = some script) :
    ((d.scripts.take (k + 1)).flatMap Script.messages).length =
      ((d.plans.take k).map fun p => p.length + p.notes).sum + script.plan.length +
        script.notes.length := by
  have hlength (s : Script) : s.messages.length = s.plan.length + s.plan.notes := by
    rw [← s.plan.length_session (A := Text), ← s.actions, List.length_map]
  rw [List.length_flatMap, List.take_add_one, hscript, Option.toList_some, List.map_append,
    List.sum_append, Driver.plans, ← List.map_take, List.map_map, List.map_singleton,
    List.sum_singleton, hlength script, Nat.add_assoc]
  exact congrArg (List.sum · + _) (List.map_congr_left fun s _ => hlength s)

section

variable {K : Type*} [Field K] [LinearOrder K] [IsStrictOrderedRing K]

/-- A driver whose messages go through the relay gets the reports of the tests whose messages, those
behind the last end apart, are no more than the relay has descriptors left. This is without `-a`,
while memory lasts and files can be created, and under `-x` for the drivers that announce every
test. -/
theorem relayed_reports (ctx : Context K) (junk : Buffer) (d : Driver) (log : List Line)
    {sys : UdpRelay.System} {mesg : UdpRelay.Mesg} {p : UdpRelay.Process}
    (hstart : UdpRelay.start sys true mesg = some p) {sent logged : List Datagram}
    (hsent : sent.map Datagram.message = d.messages)
    (hlogged : logged.map Datagram.message = logMessages log)
    (hrelay : logged.map Datagram.wire =
      (UdpRelay.relay p (sent.map Datagram.wire)).sent.map UdpRelay.Outgoing.payload)
    (hauto : ctx.opts.statsAllSamples = false) (hcalloc : ∀ n, ctx.env.calloc n = true)
    (hwritten : ∀ n, ctx.written n = true)
    (hannounced : ctx.opts.extractResults = true → d.Announces) :
    ∃ s, dataParse ctx junk (logFile (plainLines log)) = .next s ∧
      (∀ k script, d.scripts[k]? = some script → (k < s.reports.length ↔
        ((d.scripts.take (k + 1)).flatMap Script.messages).length ≤
          sys.limit - (sys.opened + 1) + script.notes.length)) ∧
      ∀ k r, s.reports[k]? = some r →
        ∃ script, d.scripts[k]? = some script ∧ Reported ctx log k script r := by
  have htake : logMessages log = d.messages.take (sys.limit - (sys.opened + 1)) := by
    rw [← hlogged, relayed_messages hstart hrelay, List.map_take, hsent]
  obtain ⟨s, hs, hlength, hreports⟩ := dataParse_reported ctx junk d log
    (htake ▸ List.take_prefix _ _) hauto hcalloc hwritten hannounced
  refine ⟨s, hs, fun k script hscript => ?_, hreports⟩
  have hplan : d.plans[k]? = some script.plan := by
    rw [Driver.plans, List.getElem?_map, hscript]
    rfl
  have hfew : ((d.scripts.take (k + 1)).flatMap Script.messages).length ≤ d.messages.length := by
    rw [Driver.messages, ← List.take_append_drop (k + 1) d.scripts, List.flatMap_append]
    simp
  rw [hlength, Recording.lt_length_recordsOf_iff hplan, length_logEntries, htake, List.length_take]
  rw [length_messages_take hscript] at hfew ⊢
  omega

end

/-- A message whose text is seen to fit. -/
def datagramOf (message : Message) (nonempty : message.text ≠ [] := by decide +kernel)
    (bytes : (message.text.all fun c => 0 < c.toNat && c.toNat < 256) = true := by decide +kernel)
    (fits : message.text.length ≤ 1000 := by decide +kernel) : Datagram :=
  ⟨message, nonempty, fun c hc => by simpa using List.all_eq_true.mp bytes c hc, fits⟩

/-- The datagrams of one iteration of the idle test. -/
def idleSent : List Datagram := [
  datagramOf (.testClient laptop),
  datagramOf (.testBegin idleTitle),
  datagramOf (.testRunBegin (.named idleTitle.payload)),
  datagramOf (.testRunEnd (.named idleTitle.payload)),
  datagramOf (.testEnd idleTitle.payload),
  datagramOf (.other quitPayload)]

/-- A relay with room for five messages sends on all but the last of these. -/
theorem idleSent_relayed (p : UdpRelay.Process) (hp : p.limit - p.opened = 5)
    (hsent : p.sent = []) :
    (idleSent.take 5).map Datagram.wire =
      (UdpRelay.relay p (idleSent.map Datagram.wire)).sent.map UdpRelay.Outgoing.payload := by
  have htags := (UdpRelay.relay_tags p (idleSent.map Datagram.tag)).2
  rw [hp, hsent, List.nil_append, ← List.map_take, List.map_map, List.map_map] at htags
  exact (congrArg (List.map UdpRelay.Outgoing.payload) htags).symm

/-- The idle test is reported behind a relay that loses the last message. -/
theorem idleSent_reports : ∃ s : State ℚ,
    dataParse extracting zeroBuffer (logFile (plainLines idleLog)) = .next s ∧
      (∀ k script, (idle laptop 1).scripts[k]? = some script → (k < s.reports.length ↔
        (((idle laptop 1).scripts.take (k + 1)).flatMap Script.messages).length ≤
          9 - (3 + 1) + script.notes.length)) ∧
      ∀ k r, s.reports[k]? = some r →
        ∃ script, (idle laptop 1).scripts[k]? = some script ∧
          Reported extracting idleLog k script r := by
  have hroom : (⟨9, 3⟩ : UdpRelay.System).opened < (⟨9, 3⟩ : UdpRelay.System).limit := by decide
  have hstart := UdpRelay.start_eq hroom UdpRelay.zeroMesg
  have hsent : idleSent.map Datagram.message = (idle laptop 1).messages := rfl
  have hlogged : (idleSent.take 5).map Datagram.message = logMessages idleLog := rfl
  exact relayed_reports extracting zeroBuffer (idle laptop 1) idleLog hstart hsent hlogged
    (idleSent_relayed _ rfl rfl) rfl (fun _ => rfl) (fun _ => rfl)
    (fun _ => (Announcing.idle 1).announces)

end FlukeTesting.Drivers
