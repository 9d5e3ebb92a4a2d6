import FlukeTesting.Statstool.Bounds
import FlukeTesting.Statstool.EventOrder

/-!
# Which logs are read to their end

Whether an event lets the parser go on depends on little of what came before: on the words that
were announced since the last end of a test, on the machine that was announced last, and on the
runs of the abstract collector. All of these are known from the lines. So the parser gets to an
event exactly when every event in front of it passes on what the lines before have left.
-/

namespace FlukeTesting.Statstool

open Imperative Collect

/-- The words that the next report is named by: those announced since the last end of a test, and
the machine that was announced last. -/
@[ext]
structure Label where
  hostname : Text
  kernel : Text
  test : Text
  machine : Option Text
  deriving DecidableEq

/-- Nothing was announced. -/
def Label.blank : Label := ⟨[], [], [], none⟩

/-- What the lines up to some event have left behind: the words of the next report, the collected
runs and the time origin. -/
structure Track (K : Type*) where
  label : Label
  collected : Collect.State (Point K)
  origin : K

section

variable {K : Type*}

/-- What an event makes of the words of the next report. -/
def Label.step (ctx : Context K) (l : Label) : Event K × ℕ → Label
  | (.testClient arg, line) =>
    let words := clientWords arg l.hostname l.kernel
    { l with
      hostname := words.hostname
      kernel := words.kernel
      machine := some (words.machine.getD (ctx.env.buf line)) }
  | (.testBegin arg, _) => { l with test := testWord arg l.test }
  | (.testEnd, _) => { l with hostname := [], kernel := [], test := [] }
  | _ => l

section

variable {ctx : Context K}

/-- Events without announcements and ends of tests keep the client. -/
theorem Label.foldl_client (l : Label) {events : List (Event K × ℕ)}
    (hclient : ∀ x ∈ events, x.1.isClient = false) (hend : ∀ x ∈ events, x.1.isEnd = false) :
    (events.foldl (Label.step ctx) l).hostname = l.hostname ∧
      (events.foldl (Label.step ctx) l).kernel = l.kernel := by
  induction events generalizing l with
  | nil => exact ⟨rfl, rfl⟩
  | cons x events ih =>
    have hrest := ih (l.step ctx x) (fun y hy => hclient y (List.mem_cons_of_mem x hy))
      fun y hy => hend y (List.mem_cons_of_mem x hy)
    have hx := hclient x List.mem_cons_self
    have hx' := hend x List.mem_cons_self
    obtain ⟨event, n⟩ := x
    cases event with
    | testClient | testEnd => contradiction
    | unstrippable | time | testBegin | testRunBegin | testRunEnd | sample => exact hrest

/-- Without announcements, the machine stays. -/
theorem Label.foldl_machine (l : Label) {events : List (Event K × ℕ)}
    (hclient : ∀ x ∈ events, x.1.isClient = false) :
    (events.foldl (Label.step ctx) l).machine = l.machine := by
  induction events generalizing l with
  | nil => rfl
  | cons x events ih =>
    have hrest := ih (l.step ctx x) fun y hy => hclient y (List.mem_cons_of_mem x hy)
    have hx := hclient x List.mem_cons_self
    obtain ⟨event, n⟩ := x
    cases event with
    | testClient => contradiction
    | unstrippable | time | testBegin | testEnd | testRunBegin | testRunEnd | sample =>
      exact hrest

/-- Without announcements, a client that is cleared stays so. -/
theorem Label.foldl_cleared (l : Label) {events : List (Event K × ℕ)}
    (hclient : ∀ x ∈ events, x.1.isClient = false) (hl : l.hostname = [] ∧ l.kernel = []) :
    (events.foldl (Label.step ctx) l).hostname = [] ∧
      (events.foldl (Label.step ctx) l).kernel = [] := by
  induction events generalizing l with
  | nil => exact hl
  | cons x events ih =>
    refine ih (l.step ctx x) (fun y hy => hclient y (List.mem_cons_of_mem x hy)) ?_
    have hx := hclient x List.mem_cons_self
    obtain ⟨event, n⟩ := x
    cases event with
    | testClient => contradiction
    | testEnd => exact ⟨rfl, rfl⟩
    | unstrippable | time | testBegin | testRunBegin | testRunEnd | sample => exact hl

/-- Events without beginnings and ends of tests keep the name of the test. -/
theorem Label.foldl_test (l : Label) {events : List (Event K × ℕ)}
    (hbegin : ∀ x ∈ events, x.1.isBegin = false) (hend : ∀ x ∈ events, x.1.isEnd = false) :
    (events.foldl (Label.step ctx) l).test = l.test := by
  induction events generalizing l with
  | nil => rfl
  | cons x events ih =>
    have hrest := ih (l.step ctx x) (fun y hy => hbegin y (List.mem_cons_of_mem x hy))
      fun y hy => hend y (List.mem_cons_of_mem x hy)
    have hx := hbegin x List.mem_cons_self
    have hx' := hend x List.mem_cons_self
    obtain ⟨event, n⟩ := x
    cases event with
    | testBegin | testEnd => contradiction
    | unstrippable | time | testClient | testRunBegin | testRunEnd | sample => exact hrest

/-- A machine that is known stays so. -/
theorem Label.foldl_known (l : Label) {events : List (Event K × ℕ)}
    (h : l.machine.isSome = true ∨ ∃ x ∈ events, x.1.isClient = true) :
    (events.foldl (Label.step ctx) l).machine.isSome = true := by
  induction events generalizing l with
  | nil => exact h.resolve_right (by simp)
  | cons x events ih =>
    refine ih (l.step ctx x) ?_
    obtain ⟨event, n⟩ := x
    cases event with
    | testClient arg => exact Or.inl rfl
    | unstrippable | time | testBegin | testEnd | testRunBegin | testRunEnd | sample =>
      refine h.imp_right fun ⟨y, hy, hclient⟩ => ⟨y, (List.mem_cons.mp hy).resolve_left ?_, hclient⟩
      rintro rfl
      contradiction

end

variable [Field K]

/-- Nothing is left behind at the start of a log. -/
def Track.initial : Track K := ⟨.blank, .empty, -1⟩

/-- The collector at a sample on a line: under `-a` the sample may open a run. -/
def Track.opened (ctx : Context K) (t : Track K) (line : ℕ) : Collect.State (Point K) :=
  if (collector ctx).auto && !t.collected.isOpen then t.collected.start (collector ctx) line
  else t.collected

/-- An event lets the parser go on: the line is not empty, the words fit, the end of a test under
`-x` has a machine, and a sample in an open run has memory and a run to go to. -/
def Event.Passes (ctx : Context K) (t : Track K) : Event K × ℕ → Prop
  | (.unstrippable, _) => False
  | (.testClient arg, _) => WordsFit [nameSize, nameSize, machineSize] arg
  | (.testBegin arg, _) => WordsFit [nameSize] arg
  | (.testEnd, _) => ctx.opts.extractResults = true → t.label.machine.isSome = true
  | (.sample _ _, line) =>
    (t.opened ctx line).isOpen = true →
      ctx.env.calloc line = true ∧ (t.opened ctx line).runs.isEmpty = false
  | _ => True

instance (ctx : Context K) (t : Track K) :
    (e : Event K × ℕ) → Decidable (Event.Passes ctx t e)
  | (.unstrippable, _) => isFalse not_false
  | (.testClient arg, _) => inferInstanceAs (Decidable (WordsFit _ arg))
  | (.testBegin arg, _) => inferInstanceAs (Decidable (WordsFit _ arg))
  | (.testEnd, _) => inferInstanceAs (Decidable (_ → _))
  | (.sample _ _, _) => inferInstanceAs (Decidable (_ → _ ∧ _))
  | (.time _, _) | (.testRunBegin, _) | (.testRunEnd, _) => isTrue trivial

variable [LinearOrder K]

/-- What an event leaves behind. -/
def Track.step (ctx : Context K) (t : Track K) (e : Event K × ℕ) : Track K where
  label := t.label.step ctx e
  collected := t.collected.step (collector ctx) (Event.mark ctx t.origin e, e.2)
  origin := Event.origin t.origin e

/-- What a sequence of events leaves behind. -/
def Track.run (ctx : Context K) (t : Track K) (events : List (Event K × ℕ)) : Track K :=
  events.foldl (Track.step ctx) t

/-- Every event of a sequence passes on what those in front of it have left. -/
def AllPass (ctx : Context K) : Track K → List (Event K × ℕ) → Prop
  | _, [] => True
  | t, e :: rest => Event.Passes ctx t e ∧ AllPass ctx (t.step ctx e) rest

instance AllPass.decidable (ctx : Context K) :
    (t : Track K) → (events : List (Event K × ℕ)) → Decidable (AllPass ctx t events)
  | _, [] => isTrue trivial
  | t, e :: rest =>
    have := AllPass.decidable ctx (t.step ctx e) rest
    inferInstanceAs (Decidable (_ ∧ _))

/-- The words that a track leaves behind depend on the words alone. -/
theorem Track.run_label (ctx : Context K) (t : Track K) (events : List (Event K × ℕ)) :
    (t.run ctx events).label = events.foldl (Label.step ctx) t.label := by
  induction events generalizing t with
  | nil => rfl
  | cons x events ih => exact ih (t.step ctx x)

/-- The state of the parser is what the lines have left behind. -/
structure Tracks (s : State K) (t : Track K) : Prop where
  represents : Represents s t.collected
  fits : NamesFit s
  hostname : s.hostname = t.label.hostname
  kernel : s.kernel = t.label.kernel
  test : s.test = t.label.test
  arch : s.arch = t.label.machine.map archOf
  origin : s.startSecs = t.origin

/-- At the start of a log nothing is left behind. -/
theorem tracks_initial : Tracks (.initial : State K) .initial where
  represents := represents_initial
  fits := ⟨by simp [State.initial, nameSize], by simp [State.initial, nameSize],
    by simp [State.initial, nameSize]⟩
  hostname := rfl
  kernel := rfl
  test := rfl
  arch := rfl
  origin := rfl

/-- The words behind a `TEST_CLIENT` fit, whatever fitting names they stand in for, exactly if they
are short enough. -/
theorem clientWords_fits_iff {arg hostname kernel : Text} (hhostname : hostname.length < nameSize)
    (hkernel : kernel.length < nameSize) :
    (clientWords arg hostname kernel).Fits ↔ WordsFit [nameSize, nameSize, machineSize] arg := by
  refine ⟨fun h => ?_, fun h => h.client hhostname hkernel⟩
  rw [clientWords_eq] at h
  unfold WordsFit
  generalize Words.words Scanf.isSpace arg = ws at h ⊢
  obtain ⟨hfirst, hsecond, hthird⟩ := h
  rcases ws with _ | ⟨first, _ | ⟨second, _ | ⟨third, rest⟩⟩⟩
  · simp
  · simpa using hfirst
  · simpa using And.intro hfirst hsecond
  · simpa using And.intro hfirst (And.intro hsecond hthird)

/-- The word behind a `TEST_BEGIN` fits exactly if it is short enough. -/
theorem testWord_fits_iff {arg test : Text} (htest : test.length < nameSize) :
    (testWord arg test).length < nameSize ↔ WordsFit [nameSize] arg := by
  refine ⟨fun h => ?_, fun h => h.test htest⟩
  rw [testWord_eq] at h
  unfold WordsFit
  generalize Words.words Scanf.isSpace arg = ws at h ⊢
  rcases ws with _ | ⟨first, rest⟩
  · simp
  · simpa using h

variable {ctx : Context K} {s : State K} {t : Track K}

/-- The parser goes on exactly with the events that pass. -/
theorem Tracks.exec_next_iff (h : Tracks s t) (e : Event K × ℕ) :
    (∃ u, Event.exec ctx e s = .next u) ↔ Event.Passes ctx t e := by
  obtain ⟨event, line⟩ := e
  cases event with
  | unstrippable => exact iff_of_false (by simp [Event.exec]) not_false
  | time sec => exact iff_of_true ⟨_, rfl⟩ trivial
  | testClient arg =>
    have hnames := h.fits.announce ctx "info:client:" "Client: " arg
    rw [Event.Passes, ← clientWords_fits_iff hnames.hostname hnames.kernel]
    simp only [Event.exec, Statstool.testClient]
    split <;> simp [*]
  | testBegin arg =>
    have hnames := h.fits.announce ctx "info:test-name:" "Test:   " arg
    rw [Event.Passes, ← testWord_fits_iff hnames.test]
    simp only [Event.exec, Statstool.testBegin]
    split <;> simp [*]
  | testEnd =>
    have harch : s.arch ≠ none ↔ t.label.machine.isSome = true := by
      rw [h.arch, ne_eq, Option.map_eq_none_iff, Option.isSome_iff_ne_none]
    rw [Event.Passes, ← harch, Event.exec]
    rcases h.represents.testEnd_cases ctx line with
      ⟨hx, hnone, heq⟩ | ⟨hknown, -, heq⟩ | ⟨hknown, -, pieces, heq⟩
    · exact iff_of_false (by simp [heq]) fun hknown => hknown hx hnone
    · exact iff_of_true ⟨_, heq⟩ hknown
    · exact iff_of_true ⟨_, heq⟩ hknown
  | testRunBegin =>
    obtain ⟨u, hu, -⟩ := h.represents.testRunBegin_eq ctx line
    exact iff_of_true ⟨u, hu⟩ trivial
  | testRunEnd => exact iff_of_true ⟨_, rfl⟩ trivial
  | sample sec text =>
    rw [Event.Passes, List.isEmpty_eq_false_iff]
    rcases h.represents.sample_cases ctx line (sec - s.startSecs) text with
      ⟨hopen, hcalloc, u, hu, -⟩ | ⟨hopen, -, hnil, u, hu, -⟩ | ⟨hroom, u, hu, -⟩
    · refine iff_of_false (by simp [Event.exec, hu]) fun hpass => ?_
      rw [(hpass hopen).1] at hcalloc
      contradiction
    · exact iff_of_false (by simp [Event.exec, hu]) fun hpass => (hpass hopen).2 hnil
    · exact iff_of_true ⟨u, hu⟩ hroom

/-- An event that keeps the words leaves them in the state. -/
theorem Tracks.exec_of_identity (h : Tracks s t) {e : Event K × ℕ} {u : State K}
    (hnext : Event.exec ctx e s = .next u) (hidentity : u.identity = s.identity)
    (hlabel : t.label.step ctx e = t.label) : Tracks u (t.step ctx e) := by
  have hrepresents := h.represents.exec_next hnext
  have horigin := exec_origin ctx e s u hnext
  have hnames := hidentity
  rw [h.origin] at hrepresents horigin
  simp only [State.identity, Prod.mk.injEq] at hnames
  refine ⟨hrepresents, h.fits.of_identity hidentity, ?_, ?_, ?_, ?_, horigin⟩ <;>
    simp only [Track.step, hlabel, hnames, h.hostname, h.kernel, h.test, h.arch]

/-- An announcement leaves the host name, the kernel and the machine. -/
theorem Tracks.testClient (h : Tracks s t) {arg : Text} {line : ℕ} {u : State K}
    (hnext : Event.exec ctx (.testClient arg, line) s = .next u) :
    Tracks u (t.step ctx (.testClient arg, line)) := by
  have hrepresents := h.represents.exec_next hnext
  have horigin := exec_origin ctx _ s u hnext
  have hprint := announce_identity ctx "info:client:" "Client: " arg s
  have hnames := h.fits.announce ctx "info:client:" "Client: " arg
  rw [h.origin] at hrepresents horigin
  simp only [State.identity, Prod.mk.injEq] at hprint
  simp only [Event.exec, Statstool.testClient] at hnext
  split at hnext
  · rename_i hfits
    rw [Outcome.next.injEq] at hnext
    subst hnext
    refine ⟨hrepresents, ⟨hfits.1, hfits.2.1, hnames.test⟩, ?_, ?_, ?_, ?_, horigin⟩ <;>
      simp [Track.step, Label.step, hprint, h.hostname, h.kernel, h.test]
  · contradiction

/-- The beginning of a test leaves its name. -/
theorem Tracks.testBegin (h : Tracks s t) {arg : Text} {line : ℕ} {u : State K}
    (hnext : Event.exec ctx (.testBegin arg, line) s = .next u) :
    Tracks u (t.step ctx (.testBegin arg, line)) := by
  have hrepresents := h.represents.exec_next hnext
  have horigin := exec_origin ctx _ s u hnext
  have hprint := announce_identity ctx "info:test-name:" "Test:   " arg s
  have hnames := h.fits.announce ctx "info:test-name:" "Test:   " arg
  rw [h.origin] at hrepresents horigin
  simp only [State.identity, Prod.mk.injEq] at hprint
  simp only [Event.exec, Statstool.testBegin] at hnext
  split at hnext
  · rename_i hfits
    rw [Outcome.next.injEq] at hnext
    subst hnext
    refine ⟨hrepresents, ⟨hnames.hostname, hnames.kernel, hfits⟩, ?_, ?_, ?_, ?_, horigin⟩ <;>
      simp [Track.step, Label.step, hprint, h.hostname, h.kernel, h.test, h.arch]
  · contradiction

/-- The end of a test leaves empty names and the architecture. -/
theorem Tracks.testEnd (h : Tracks s t) {line : ℕ} {u : State K}
    (hnext : Event.exec ctx (.testEnd, line) s = .next u) :
    Tracks u (t.step ctx (.testEnd, line)) := by
  have hrepresents := h.represents.exec_next hnext
  have horigin := exec_origin ctx _ s u hnext
  rw [h.origin] at hrepresents horigin
  have hended (o : Output K) (heq : Event.exec ctx (.testEnd, line) s = .next (s.emit o).ended) :
      Tracks u (t.step ctx (.testEnd, line)) := by
    rw [heq, Outcome.next.injEq] at hnext
    subst hnext
    exact ⟨hrepresents, ⟨by simp [State.ended, nameSize], by simp [State.ended, nameSize],
      by simp [State.ended, nameSize]⟩, rfl, rfl, rfl, h.arch, horigin⟩
  rcases h.represents.testEnd_cases ctx line with ⟨-, -, heq⟩ | ⟨-, -, heq⟩ | ⟨-, -, pieces, heq⟩
  · rw [Event.exec, heq] at hnext
    contradiction
  · exact hended _ heq
  · exact hended _ heq

/-- An event that goes on leaves in the state what it leaves behind. -/
theorem Tracks.exec (h : Tracks s t) {e : Event K × ℕ} {u : State K}
    (hnext : Event.exec ctx e s = .next u) : Tracks u (t.step ctx e) := by
  obtain ⟨event, line⟩ := e
  cases event with
  | unstrippable => simp [Event.exec] at hnext
  | time sec =>
    have hrepresents := h.represents.exec_next hnext
    have horigin := exec_origin ctx _ s u hnext
    rw [h.origin] at hrepresents horigin
    have hsame : u.hostname = s.hostname ∧ u.kernel = s.kernel ∧ u.test = s.test ∧
        u.arch = s.arch := by
      simp only [Event.exec, Outcome.next.injEq] at hnext
      rw [← hnext, State.originate]
      split <;> exact ⟨rfl, rfl, rfl, rfl⟩
    obtain ⟨hhostname, hkernel, htest, harch⟩ := hsame
    exact ⟨hrepresents, ⟨hhostname ▸ h.fits.hostname, hkernel ▸ h.fits.kernel,
      htest ▸ h.fits.test⟩, hhostname.trans h.hostname, hkernel.trans h.kernel,
      htest.trans h.test, harch.trans h.arch, horigin⟩
  | testClient arg => exact h.testClient hnext
  | testBegin arg => exact h.testBegin hnext
  | testEnd => exact h.testEnd hnext
  | testRunBegin =>
    have hends := testRunBegin_identity line s
    have hrun := hnext
    rw [Event.exec] at hrun
    rw [hrun] at hends
    exact h.exec_of_identity hnext hends rfl
  | testRunEnd =>
    have hsame : u.identity = s.identity := by
      simp only [Event.exec, testRunEnd, Outcome.next.injEq] at hnext
      rw [← hnext]
      rfl
    exact h.exec_of_identity hnext hsame rfl
  | sample sec text =>
    have hends := sample_identity ctx line (sec - s.startSecs) text s
    have hrun : Statstool.sample ctx line (sec - s.startSecs) text s = .next u := hnext
    rw [hrun] at hends
    exact h.exec_of_identity hnext hends rfl

/-- A sequence of events that goes on leaves in the state what it leaves behind. -/
theorem Tracks.forEach (h : Tracks s t) {events : List (Event K × ℕ)} {u : State K}
    (hnext : Imperative.forEach (Event.exec ctx) events s = .next u) :
    Tracks u (t.run ctx events) := by
  induction events generalizing s t with
  | nil =>
    rw [forEach_nil, Outcome.next.injEq] at hnext
    exact hnext ▸ h
  | cons e events ih =>
    obtain ⟨v, hv, hu⟩ := Outcome.bind_eq_next_iff.mp hnext
    exact ih (h.exec hv) hu

/-- The parser goes through a sequence exactly if all its events pass. -/
theorem Tracks.forEach_next_iff (h : Tracks s t) (events : List (Event K × ℕ)) :
    (∃ u, Imperative.forEach (Event.exec ctx) events s = .next u) ↔ AllPass ctx t events := by
  induction events generalizing s t with
  | nil => exact iff_of_true ⟨s, rfl⟩ trivial
  | cons e events ih =>
    rw [AllPass, ← h.exec_next_iff]
    constructor
    · rintro ⟨u, hu⟩
      obtain ⟨v, hv, hu⟩ := Outcome.bind_eq_next_iff.mp hu
      exact ⟨⟨v, hv⟩, (ih (h.exec hv)).mp ⟨u, hu⟩⟩
    · rintro ⟨⟨v, hv⟩, hpass⟩
      obtain ⟨u, hu⟩ := (ih (h.exec hv)).mpr hpass
      exact ⟨u, Outcome.bind_eq_next_iff.mpr ⟨v, hv, hu⟩⟩

/-- A log is read to its end exactly if all its events pass. -/
theorem readLoop_next_iff (ctx : Context K) (lines : List Buffer) :
    (∃ s, readLoop ctx lines .initial = .next s) ↔
      AllPass ctx .initial (logEvents ctx lines) := by
  simp only [readLoop_eq_events]
  exact tracks_initial.forEach_next_iff _

/-! ## Regular logs -/

/-- The words that an event copies are short, and its line is not empty. -/
def Event.Short : Event K → Prop
  | .unstrippable => False
  | .testClient arg => WordsFit [nameSize, nameSize, machineSize] arg
  | .testBegin arg => WordsFit [nameSize] arg
  | _ => True

omit [Field K] [LinearOrder K] in
/-- A handler whose words are short makes a short event. -/
theorem Handler.Short.event {h : Handler} (hshort : h.Short) (sec : K) : (h.event sec).Short := by
  cases h with
  | testClient arg => exact hshort
  | testBegin arg => exact hshort
  | testEnd | testRunBegin | testRunEnd | sample => trivial

omit [LinearOrder K] in
/-- The events of a harmless line are short. -/
theorem Buffer.Harmless.events {raw : Buffer} (h : raw.Harmless) (ctx : Context K) (line : ℕ) :
    ∀ e ∈ lineEvents ctx raw line, e.1.Short := by
  have hstrip : raw.strlen ≠ 0 := fun hzero => h.head (raw.strlen_eq_zero_iff.mp hzero)
  unfold lineEvents
  cases hb : raw.strip with
  | none => simp [Buffer.strip, hstrip] at hb
  | some b =>
    intro e he
    obtain ⟨event, hevent, rfl⟩ := List.mem_map.mp he
    rcases List.mem_cons.mp hevent with rfl | hhandler
    · trivial
    · obtain ⟨handler, hmem, rfl⟩ := List.mem_map.mp hhandler
      exact (h.short b hb handler hmem).event _

/-- A log of harmless lines, with memory for every sample, with a client announced in front of
every end of a test under `-x`, and without a test that ends in an open run. -/
structure Regular (ctx : Context K) (lines : List Buffer) : Prop where
  harmless : ∀ raw ∈ lines, raw.Harmless
  memory : ∀ line, ctx.env.calloc line = true
  announced : ctx.opts.extractResults = true → ∀ e, (.testEnd, e) ∈ logEvents ctx lines →
    ∃ arg c, (.testClient arg, c) ∈ logEvents ctx lines ∧ c ≤ e
  closed : NoFlushOpen (collector ctx) .empty (marks ctx (-1) (logEvents ctx lines))

omit [Field K] [LinearOrder K] in
/-- An event passes if it is short, memory lasts, the machine is known at the end of a test, and the
open run is collected. -/
theorem Event.Short.passes {e : Event K × ℕ} (h : e.1.Short)
    (hmemory : ctx.env.calloc e.2 = true)
    (hknown : ctx.opts.extractResults = true → e.1.isEnd = true →
      t.label.machine.isSome = true)
    (hback : t.collected.Backed) : Event.Passes ctx t e := by
  obtain ⟨event, line⟩ := e
  cases event with
  | unstrippable => exact h
  | testClient arg => exact h
  | testBegin arg => exact h
  | testEnd => exact fun hx => hknown hx rfl
  | sample sec text =>
    have hopened : (t.opened ctx line).Backed := by
      unfold Track.opened
      split
      · exact hback.start _ _
      · exact hback
    exact fun hopen => ⟨hmemory, List.isEmpty_eq_false_iff.mpr (hopened hopen)⟩
  | time | testRunBegin | testRunEnd => trivial

/-- A sequence passes if its events are short, memory lasts, every end of a test has a machine and
none meets an open run. -/
theorem allPass_of_short {events : List (Event K × ℕ)} (hshort : ∀ e ∈ events, e.1.Short)
    (hmemory : ∀ line, ctx.env.calloc line = true)
    (hknown : ctx.opts.extractResults = true → ∀ front e back, events = front ++ e :: back →
      e.1.isEnd = true → t.label.machine.isSome = true ∨ ∃ x ∈ front, x.1.isClient = true)
    (hclosed : NoFlushOpen (collector ctx) t.collected (marks ctx t.origin events))
    (hback : t.collected.Backed) : AllPass ctx t events := by
  induction events generalizing t with
  | nil => trivial
  | cons e events ih =>
    refine ⟨(hshort e List.mem_cons_self).passes (hmemory _) (fun hx hend => ?_) hback,
      ih (fun x hx => hshort x (List.mem_cons_of_mem e hx)) (fun hx front x back hsplit hend => ?_)
        hclosed.2 (hback.step _ _ hclosed.1)⟩
    · exact (hknown hx [] e events rfl hend).resolve_right (by simp)
    · have hstep (h : t.label.machine.isSome = true ∨ ∃ y ∈ [e], y.1.isClient = true) :
          (t.step ctx e).label.machine.isSome = true := Label.foldl_known t.label h
      rcases hknown hx (e :: front) x back (by rw [hsplit]; rfl) hend with hmachine | ⟨y, hy, hclient⟩
      · exact Or.inl (hstep (Or.inl hmachine))
      · rcases List.mem_cons.mp hy with rfl | hy
        · exact Or.inl (hstep (Or.inr ⟨y, List.mem_singleton_self y, hclient⟩))
        · exact Or.inr ⟨y, hy, hclient⟩

/-- Regular logs are read to their end. -/
theorem Regular.allPass {lines : List Buffer} (h : Regular ctx lines) :
    AllPass ctx .initial (logEvents ctx lines) := by
  refine allPass_of_short (fun e he => ?_) h.memory (fun hx front e back hsplit hend => ?_) h.closed
    fun hopen => absurd hopen Bool.false_ne_true
  · obtain ⟨⟨raw, line⟩, hraw, he⟩ := List.mem_flatMap.mp he
    have hmem := List.mem_of_getElem? (List.mem_zipIdx_iff_getElem?.mp hraw)
    exact (h.harmless raw hmem).events ctx line e he
  · obtain ⟨event, n⟩ := e
    obtain rfl := Event.eq_testEnd hend
    obtain ⟨arg, c, hclient, hcn⟩ := h.announced hx n (by simp [hsplit])
    have hlt : Precedes (.testClient arg, c) ((.testEnd, n) : Event K × ℕ) :=
      precedes_end (by simp [Event.rank]) hcn
    have hsorted := logEvents_sorted ctx lines
    rw [hsplit] at hsorted hclient
    have hafter := (List.pairwise_cons.mp (List.pairwise_append.mp hsorted).2.1).1
    refine Or.inr ⟨(.testClient arg, c), ?_, rfl⟩
    rcases List.mem_append.mp hclient with hmem | hmem
    · exact hmem
    · rcases List.mem_cons.mp hmem with heq | hmem
      · exact absurd (congrArg (·.1.isEnd) heq) Bool.false_ne_true
      · exact absurd hlt (Precedes.asymm _ _ (hafter _ hmem))

end

end FlukeTesting.Statstool
