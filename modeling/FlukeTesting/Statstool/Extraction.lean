import FlukeTesting.Statstool.Attribution
import FlukeTesting.Statstool.Passing

/-!
# Whose report a file holds

Under `-x`, the end of a test writes its report over the file of that name. The name joins the
host name, the kernel, the first word of the test name and the architecture by hyphens, and behind
the first test since an announcement the first two are empty. So no report of a log is lost exactly
if every test makes its report, and different tests differ in the family of their machines or in
the pieces between the hyphens.
-/

namespace FlukeTesting.Statstool

open Imperative Collect Scanf

/-- The name of a test as it is sent, which is not blank. -/
structure TestName where
  text : Text
  notBlank : (scanWord text).isSome = true

/-- The part of the name of a test that is read. -/
def TestName.firstWord (name : TestName) : Text := testWord name.text []

/-- The handler reads the first word of a name, whatever the variable held. -/
theorem TestName.testWord_text (name : TestName) (test : Text) :
    testWord name.text test = name.firstWord := by
  obtain ⟨⟨word, rest⟩, hword⟩ := Option.isSome_iff_exists.mp name.notBlank
  simp [TestName.firstWord, testWord, testFormat, sscanf, hword]

/-- A test on a client. -/
structure Test where
  client : Client
  name : TestName

/-- What tells tests apart: the client as it was announced and the full name. -/
def Test.identity (test : Test) : Text × Text × Text × Text :=
  (test.client.hostname, test.client.kernel, test.client.machine, test.name.text)

/-- The name of the file of a test behind the announcement of its client. -/
def Test.file (test : Test) : Text :=
  reportName test.client.hostname test.client.kernel test.name.firstWord test.client.arch

/-! ## When two names are the same -/

/-- Machines of one family: both start with `x86_64`, both with `i`, or neither with either. -/
def SameFamily (machine machine' : Text) : Prop :=
  ("x86_64".toList <+: machine ↔ "x86_64".toList <+: machine') ∧
    ("i".toList <+: machine ↔ "i".toList <+: machine')

instance (machine machine' : Text) : Decidable (SameFamily machine machine') :=
  inferInstanceAs (Decidable ((_ ↔ _) ∧ (_ ↔ _)))

/-- A machine that starts with `x86_64` does not start with `i`. -/
theorem not_prefix_i {machine : Text} (h : "x86_64".toList <+: machine) :
    ¬ "i".toList <+: machine := by
  rintro ⟨rest, rfl⟩
  obtain ⟨rest', hsame⟩ := h
  exact absurd (List.cons.inj hsame).1 (by decide)

/-- Machines have one architecture if they are of one family. -/
theorem archOf_eq_iff (machine machine' : Text) :
    archOf machine = archOf machine' ↔ SameFamily machine machine' := by
  have harch (m : Text) : archOf m =
      if "x86_64".toList <+: m then .amd64 else if "i".toList <+: m then .i386 else .unknown := by
    simp only [archOf, List.isPrefixOf_iff_prefix]
  rw [harch, harch, SameFamily]
  by_cases hx : "x86_64".toList <+: machine
  · have hi := not_prefix_i hx
    by_cases hx' : "x86_64".toList <+: machine'
    · have hi' := not_prefix_i hx'
      simp only [hx, hx', hi, hi', if_true, and_self]
    · simp only [hx, hx', if_true, if_false, iff_false, not_true, false_and]
      split <;> decide
  · by_cases hx' : "x86_64".toList <+: machine'
    · simp only [hx, hx', if_true, if_false, false_iff, not_true, false_and]
      split <;> decide
    · simp only [hx, hx', if_false, true_and]
      by_cases hi : "i".toList <+: machine <;> by_cases hi' : "i".toList <+: machine' <;>
        simp only [hi, hi', if_true, if_false] <;> decide

/-- The pieces between the hyphens of the words that name a report. -/
def Label.pieces (l : Label) : List Text :=
  l.hostname.splitOn '-' ++ l.kernel.splitOn '-' ++ l.test.splitOn '-'

/-- Two reports get one name: their words have the same pieces in the same order, and their machines
are of one family. -/
def Label.Collides (l l' : Label) : Prop :=
  l.pieces = l'.pieces ∧ ∃ machine ∈ l.machine, ∃ machine' ∈ l'.machine,
    SameFamily machine machine'

/-- The name of the file of a report. -/
def Label.file (l : Label) : Option Text :=
  l.machine.map fun machine => reportName l.hostname l.kernel l.test (archOf machine)

/-- The last letters of the architectures are different. -/
theorem Arch.eq_of_getLast? {a b : Arch} (h : a.text.getLast? = b.text.getLast?) : a = b := by
  cases a <;> cases b <;> first | rfl | exact absurd h (by decide)

/-- Names of reports are the same exactly if the pieces of their words and their architectures
are. -/
theorem reportName_eq_iff (hostname kernel test hostname' kernel' test' : Text)
    (arch arch' : Arch) :
    reportName hostname kernel test arch = reportName hostname' kernel' test' arch' ↔
      hostname.splitOn '-' ++ kernel.splitOn '-' ++ test.splitOn '-' =
        hostname'.splitOn '-' ++ kernel'.splitOn '-' ++ test'.splitOn '-' ∧ arch = arch' := by
  have hstem (h k t : Text) : (h ++ '-' :: k ++ '-' :: t).splitOn '-' =
      h.splitOn '-' ++ k.splitOn '-' ++ t.splitOn '-' := by
    rw [List.splitOn_append_cons_self, List.splitOn_append_cons_self]
  have hlast (stem : Text) (a : Arch) : (stem ++ '-' :: a.text).getLast? = a.text.getLast? := by
    have hne : a.text ≠ [] := by cases a <;> decide
    rw [← List.singleton_append, ← List.append_assoc, List.getLast?_append_of_ne_nil _ hne]
  rw [← hstem, ← hstem, reportName, reportName]
  constructor
  · intro h
    have hname := List.append_cancel_right h
    have harch : arch = arch' := Arch.eq_of_getLast? (by rw [← hlast _ arch, hname, hlast])
    rw [harch] at hname
    exact ⟨congrArg _ (List.append_cancel_right hname), harch⟩
  · rintro ⟨hpieces, rfl⟩
    have hjoined := congrArg (List.intercalate ['-']) hpieces
    rw [List.intercalate_splitOn, List.intercalate_splitOn] at hjoined
    rw [hjoined]

/-- Two reports with their machines go to one file exactly if their labels collide. -/
theorem Label.file_eq_iff {l l' : Label} (h : l.machine.isSome = true)
    (h' : l'.machine.isSome = true) : l.file = l'.file ↔ l.Collides l' := by
  obtain ⟨machine, hm⟩ := Option.isSome_iff_exists.mp h
  obtain ⟨machine', hm'⟩ := Option.isSome_iff_exists.mp h'
  simp [file, Collides, pieces, hm, hm', reportName_eq_iff, archOf_eq_iff]

section

variable {K : Type*}

/-- What the file of a name holds after the reports were written one over the other. -/
def fileContent (reports : List (Report K)) (name : Option Text) : Option (Report K) :=
  reports.reverse.find? fun r => decide (r.file = name)

variable [Field K]

/-- The `TEST_END` on line `e` ends the given test: the test is the one that began last and no other
one has ended since, and its client is the one that was announced last, in front of it. -/
def Completed (ctx : Context K) (lines : List Buffer) (test : Test) (e : ℕ) : Prop :=
  ∃ c b, LatestClient ctx lines test.client c e ∧ c ≤ b ∧
    Latest Event.isBegin ctx lines (.testBegin test.name.text) b e ∧ FirstEnd ctx lines b e

/-- The words that name the file of a test at its end: the first word of its name and, unless a test
has ended since its client was announced, the host name and the kernel of this. -/
def NamedBy (ctx : Context K) (lines : List Buffer) (test : Test) (e : ℕ) (l : Label) : Prop :=
  ∃ c b, LatestClient ctx lines test.client c e ∧ c ≤ b ∧
    Latest Event.isBegin ctx lines (.testBegin test.name.text) b e ∧ FirstEnd ctx lines b e ∧
    l.machine = some test.client.machine ∧ l.test = test.name.firstWord ∧
    (FirstEnd ctx lines c e → l.hostname = test.client.hostname ∧ l.kernel = test.client.kernel) ∧
    (¬ FirstEnd ctx lines c e → l.hostname = [] ∧ l.kernel = [])

/-- The events in front of the end of a test. -/
def eventsBefore (ctx : Context K) (lines : List Buffer) (e : ℕ) : List (Event K × ℕ) :=
  (logEvents ctx lines).takeWhile fun x => !(x.1.isEnd && decide (x.2 = e))

variable [LinearOrder K]

/-- What the lines have left behind at the end of a test. -/
def trackAt (ctx : Context K) (lines : List Buffer) (e : ℕ) : Track K :=
  Track.initial.run ctx (eventsBefore ctx lines e)

/-- The words that are announced at the end of a test. -/
def labelAt (ctx : Context K) (lines : List Buffer) (e : ℕ) : Label := (trackAt ctx lines e).label

/-- The end of a test makes its report: nothing in front of it stops the parser, a client was
announced at all, and its file can be created. -/
structure Written (ctx : Context K) (lines : List Buffer) (e : ℕ) : Prop where
  isEnd : (.testEnd, e) ∈ logEvents ctx lines
  passes : AllPass ctx .initial (eventsBefore ctx lines e)
  announced : ∃ arg c, (.testClient arg, c) ∈ logEvents ctx lines ∧ c ≤ e
  created : ctx.env.fopen e = true

/-- Different tests are written to different files. The report of every test is written, the ones
that are written over it later are of the same test, and so is the one that the file holds in the
end. -/
structure Extracted (ctx : Context K) (lines : List Buffer) : Prop where
  distinct : ∀ test e test' e', Completed ctx lines test e → Completed ctx lines test' e' →
    test.identity ≠ test'.identity →
      ∀ r ∈ (readLoop ctx lines .initial).state.reports,
        ∀ r' ∈ (readLoop ctx lines .initial).state.reports,
          r.line = e → r'.line = e' → r.file ≠ r'.file
  kept : ∀ test e, Completed ctx lines test e →
    ∃ front r back, (readLoop ctx lines .initial).state.reports = front ++ r :: back ∧ r.line = e ∧
      (∀ later ∈ back, later.file = r.file →
        ∃ test', Completed ctx lines test' later.line ∧ test'.identity = test.identity) ∧
      ∃ last test', fileContent (readLoop ctx lines .initial).state.reports r.file = some last ∧
        Completed ctx lines test' last.line ∧ test'.identity = test.identity

/-- Every completed test makes its report, and the name of its file is that of no different test and
of no later report that is not one of a completed test. -/
structure KeepsApart (ctx : Context K) (lines : List Buffer) : Prop where
  written : ∀ test e, Completed ctx lines test e → Written ctx lines e
  apart : ∀ test e l test' e' l', NamedBy ctx lines test e l → NamedBy ctx lines test' e' l' →
    test.identity ≠ test'.identity → ¬ l.Collides l'
  stray : ∀ test e l e', NamedBy ctx lines test e l → e < e' → Written ctx lines e' →
    (∀ test', ¬ Completed ctx lines test' e') → ¬ l.Collides (labelAt ctx lines e')

/-! ## The words of a completed test -/

section

variable {ctx : Context K} {lines : List Buffer} {e : ℕ}

omit [LinearOrder K] in
/-- The log goes on from the events in front of an end of a test with this end. -/
theorem eventsBefore_append (he : (.testEnd, e) ∈ logEvents ctx lines) :
    ∃ back, logEvents ctx lines = eventsBefore ctx lines e ++ (.testEnd, e) :: back := by
  have hsplit := List.takeWhile_append_dropWhile
    (p := fun x : Event K × ℕ => !(x.1.isEnd && decide (x.2 = e))) (l := logEvents ctx lines)
  cases hback : (logEvents ctx lines).dropWhile
      fun x : Event K × ℕ => !(x.1.isEnd && decide (x.2 = e)) with
  | nil =>
    rw [List.dropWhile_eq_nil_iff] at hback
    have hnot := hback _ he
    simp [Event.isEnd] at hnot
  | cons x back =>
    have hx := List.head_dropWhile_not (fun x : Event K × ℕ => !(x.1.isEnd && decide (x.2 = e)))
      (l := logEvents ctx lines) (by rw [hback]; exact List.cons_ne_nil _ _)
    simp only [hback, List.head_cons, Bool.not_eq_false', Bool.and_eq_true,
      decide_eq_true_iff] at hx
    obtain ⟨event, n⟩ := x
    obtain rfl : event = .testEnd := Event.eq_testEnd hx.1
    obtain rfl : n = e := hx.2
    exact ⟨back, by rw [← hsplit, hback]; rfl⟩

/-- The words at an end of a test are those behind an earlier event, changed by the events
between. -/
theorem labelAt_split {x : Event K × ℕ} (he : (.testEnd, e) ∈ logEvents ctx lines)
    (hx : x ∈ logEvents ctx lines) (hxe : Precedes x (.testEnd, e)) :
    ∃ (l : Label) (mid : List (Event K × ℕ)),
      labelAt ctx lines e = mid.foldl (Label.step ctx) (Label.step ctx l x) ∧
      ∀ y, y ∈ mid ↔ y ∈ logEvents ctx lines ∧ Precedes x y ∧ Precedes y (.testEnd, e) := by
  obtain ⟨back, hsplit⟩ := eventsBefore_append he
  have hsorted := logEvents_sorted ctx lines
  rw [hsplit] at hsorted
  obtain ⟨hbefore, hbehind, hacross⟩ := List.pairwise_append.mp hsorted
  have hin (y : Event K × ℕ) : y ∈ eventsBefore ctx lines e ↔
      y ∈ logEvents ctx lines ∧ Precedes y (.testEnd, e) := by
    rw [hsplit, List.mem_append, List.mem_cons]
    refine ⟨fun h => ⟨Or.inl h, hacross y h _ List.mem_cons_self⟩, fun ⟨h, hlt⟩ => ?_⟩
    rcases h with h | rfl | h
    · exact h
    · exact absurd hlt (Precedes.asymm _ _ hlt)
    · exact absurd hlt (Precedes.asymm _ _ ((List.pairwise_cons.mp hbehind).1 y h))
  obtain ⟨front, mid, hmid⟩ := List.append_of_mem ((hin x).mpr ⟨hx, hxe⟩)
  refine ⟨front.foldl (Label.step ctx) Label.blank, mid, ?_, fun y => ?_⟩
  · rw [labelAt, trackAt, Track.run_label, hmid, List.foldl_append]
    rfl
  · rw [hmid] at hbefore
    obtain ⟨-, hrest, hfront⟩ := List.pairwise_append.mp hbefore
    have hafter := (List.pairwise_cons.mp hrest).1
    rw [and_left_comm, ← hin, hmid, List.mem_append, List.mem_cons]
    refine ⟨fun h => ⟨hafter y h, Or.inr (Or.inr h)⟩, fun ⟨hxy, h⟩ => ?_⟩
    rcases h with h | rfl | h
    · exact absurd hxy (Precedes.asymm _ _ (hfront y h x List.mem_cons_self))
    · exact absurd hxy (Precedes.asymm _ _ hxy)
    · exact h

/-- The words at an end of a test are those of the client that was announced last, changed by the
events between. -/
theorem LatestClient.labelAt_split {client : Client} {c : ℕ}
    (h : LatestClient ctx lines client c e) (he : (.testEnd, e) ∈ logEvents ctx lines) :
    ∃ (l : Label) (mid : List (Event K × ℕ)),
      labelAt ctx lines e = mid.foldl (Label.step ctx) { l with
        hostname := client.hostname
        kernel := client.kernel
        machine := some client.machine } ∧
      (∀ x ∈ mid, x.1.isClient = false) ∧
      ∀ x ∈ mid, x ∈ logEvents ctx lines ∧ Precedes (.testClient client.arg, c) x ∧
        Precedes x (.testEnd, e) := by
  obtain ⟨l, mid, hlabel, hmid⟩ :=
    Statstool.labelAt_split he h.1 (precedes_end (by simp [Event.rank]) h.2.1)
  refine ⟨l, mid, ?_, fun x hx => ?_, fun x hx => (hmid x).mp hx⟩
  · rw [hlabel]
    simp [Label.step, client.clientWords_arg]
  · obtain ⟨hmem, hafter, hbefore⟩ := (hmid x).mp hx
    exact h.isClient_eq_false hmem hafter hbefore.le

/-- At an end of a test the machine is that of the client that was announced last. -/
theorem LatestClient.labelAt_machine {client : Client} {c : ℕ}
    (h : LatestClient ctx lines client c e) (he : (.testEnd, e) ∈ logEvents ctx lines) :
    (labelAt ctx lines e).machine = some client.machine := by
  obtain ⟨l, mid, hlabel, hclient, -⟩ := h.labelAt_split he
  rw [hlabel, Label.foldl_machine _ hclient]

/-- At the first end since its client was announced a test has the names of the client. -/
theorem LatestClient.labelAt_names {client : Client} {c : ℕ}
    (h : LatestClient ctx lines client c e) (hfirst : FirstEnd ctx lines c e) :
    (labelAt ctx lines e).hostname = client.hostname ∧
      (labelAt ctx lines e).kernel = client.kernel := by
  obtain ⟨l, mid, hlabel, hclient, hmid⟩ := h.labelAt_split hfirst.1
  rw [hlabel]
  exact Label.foldl_client _ hclient fun x hx => by
    obtain ⟨hmem, hafter, hbefore⟩ := hmid x hx
    exact hfirst.isEnd_eq_false hmem hafter.le hbefore

/-- At a later end these names are empty. -/
theorem LatestClient.labelAt_cleared {client : Client} {c : ℕ}
    (h : LatestClient ctx lines client c e) (he : (.testEnd, e) ∈ logEvents ctx lines)
    (hlate : ¬ FirstEnd ctx lines c e) :
    (labelAt ctx lines e).hostname = [] ∧ (labelAt ctx lines e).kernel = [] := by
  obtain ⟨n, hn, hcn, hne⟩ : ∃ n, (.testEnd, n) ∈ logEvents ctx lines ∧ c ≤ n ∧ n < e := by
    by_contra hnone
    refine hlate ⟨he, h.2.1, fun x hx hend hcx => ?_⟩
    obtain ⟨event, n⟩ := x
    obtain rfl := Event.eq_testEnd hend
    by_contra hlt
    exact hnone ⟨n, hx, hcx, Nat.lt_of_not_le hlt⟩
  obtain ⟨l, mid, hlabel, hmid⟩ := Statstool.labelAt_split he hn (Or.inl hne)
  rw [hlabel]
  refine Label.foldl_cleared _ (fun x hx => ?_) ⟨rfl, rfl⟩
  obtain ⟨hmem, hafter, hbefore⟩ := (hmid x).mp hx
  exact h.isClient_eq_false hmem ((precedes_end (by simp [Event.rank]) hcn).trans hafter) hbefore.le

/-- At the first end since it began a test has the first word of its name. -/
theorem labelAt_test {name : TestName} {b : ℕ}
    (hbegin : Latest Event.isBegin ctx lines (.testBegin name.text) b e)
    (hfirst : FirstEnd ctx lines b e) : (labelAt ctx lines e).test = name.firstWord := by
  obtain ⟨l, mid, hlabel, hmid⟩ := labelAt_split hfirst.1 hbegin.1
    (precedes_end (by simp [Event.rank]) hbegin.2.1)
  rw [hlabel, Label.foldl_test]
  · exact name.testWord_text l.test
  · intro x hx
    obtain ⟨hmem, hafter, hbefore⟩ := (hmid x).mp hx
    exact hbegin.kind_eq_false (fun _ hf => (Event.rank_of_isBegin hf).le) hmem hafter hbefore.le
  · intro x hx
    obtain ⟨hmem, hafter, hbefore⟩ := (hmid x).mp hx
    exact hfirst.isEnd_eq_false hmem hafter.le hbefore

/-- A completed test is named by its machine, the first word of its name, and its client if no test
has ended since the client was announced. -/
theorem labelAt_eq {test : Test} {c b : ℕ} (hlatest : LatestClient ctx lines test.client c e)
    (hbegin : Latest Event.isBegin ctx lines (.testBegin test.name.text) b e)
    (hfirst : FirstEnd ctx lines b e) :
    (labelAt ctx lines e).machine = some test.client.machine ∧
      (labelAt ctx lines e).test = test.name.firstWord ∧
      (FirstEnd ctx lines c e → (labelAt ctx lines e).hostname = test.client.hostname ∧
        (labelAt ctx lines e).kernel = test.client.kernel) ∧
      (¬ FirstEnd ctx lines c e → (labelAt ctx lines e).hostname = [] ∧
        (labelAt ctx lines e).kernel = []) :=
  ⟨hlatest.labelAt_machine hfirst.1, labelAt_test hbegin hfirst, hlatest.labelAt_names,
    hlatest.labelAt_cleared hfirst.1⟩

omit [LinearOrder K] in
/-- A test whose file is named is completed. -/
theorem NamedBy.completed {test : Test} {l : Label} (h : NamedBy ctx lines test e l) :
    Completed ctx lines test e := by
  obtain ⟨c, b, hlatest, hcb, hbegin, hfirst, -⟩ := h
  exact ⟨c, b, hlatest, hcb, hbegin, hfirst⟩

/-- A completed test is named by the words that are announced at its end. -/
theorem Completed.named {test : Test} (h : Completed ctx lines test e) :
    NamedBy ctx lines test e (labelAt ctx lines e) := by
  obtain ⟨c, b, hlatest, hcb, hbegin, hfirst⟩ := h
  exact ⟨c, b, hlatest, hcb, hbegin, hfirst, Statstool.labelAt_eq hlatest hbegin hfirst⟩

/-- No other words name a completed test. -/
theorem NamedBy.eq_labelAt {test : Test} {l : Label} (h : NamedBy ctx lines test e l) :
    l = labelAt ctx lines e := by
  obtain ⟨c, b, hlatest, -, hbegin, hfirst, hmachine, htest, hclient, hcleared⟩ := h
  obtain ⟨hmachine', htest', hclient', hcleared'⟩ :=
    Statstool.labelAt_eq hlatest hbegin hfirst
  have hwords : l.hostname = (labelAt ctx lines e).hostname ∧
      l.kernel = (labelAt ctx lines e).kernel := by
    by_cases hfirstEnd : FirstEnd ctx lines c e
    · rw [(hclient hfirstEnd).1, (hclient hfirstEnd).2, (hclient' hfirstEnd).1,
        (hclient' hfirstEnd).2]
      exact ⟨rfl, rfl⟩
    · rw [(hcleared hfirstEnd).1, (hcleared hfirstEnd).2, (hcleared' hfirstEnd).1,
        (hcleared' hfirstEnd).2]
      exact ⟨rfl, rfl⟩
  exact Label.ext hwords.1 hwords.2 (htest.trans htest'.symm) (hmachine.trans hmachine'.symm)

/-- At the end of a test a machine is known exactly if a client was announced in front of it. -/
theorem labelAt_machine_iff (he : (.testEnd, e) ∈ logEvents ctx lines) :
    (labelAt ctx lines e).machine.isSome = true ↔
      ∃ arg c, (.testClient arg, c) ∈ logEvents ctx lines ∧ c ≤ e := by
  constructor
  · intro h
    by_contra hnone
    have hclient : ∀ x ∈ eventsBefore ctx lines e, x.1.isClient = false := by
      intro x hx
      rw [← Bool.not_eq_true]
      intro hkind
      obtain ⟨back, hsplit⟩ := eventsBefore_append he
      have hsorted := logEvents_sorted ctx lines
      rw [hsplit] at hsorted
      have hlt := (List.pairwise_append.mp hsorted).2.2 x hx _ List.mem_cons_self
      obtain ⟨event, c⟩ := x
      obtain ⟨arg, rfl⟩ := Event.eq_testClient hkind
      refine hnone ⟨arg, c, ?_, hlt.le⟩
      rw [hsplit]
      exact List.mem_append_left _ hx
    have hblank : (labelAt ctx lines e).machine = none := by
      rw [labelAt, trackAt, Track.run_label]
      exact Label.foldl_machine .blank hclient
    rw [hblank] at h
    contradiction
  · rintro ⟨arg, c, hclient, hce⟩
    obtain ⟨l, mid, hlabel, -⟩ := labelAt_split he hclient
      (precedes_end (by simp [Event.rank]) hce)
    rw [hlabel]
    exact Label.foldl_known _ (Or.inl rfl)

/-- A test is completed as the first one since its client was announced. -/
def Introduced (ctx : Context K) (lines : List Buffer) (test : Test) (e : ℕ) : Prop :=
  ∃ c b, LatestClient ctx lines test.client c e ∧ c ≤ b ∧
    Latest Event.isBegin ctx lines (.testBegin test.name.text) b e ∧ FirstEnd ctx lines c e

omit [LinearOrder K] in
/-- The first end since a line is the first one since every later line up to it. -/
theorem FirstEnd.later {c b : ℕ} (h : FirstEnd ctx lines c e) (hcb : c ≤ b) (hbe : b ≤ e) :
    FirstEnd ctx lines b e :=
  ⟨h.1, hbe, fun x hx hend hb => h.2.2 x hx hend (hcb.trans hb)⟩

omit [LinearOrder K] in
/-- A test that is introduced is completed. -/
theorem Introduced.completed {test : Test} (h : Introduced ctx lines test e) :
    Completed ctx lines test e := by
  obtain ⟨c, b, hlatest, hcb, hbegin, hfirst⟩ := h
  exact ⟨c, b, hlatest, hcb, hbegin, hfirst.later hcb hbegin.2.1⟩

/-- A test that is introduced is named by its client and the first word of its name. -/
theorem Introduced.labelAt_eq {test : Test} (h : Introduced ctx lines test e) :
    labelAt ctx lines e = ⟨test.client.hostname, test.client.kernel, test.name.firstWord,
      some test.client.machine⟩ := by
  obtain ⟨c, b, hlatest, hcb, hbegin, hfirst⟩ := h
  obtain ⟨hmachine, htest, hclient, -⟩ :=
    Statstool.labelAt_eq hlatest hbegin (hfirst.later hcb hbegin.2.1)
  obtain ⟨hhostname, hkernel⟩ := hclient hfirst
  rw [← hmachine, ← htest, ← hhostname, ← hkernel]

/-- Tests on one client whose names have the same first word collide. -/
theorem Introduced.collides {test test' : Test} {e' : ℕ} (h : Introduced ctx lines test e)
    (h' : Introduced ctx lines test' e') (hclient : test.client = test'.client)
    (hname : test.name.firstWord = test'.name.firstWord) :
    (labelAt ctx lines e).Collides (labelAt ctx lines e') := by
  rw [h.labelAt_eq, h'.labelAt_eq, hclient, hname]
  exact ⟨rfl, _, rfl, _, rfl, Iff.rfl, Iff.rfl⟩

end

/-! ## The reports of completed tests -/

section

variable {ctx : Context K} {lines : List Buffer} {e : ℕ}

/-- The parser meets the end of a test behind the events in front of it. -/
theorem Meets.eventsBefore {s : State K} (h : Meets ctx lines (.testEnd, e) s) :
    forEach (Event.exec ctx) (Statstool.eventsBefore ctx lines e) .initial = .next s := by
  obtain ⟨back, hsplit⟩ := eventsBefore_append h.mem
  have hnodup := logEvents_nodup ctx lines
  obtain ⟨front, back', hsplit', hs⟩ := h
  rw [hsplit', List.nodup_append, List.nodup_cons] at hnodup
  have hfront : ((.testEnd, e) : Event K × ℕ) ∉ front :=
    fun h => hnodup.2.2 _ h _ List.mem_cons_self rfl
  rw [hsplit', List.append_cons_inj_of_notMem hfront hnodup.2.1.1] at hsplit
  rw [← hsplit.1, hs]

/-- At the end of a test the variables hold what the lines have left behind. -/
theorem Meets.tracks {s : State K} (h : Meets ctx lines (.testEnd, e) s) :
    Tracks s (trackAt ctx lines e) := tracks_initial.forEach h.eventsBefore

/-- The end of a test makes a report exactly if it is written. -/
theorem written_iff (hx : ctx.opts.extractResults = true) :
    Written ctx lines e ↔ ∃ r ∈ (readLoop ctx lines .initial).state.reports, r.line = e := by
  constructor
  · intro h
    obtain ⟨back, hsplit⟩ := eventsBefore_append h.isEnd
    obtain ⟨s, hs⟩ := (tracks_initial.forEach_next_iff _).mpr h.passes
    have hmeets : Meets ctx lines (.testEnd, e) s := ⟨_, back, hsplit, hs⟩
    have harch : s.arch ≠ none := by
      rw [hmeets.tracks.arch, ne_eq, Option.map_eq_none_iff, ← ne_eq, ← Option.isSome_iff_ne_none]
      exact (labelAt_machine_iff h.isEnd).mpr h.announced
    exact ⟨_, hmeets.mem_reports ⟨fun _ => harch, by simp [Context.written, h.created]⟩, rfl⟩
  · rintro ⟨r, hr, rfl⟩
    obtain ⟨n, s, hmeets, ⟨harch, hwritten⟩, rfl⟩ := (mem_reports_iff ctx lines r).mp hr
    refine ⟨hmeets.mem, (tracks_initial.forEach_next_iff _).mp ⟨s, hmeets.eventsBefore⟩, ?_, ?_⟩
    · have hknown := harch hx
      rw [hmeets.tracks.arch, ne_eq, Option.map_eq_none_iff] at hknown
      exact (labelAt_machine_iff hmeets.mem).mp (Option.isSome_iff_ne_none.mpr hknown)
    · have hopen : ctx.env.fopen n = true := by simpa [Context.written, hx] using hwritten
      exact hopen

/-- The report of the end of a test goes to the file that its label names. -/
theorem file_eq_label (hx : ctx.opts.extractResults = true) {r : Report K}
    (hr : r ∈ (readLoop ctx lines .initial).state.reports) :
    r.file = (labelAt ctx lines r.line).file := by
  obtain ⟨n, s, hmeets, ⟨harch, -⟩, rfl⟩ := (mem_reports_iff ctx lines r).mp hr
  have htracks := hmeets.tracks
  have hknown := harch hx
  rw [htracks.arch, ne_eq, Option.map_eq_none_iff] at hknown
  obtain ⟨machine, hmachine⟩ := Option.ne_none_iff_exists'.mp hknown
  have hlabel : (labelAt ctx lines n).machine = some machine := hmachine
  simp only [State.endReport, hx, if_true, Label.file, hlabel, htracks.hostname, htracks.kernel,
    htracks.test, htracks.arch, hmachine, Option.map_some, Option.getD_some]
  rfl

/-- Two reports go to one file exactly if their labels collide. -/
theorem file_eq_iff (hx : ctx.opts.extractResults = true) {r r' : Report K}
    (hr : r ∈ (readLoop ctx lines .initial).state.reports)
    (hr' : r' ∈ (readLoop ctx lines .initial).state.reports) :
    r.file = r'.file ↔ (labelAt ctx lines r.line).Collides (labelAt ctx lines r'.line) := by
  have hknown (r : Report K) (hr : r ∈ (readLoop ctx lines .initial).state.reports) :
      (labelAt ctx lines r.line).machine.isSome = true := by
    have hwritten := (written_iff hx).mpr ⟨r, hr, rfl⟩
    exact (labelAt_machine_iff hwritten.isEnd).mpr hwritten.announced
  rw [file_eq_label hx hr, file_eq_label hx hr', Label.file_eq_iff (hknown r hr) (hknown r' hr')]

/-- The reports behind a report are those of later lines. -/
theorem mem_back_iff {front back : List (Report K)} {r : Report K}
    (hsplit : (readLoop ctx lines .initial).state.reports = front ++ r :: back) (r' : Report K) :
    r' ∈ back ↔ r' ∈ (readLoop ctx lines .initial).state.reports ∧ r.line < r'.line := by
  have hsorted := readLoop_reports_sorted ctx lines
  rw [List.pairwise_map, hsplit] at hsorted
  obtain ⟨-, hback, hacross⟩ := List.pairwise_append.mp hsorted
  have hafter := (List.pairwise_cons.mp hback).1
  rw [hsplit]
  refine ⟨fun h => ⟨by simp [h], hafter r' h⟩, fun ⟨hmem, hlt⟩ => ?_⟩
  rcases List.mem_append.mp hmem with hfront | hrest
  · exact absurd hlt (hacross r' hfront r List.mem_cons_self).asymm
  · rcases List.mem_cons.mp hrest with rfl | hlate
    · exact absurd hlt (lt_irrefl _)
    · exact hlate

omit [Field K] [LinearOrder K] in
/-- A file that a report was written to holds it or one that was written over it. -/
theorem fileContent_eq_some (front back : List (Report K)) (r : Report K) :
    ∃ last, fileContent (front ++ r :: back) r.file = some last ∧
      (last = r ∨ last ∈ back ∧ last.file = r.file) := by
  have hreverse : (front ++ r :: back).reverse = back.reverse ++ r :: front.reverse := by simp
  rw [fileContent, hreverse, List.find?_append]
  cases hfind : back.reverse.find? fun later => decide (later.file = r.file) with
  | none => exact ⟨r, by simp, Or.inl rfl⟩
  | some last =>
    refine ⟨last, rfl, Or.inr ⟨List.mem_reverse.mp (List.mem_of_find?_eq_some hfind), ?_⟩⟩
    simpa using List.find?_some hfind

/-- Where no report is lost, every completed test makes its report. -/
theorem Extracted.written (hx : ctx.opts.extractResults = true) (h : Extracted ctx lines)
    {test : Test} (hc : Completed ctx lines test e) : Written ctx lines e := by
  obtain ⟨front, r, back, hsplit, hline, -⟩ := h.kept test e hc
  exact (written_iff hx).mpr ⟨r, by rw [hsplit]; simp, hline⟩

/-- Where no report is lost, the names of different tests do not collide. -/
theorem Extracted.apart (hx : ctx.opts.extractResults = true) (h : Extracted ctx lines)
    {test test' : Test} {e' : ℕ} {l l' : Label} (hl : NamedBy ctx lines test e l)
    (hl' : NamedBy ctx lines test' e' l') (hne : test.identity ≠ test'.identity) :
    ¬ l.Collides l' := by
  intro hcollides
  obtain ⟨r, hr, hline⟩ := (written_iff hx).mp (h.written hx hl.completed)
  obtain ⟨r', hr', hline'⟩ := (written_iff hx).mp (h.written hx hl'.completed)
  refine h.distinct test e test' e' hl.completed hl'.completed hne r hr r' hr' hline hline' ?_
  rwa [file_eq_iff hx hr hr', hline, hline', ← hl.eq_labelAt, ← hl'.eq_labelAt]

/-- Where no report is lost, the name of a test does not collide with that of a later report that is
none of a completed test. -/
theorem Extracted.stray (hx : ctx.opts.extractResults = true) (h : Extracted ctx lines)
    {test : Test} {e' : ℕ} {l : Label} (hl : NamedBy ctx lines test e l) (hlt : e < e')
    (hw : Written ctx lines e') (hnone : ∀ test', ¬ Completed ctx lines test' e') :
    ¬ l.Collides (labelAt ctx lines e') := by
  intro hcollides
  obtain ⟨front, r, back, hsplit, hline, hover, -⟩ := h.kept test e hl.completed
  obtain ⟨r', hr', hline'⟩ := (written_iff hx).mp hw
  have hr : r ∈ (readLoop ctx lines .initial).state.reports := by rw [hsplit]; simp
  have hlater := (mem_back_iff hsplit r').mpr ⟨hr', by rwa [hline, hline']⟩
  have hfile := (file_eq_iff hx hr hr').mpr (by rwa [hline, hline', ← hl.eq_labelAt])
  obtain ⟨test', hc', -⟩ := hover r' hlater hfile.symm
  exact hnone test' (hline' ▸ hc')

/-- Where the names are kept apart, a report that is written over that of a test is of the same
test. -/
theorem KeepsApart.identity_eq (hx : ctx.opts.extractResults = true) (h : KeepsApart ctx lines)
    {test : Test} {r later : Report K} (hc : Completed ctx lines test r.line)
    (hr : r ∈ (readLoop ctx lines .initial).state.reports)
    (hlater : later ∈ (readLoop ctx lines .initial).state.reports) (hlt : r.line < later.line)
    (hfile : later.file = r.file) :
    ∃ test', Completed ctx lines test' later.line ∧ test'.identity = test.identity := by
  have hcollides := (file_eq_iff hx hr hlater).mp hfile.symm
  by_cases hcompleted : ∃ test', Completed ctx lines test' later.line
  · obtain ⟨test', hc'⟩ := hcompleted
    refine ⟨test', hc', ?_⟩
    by_contra hne
    exact h.apart test _ _ test' _ _ hc.named hc'.named (Ne.symm hne) hcollides
  · -- a report of no completed test would be a stray one
    refine absurd hcollides (h.stray test _ _ _ hc.named hlt ?_ (not_exists.mp hcompleted))
    exact (written_iff hx).mpr ⟨later, hlater, rfl⟩

/-- Where the names are kept apart, the file of a test holds a report of it in the end. -/
theorem KeepsApart.kept (hx : ctx.opts.extractResults = true) (h : KeepsApart ctx lines)
    {test : Test} (hc : Completed ctx lines test e) :
    ∃ front r back, (readLoop ctx lines .initial).state.reports = front ++ r :: back ∧ r.line = e ∧
      (∀ later ∈ back, later.file = r.file →
        ∃ test', Completed ctx lines test' later.line ∧ test'.identity = test.identity) ∧
      ∃ last test', fileContent (readLoop ctx lines .initial).state.reports r.file = some last ∧
        Completed ctx lines test' last.line ∧ test'.identity = test.identity := by
  obtain ⟨r, hr, rfl⟩ := (written_iff hx).mp (h.written test e hc)
  obtain ⟨front, back, hsplit⟩ := List.append_of_mem hr
  have hover : ∀ later ∈ back, later.file = r.file →
      ∃ test', Completed ctx lines test' later.line ∧ test'.identity = test.identity := by
    intro later hlater hfile
    obtain ⟨hmem, hlt⟩ := (mem_back_iff hsplit later).mp hlater
    exact h.identity_eq hx hc hr hmem hlt hfile
  obtain ⟨last, hlast, hwhich⟩ := fileContent_eq_some front back r
  refine ⟨front, r, back, hsplit, rfl, hover, last, ?_⟩
  rw [hsplit]
  rcases hwhich with rfl | ⟨hback, hfile⟩
  · exact ⟨test, hlast, hc, rfl⟩
  · obtain ⟨test', hc', hsame⟩ := hover last hback hfile
    exact ⟨test', hlast, hc', hsame⟩

/-- Under `-x`, no report of a log is lost exactly if every completed test makes its report and the
words and the machine of no other test or later report collide with its own. -/
theorem extracted_iff (ctx : Context K) (lines : List Buffer)
    (hx : ctx.opts.extractResults = true) : Extracted ctx lines ↔ KeepsApart ctx lines := by
  constructor
  · intro h
    exact ⟨fun _ _ hc => h.written hx hc, fun _ _ _ _ _ _ hl hl' hne => h.apart hx hl hl' hne,
      fun _ _ _ _ hl hlt hw hnone => h.stray hx hl hlt hw hnone⟩
  · intro h
    refine ⟨fun test e test' e' hc hc' hne r hr r' hr' hline hline' hfile => ?_,
      fun _ _ hc => h.kept hx hc⟩
    rw [file_eq_iff hx hr hr', hline, hline'] at hfile
    exact h.apart test e _ test' e' _ hc.named hc'.named hne hfile

end

end

/-- A test of a spin down time of the disk. -/
def spinDown (time : String) (h : (scanWord ("hdparm -B 127 -S ".toList ++ time.toList)).isSome =
    true := by decide) : Test :=
  ⟨laptop, "hdparm -B 127 -S ".toList ++ time.toList, h⟩

/-- Two tests of the disk, each announced with its machine. -/
def hdparmLog : List LogLine :=
  [.ofText "2011-12-02T03:23:40.000000 TAG: TEST_CLIENT laptop 3.1.0-7-generic x86_64".toList,
    .ofText "2011-12-02T03:23:41.000000 TAG: TEST_BEGIN hdparm -B 127 -S 12".toList,
    .ofText "2011-12-02T03:23:42.000000 TAG: TEST_END hdparm -B 127 -S 12".toList,
    .ofText "2011-12-02T03:23:43.000000 TAG: TEST_CLIENT laptop 3.1.0-7-generic x86_64".toList,
    .ofText "2011-12-02T03:23:44.000000 TAG: TEST_BEGIN hdparm -B 127 -S 24".toList,
    .ofText "2011-12-02T03:23:45.000000 TAG: TEST_END hdparm -B 127 -S 24".toList]

/-- The context of an extraction. -/
def extracting : Context ℚ := plainContext { extractResults := true }

/-- The events of the log are those of its texts. -/
theorem hdparmLog_events :
    logEvents extracting (logLines zeroBuffer hdparmLog) = textEvents extracting hdparmLog :=
  logEvents_logLines extracting zeroBuffer hdparmLog (by decide +kernel)

/-- Announcements, beginnings and ends take turns on the lines of the log. -/
theorem hdparmLog_rank : ∀ x ∈ logEvents extracting (logLines zeroBuffer hdparmLog),
    x.2 < 6 ∧ (x.1.rank = 0 ∨ x.1.rank = x.2 % 3 + 1) := by
  rw [hdparmLog_events]
  decide +kernel

/-- The end on every third line ends the test that was announced two lines before. -/
theorem hdparmLog_introduced {test : Test} {c : ℕ} (hc : c % 3 = 0)
    (hclient : (.testClient test.client.arg, c) ∈
      logEvents extracting (logLines zeroBuffer hdparmLog))
    (hbegin : (.testBegin test.name.text, c + 1) ∈
      logEvents extracting (logLines zeroBuffer hdparmLog))
    (hend : (.testEnd, c + 2) ∈ logEvents extracting (logLines zeroBuffer hdparmLog)) :
    Introduced extracting (logLines zeroBuffer hdparmLog) test (c + 2) := by
  refine ⟨c, c + 1, ⟨hclient, by omega, fun x hx hkind hle => ?_⟩, by omega,
    ⟨hbegin, by omega, fun x hx hkind hle => ?_⟩, ⟨hend, by omega, fun x hx hkind hle => ?_⟩⟩
  · have hrank := Event.rank_of_isClient hkind
    have hline := hdparmLog_rank x hx
    omega
  · have hrank := Event.rank_of_isBegin hkind
    have hline := hdparmLog_rank x hx
    omega
  · have hrank : x.1.rank = 3 := by rw [Event.eq_testEnd hkind]; rfl
    have hline := hdparmLog_rank x hx
    omega

/-- The two tests of the log are completed behind their announcements. -/
theorem hdparmLog_tests :
    Introduced extracting (logLines zeroBuffer hdparmLog) (spinDown "12") 2 ∧
      Introduced extracting (logLines zeroBuffer hdparmLog) (spinDown "24") 5 := by
  constructor
  · refine hdparmLog_introduced (c := 0) rfl ?_ ?_ ?_ <;> rw [hdparmLog_events]
    · exact mem_textEvents (h := .testClient laptop.arg) _ rfl (by decide +kernel)
    · exact mem_textEvents (h := .testBegin (spinDown "12").name.text) _ rfl (by decide +kernel)
    · exact mem_textEvents (h := .testEnd) _ rfl (by decide +kernel)
  · refine hdparmLog_introduced (c := 3) rfl ?_ ?_ ?_ <;> rw [hdparmLog_events]
    · exact mem_textEvents (h := .testClient laptop.arg) _ rfl (by decide +kernel)
    · exact mem_textEvents (h := .testBegin (spinDown "24").name.text) _ rfl (by decide +kernel)
    · exact mem_textEvents (h := .testEnd) _ rfl (by decide +kernel)

/-- On that log, too, no report is lost exactly if every test makes its report and their names do
not collide. -/
theorem hdparmLog_extracted_iff :
    Extracted extracting (logLines zeroBuffer hdparmLog) ↔
      KeepsApart extracting (logLines zeroBuffer hdparmLog) :=
  extracted_iff extracting (logLines zeroBuffer hdparmLog) rfl

/-- The report of the second test overwrites that of the first one. -/
theorem hdparmLog_not_extracted : ¬ Extracted extracting (logLines zeroBuffer hdparmLog) := by
  intro h
  obtain ⟨front, r, back, hsplit, hline, -⟩ := h.kept _ _ hdparmLog_tests.1.completed
  obtain ⟨front', r', back', hsplit', hline', -⟩ := h.kept _ _ hdparmLog_tests.2.completed
  have hr : r ∈ (readLoop extracting (logLines zeroBuffer hdparmLog) .initial).state.reports := by
    rw [hsplit]
    simp
  have hr' : r' ∈ (readLoop extracting (logLines zeroBuffer hdparmLog) .initial).state.reports := by
    rw [hsplit']
    simp
  refine h.distinct _ _ _ _ hdparmLog_tests.1.completed hdparmLog_tests.2.completed (by decide)
    r hr r' hr' hline hline' ?_
  rw [file_eq_iff rfl hr hr', hline, hline']
  exact hdparmLog_tests.1.collides hdparmLog_tests.2 rfl (by decide)

end FlukeTesting.Statstool
