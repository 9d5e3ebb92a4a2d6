import FlukeTesting.Statstool.EventOrder

/-!
# Whose name a report carries

The client and the test are kept in four variables with different lifetimes. The end of a test
clears the host name, the kernel and the test name, but not the architecture, and nothing but a
new announcement sets the first two again. So a report names the client that was announced last
exactly when its test is the first one to end since that announcement.
-/

namespace FlukeTesting.Statstool

open Imperative Collect Scanf

/-- A nonempty text without blanks, as `%s` reads it. -/
def IsWord (word : Text) : Prop := word ≠ [] ∧ ∀ c ∈ word, isSpace c = false

instance (word : Text) : Decidable (IsWord word) :=
  @instDecidableAnd _ _ inferInstance (List.decidableBAll _ word)

/-- A client as the drivers announce it, with the words of `uname -r -m -n`. -/
structure Client where
  hostname : Text
  kernel : Text
  machine : Text
  hostnameWord : IsWord hostname
  kernelWord : IsWord kernel
  machineWord : IsWord machine

/-- The payload of the announcement of a client. -/
def Client.arg (c : Client) : Text := c.hostname ++ ' ' :: (c.kernel ++ ' ' :: c.machine)

/-- The architecture of a client. -/
def Client.arch (c : Client) : Arch := archOf c.machine

/-- A word in front of a blank is read up to the blank. -/
theorem scanWord_space_append {word : Text} (h : IsWord word) (rest : Text) :
    scanWord (word ++ ' ' :: rest) = some (word, ' ' :: rest) :=
  scanWord_append h.1 h.2 (by simp [isSpace])

/-- The blank in front of a word is skipped. -/
theorem dropWhile_space_append {word : Text} (h : IsWord word) (rest : Text) :
    (' ' :: (word ++ rest)).dropWhile isSpace = word ++ rest := by
  obtain ⟨hne, hword⟩ := h
  cases word with
  | nil => exact absurd rfl hne
  | cons a word =>
    have ha : isSpace a = false := hword a (by simp)
    have hblank : isSpace ' ' = true := by decide
    simp [hblank, ha]

/-- The handler reads the three words of an announcement, whatever the variables held. -/
theorem Client.clientWords_arg (c : Client) (hostname kernel : Text) :
    clientWords c.arg hostname kernel = ⟨c.hostname, c.kernel, some c.machine⟩ := by
  have hlast : scanWord c.machine = some (c.machine, []) := by
    have hend : scanWord (c.machine ++ []) = some (c.machine, []) :=
      scanWord_append c.machineWord.1 c.machineWord.2 (by simp)
    rwa [List.append_nil] at hend
  have hblank := dropWhile_space_append c.machineWord []
  rw [List.append_nil] at hblank
  simp only [clientWords, clientFormat, Client.arg, sscanf, scanWord_space_append c.hostnameWord,
    dropWhile_space_append c.kernelWord, scanWord_space_append c.kernelWord, hblank, hlast]

section

variable {K : Type*}

/-- The variables that name the client. -/
def State.client (s : State K) : Text × Text × Option Arch := (s.hostname, s.kernel, s.arch)

variable [Field K]

/-- The last announcement in the log up to line `e` is that of the client, on line `n`. -/
def LatestClient (ctx : Context K) (lines : List Buffer) (client : Client) (n e : ℕ) : Prop :=
  Latest Event.isClient ctx lines (.testClient client.arg) n e

/-- No client is announced between the last announcement and its line. -/
theorem LatestClient.isClient_eq_false {ctx : Context K} {lines : List Buffer} {client : Client}
    {n e : ℕ} (h : LatestClient ctx lines client n e) {x : Event K × ℕ}
    (hx : x ∈ logEvents ctx lines) (hafter : Precedes (.testClient client.arg, n) x)
    (hle : x.2 ≤ e) : x.1.isClient = false :=
  Latest.kind_eq_false h (fun _ hf => (Event.rank_of_isClient hf).le) hx hafter hle

variable [LinearOrder K]

/-- Only an announcement and the end of a test touch the client. -/
theorem exec_client (ctx : Context K) (e : Event K × ℕ) (s : State K)
    (hclient : e.1.isClient = false) (hend : e.1.isEnd = false) :
    (Event.exec ctx e s).Ends fun t => t.client = s.client := by
  have hidentity {t : State K} (h : t.identity = s.identity) : t.client = s.client := by
    simp only [State.identity, Prod.mk.injEq] at h
    simp only [State.client, h.1, h.2.1, h.2.2.2.1]
  obtain ⟨event, n⟩ := e
  cases event with
  | unstrippable => exact rfl
  | time sec =>
    change (s.originate sec).client = _
    unfold State.originate
    split <;> rfl
  | testClient arg => exact absurd hclient Bool.true_eq_false.mp
  | testBegin arg =>
    have hprint := announce_identity ctx "info:test-name:" "Test:   " arg s
    simp only [State.identity, Prod.mk.injEq] at hprint
    simp only [Event.exec, testBegin, Outcome.Ends]
    split <;> simp only [Outcome.state, State.client, hprint.1, hprint.2.1, hprint.2.2.2.1]
  | testEnd => exact absurd hend Bool.true_eq_false.mp
  | testRunBegin => exact hidentity (testRunBegin_identity n s)
  | testRunEnd => exact rfl
  | sample sec text => exact hidentity (sample_identity ctx n _ text s)

/-- The end of a test clears the host name. -/
theorem Represents.testEnd_hostname {ctx : Context K} {n : ℕ} {s t : State K}
    {c : Collect.State (Point K)} (h : Represents s c) (hnext : testEnd ctx n s = .next t) :
    t.hostname = [] := by
  rcases h.testEnd_cases ctx n with ⟨-, -, heq⟩ | ⟨-, -, heq⟩ | ⟨-, -, pieces, heq⟩
  · rw [heq] at hnext
    contradiction
  · rw [heq, Outcome.next.injEq] at hnext
    rw [← hnext]
    rfl
  · rw [heq, Outcome.next.injEq] at hnext
    rw [← hnext]
    rfl

/-- Events without announcements and ends of tests keep the client. -/
theorem forEach_client {ctx : Context K} {events : List (Event K × ℕ)} {s t : State K}
    (hnext : forEach (Event.exec ctx) events s = .next t)
    (hclient : ∀ e ∈ events, e.1.isClient = false) (hend : ∀ e ∈ events, e.1.isEnd = false) :
    t.client = s.client := by
  have h : (forEach (Event.exec ctx) events s).Ends fun t => t.client = s.client :=
    forEach_ends rfl fun e he u hu =>
      (exec_client ctx e u (hclient e he) (hend e he)).trans hu
  rwa [hnext] at h

/-- Without announcements, a host name that is cleared stays so. -/
theorem forEach_hostname {ctx : Context K} {events : List (Event K × ℕ)} {s t : State K}
    {c : Collect.State (Point K)} (h : Represents s c) (hs : s.hostname = [])
    (hnext : forEach (Event.exec ctx) events s = .next t)
    (hclient : ∀ e ∈ events, e.1.isClient = false) : t.hostname = [] := by
  induction events generalizing s c with
  | nil =>
    rw [forEach_nil, Outcome.next.injEq] at hnext
    exact hnext ▸ hs
  | cons e rest ih =>
    obtain ⟨u, hu, ht⟩ := Outcome.bind_eq_next_iff.mp hnext
    have hkeep : u.hostname = [] := by
      cases hend : e.1.isEnd with
      | true =>
        obtain ⟨event, n⟩ := e
        obtain rfl := Event.eq_testEnd hend
        exact h.testEnd_hostname hu
      | false =>
        have hsame := exec_client ctx e s (hclient e (by simp)) hend
        rw [hu] at hsame
        exact (congrArg (·.1) hsame).trans hs
    exact ih (h.exec_next hu) hkeep ht fun e' he' => hclient e' (List.mem_cons_of_mem _ he')

/-- Every report of a test names the client that was announced last in front of its end. -/
def Attributed (ctx : Context K) (lines : List Buffer) : Prop :=
  ∀ r ∈ (readLoop ctx lines .initial).state.reports, ∀ client n,
    LatestClient ctx lines client n r.line → ∃ test,
      r.file = some (reportName client.hostname client.kernel test client.arch) ∧
        r.heading = reportHeading client.hostname client.kernel client.arch test

/-- Every test that is reported is the first one to end since its client was announced. -/
def AnnouncedPerTest (ctx : Context K) (lines : List Buffer) : Prop :=
  ∀ e t client n, Meets ctx lines (.testEnd, e) t → EndReports ctx e t →
    LatestClient ctx lines client n e → FirstEnd ctx lines n e

/-- At the first end of a test since an announcement the client is known. -/
theorem Meets.client_of_first {ctx : Context K} {lines : List Buffer} {e n : ℕ} {t : State K}
    {client : Client} (ht : Meets ctx lines (.testEnd, e) t)
    (hlatest : LatestClient ctx lines client n e) (hfirst : FirstEnd ctx lines n e) :
    t.client = (client.hostname, client.kernel, some client.arch) := by
  obtain ⟨s, mid, hs, hmid, hbetween⟩ :=
    ht.earlier hlatest.1 (precedes_end (by simp [Event.rank]) hlatest.2.1)
  obtain ⟨u, hu, hrest⟩ := Outcome.bind_eq_next_iff.mp hmid
  have hset : u.client = (client.hostname, client.kernel, some client.arch) := by
    simp only [Event.exec, testClient, client.clientWords_arg] at hu
    split at hu
    · rw [Outcome.next.injEq] at hu
      rw [← hu]
      rfl
    · contradiction
  refine (forEach_client hrest (fun x hx => ?_) fun x hx => ?_).trans hset
  · obtain ⟨hmem, hafter, hbefore⟩ := (hbetween x).mp hx
    exact hlatest.isClient_eq_false hmem hafter hbefore.le
  · obtain ⟨hmem, hafter, hbefore⟩ := (hbetween x).mp hx
    exact hfirst.isEnd_eq_false hmem hafter.le hbefore

/-- If a test ended since the last announcement, the host name is empty at a later end. -/
theorem Meets.hostname_of_late {ctx : Context K} {lines : List Buffer} {e n : ℕ} {t : State K}
    {client : Client} (ht : Meets ctx lines (.testEnd, e) t)
    (hlatest : LatestClient ctx lines client n e) (hlate : ¬ FirstEnd ctx lines n e) :
    t.hostname = [] := by
  obtain ⟨x, hx, hend, hnx, hxe⟩ : ∃ x ∈ logEvents ctx lines,
      x.1.isEnd = true ∧ n ≤ x.2 ∧ x.2 < e := by
    by_contra hnone
    refine hlate ⟨ht.mem, hlatest.2.1, fun x hx hend hnx => ?_⟩
    by_contra hlt
    exact hnone ⟨x, hx, hend, hnx, Nat.lt_of_not_le hlt⟩
  obtain ⟨event, k⟩ := x
  obtain rfl := Event.eq_testEnd hend
  obtain ⟨s, mid, hs, hmid, hbetween⟩ := ht.earlier hx (Or.inl hxe)
  obtain ⟨u, hu, hrest⟩ := Outcome.bind_eq_next_iff.mp hmid
  obtain ⟨c, hc⟩ := Visits.represents hs.reaches
  apply forEach_hostname (hc.exec_next hu) (hc.testEnd_hostname hu) hrest
  intro x hx
  obtain ⟨hmem, hafter, hbefore⟩ := (hbetween x).mp hx
  have hlate : Precedes (.testClient client.arg, n) x :=
    (precedes_end (by simp [Event.rank]) hnx).trans hafter
  exact hlatest.isClient_eq_false hmem hlate hbefore.le

/-- Under `-x`, every report names the client that was announced last exactly when every reported
test is the first one to end since its client was announced. -/
theorem attributed_iff (ctx : Context K) (lines : List Buffer)
    (hx : ctx.opts.extractResults = true) :
    Attributed ctx lines ↔ AnnouncedPerTest ctx lines := by
  constructor
  · intro h e t client n ht hrep hlatest
    by_contra hlate
    obtain ⟨test, -, hheading⟩ := h _ (ht.mem_reports hrep) client n hlatest
    have hempty := ht.hostname_of_late hlatest hlate
    simp only [State.endReport, hx, if_true, reportHeading, hempty, List.cons.injEq,
      Piece.str.injEq] at hheading
    exact client.hostnameWord.1 hheading.1.symm
  · intro h r hr client n hlatest
    obtain ⟨e, t, ht, hrep, rfl⟩ := (mem_reports_iff ctx lines r).mp hr
    have hclient := ht.client_of_first hlatest (h e t client n ht hrep hlatest)
    simp only [State.client, Prod.mk.injEq] at hclient
    obtain ⟨hhostname, hkernel, harch⟩ := hclient
    refine ⟨t.test, ?_, ?_⟩ <;>
      simp [State.endReport, hx, hhostname, hkernel, harch]

end

/-- A machine under test. -/
def laptop : Client where
  hostname := "laptop".toList
  kernel := "3.1.0-7-generic".toList
  machine := "x86_64".toList
  hostnameWord := by decide
  kernelWord := by decide
  machineWord := by decide

/-- Two brightness levels, measured on one announcement of the machine. -/
def brightnessLog : List LogLine :=
  [.ofText "2011-12-02T01:03:40.000000 TAG: TEST_CLIENT laptop 3.1.0-7-generic x86_64".toList,
    .ofText "2011-12-02T01:03:41.000000 TAG: TEST_BEGIN Brightness Level 0".toList,
    .ofText "2011-12-02T01:03:42.000000 TAG: TEST_END Brightness Level 0".toList,
    .ofText "2011-12-02T01:03:43.000000 TAG: TEST_BEGIN Brightness Level 1".toList,
    .ofText "2011-12-02T01:03:44.000000 TAG: TEST_END Brightness Level 1".toList]

/-- On that log, too, the reports name their client exactly if the first end of a test behind the
announcement is the only one. -/
theorem brightnessLog_attributed_iff :
    let ctx := plainContext { extractResults := true }
    let lines := logLines zeroBuffer brightnessLog
    Attributed ctx lines ↔ AnnouncedPerTest ctx lines :=
  attributed_iff (plainContext { extractResults := true }) (logLines zeroBuffer brightnessLog) rfl

/-- The report of the second level carries no host name. -/
theorem brightnessLog_not_attributed :
    ¬ Attributed (plainContext { extractResults := true }) (logLines zeroBuffer brightnessLog) := by
  intro h
  have hlatest : LatestClient (plainContext { extractResults := true })
      (logLines zeroBuffer brightnessLog) laptop 0 4 := by
    unfold LatestClient Latest
    rw [logEvents_logLines _ _ _ (by decide +kernel)]
    refine ⟨mem_textEvents (h := .testClient laptop.arg) _ rfl ?_, by decide, ?_⟩
    · decide +kernel
    · decide +kernel
  have hname : (readLoop (plainContext { extractResults := true })
      (logLines zeroBuffer brightnessLog) .initial).state.reports.any (fun r =>
        decide (r.line = 4) && decide (r.file = some "--Brightness-amd64.txt".toList)) = true := by
    decide +kernel
  obtain ⟨r, hr, hfile⟩ := List.any_eq_true.mp hname
  rw [Bool.and_eq_true, decide_eq_true_iff, decide_eq_true_iff] at hfile
  obtain ⟨test, hnamed, -⟩ := h r hr laptop 0 (hfile.1 ▸ hlatest)
  rw [hfile.2, Option.some.injEq] at hnamed
  have hfirst : '-' = 'l' := congrArg (fun name => name.headD '-') hnamed
  exact absurd hfirst (by decide)

end FlukeTesting.Statstool
