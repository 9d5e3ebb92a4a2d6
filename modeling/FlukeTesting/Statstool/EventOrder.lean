import FlukeTesting.Statstool.Reports
import Mathlib.Data.List.Pairwise

/-!
# The order of the events of a log

The events of a log are ordered by their lines, and those of one line by the fixed order of
the handlers. So no event occurs twice, and the number of a line and the kind of an event say
where in the log it stands.
-/

namespace FlukeTesting.Statstool

open Imperative Collect

/-- The position of a handler in its line. -/
def Handler.rank : Handler → ℕ
  | testClient _ => 1
  | testBegin _ => 2
  | testEnd => 3
  | testRunBegin => 4
  | testRunEnd => 5
  | sample _ => 6

/-- The handlers of a line come in the order of their ranks. -/
theorem handlersOf_rank (str : ℕ → Text) :
    ((handlersOf str).map Handler.rank).Sublist [1, 2, 3, 4, 5, 6] := by
  have hif (b : Bool) (h : Handler) :
      ((if b then [h] else []).map Handler.rank).Sublist [h.rank] := by
    cases b <;> simp
  have htags : ((tagHandlersOf str).map Handler.rank).Sublist [1, 2, 3, 4, 5] := by
    unfold tagHandlersOf
    split
    · have hclient : (((Search.find testClientKeyword (str 32)).elim [] fun k =>
          [Handler.testClient (str (32 + k + 12))]).map Handler.rank).Sublist [1] := by
        cases Search.find testClientKeyword (str 32) <;> simp [Handler.rank]
      simp only [List.map_append]
      exact (((hclient.append (hif _ _)).append (hif _ _)).append (hif _ _)).append (hif _ _)
    · simp
  rw [handlersOf, List.map_append]
  exact htags.append (hif _ _)

section

variable {K : Type*}

/-- The position of an event in its line. -/
def Event.rank : Event K → ℕ
  | unstrippable => 0
  | time _ => 0
  | testClient _ => 1
  | testBegin _ => 2
  | testEnd => 3
  | testRunBegin => 4
  | testRunEnd => 5
  | sample _ _ => 6

/-- Whether an event announces a client. -/
def Event.isClient : Event K → Bool
  | testClient _ => true
  | _ => false

/-- Whether an event begins a test. -/
def Event.isBegin : Event K → Bool
  | testBegin _ => true
  | _ => false

/-- Whether an event ends a test. -/
def Event.isEnd : Event K → Bool
  | testEnd => true
  | _ => false

/-- Only `TEST_END` ends a test. -/
theorem Event.eq_testEnd {e : Event K} (h : e.isEnd = true) : e = .testEnd := by
  cases e with
  | testEnd => rfl
  | unstrippable | time | testClient | testBegin | testRunBegin | testRunEnd | sample =>
    exact absurd h Bool.false_ne_true

/-- Only `TEST_CLIENT` announces a client. -/
theorem Event.eq_testClient {e : Event K} (h : e.isClient = true) :
    ∃ arg, e = .testClient arg := by
  cases e with
  | testClient arg => exact ⟨arg, rfl⟩
  | unstrippable | time | testBegin | testEnd | testRunBegin | testRunEnd | sample =>
    exact absurd h Bool.false_ne_true

/-- Only `TEST_BEGIN` begins a test. -/
theorem Event.eq_testBegin {e : Event K} (h : e.isBegin = true) : ∃ arg, e = .testBegin arg := by
  cases e with
  | testBegin arg => exact ⟨arg, rfl⟩
  | unstrippable | time | testClient | testEnd | testRunBegin | testRunEnd | sample =>
    exact absurd h Bool.false_ne_true

/-- An announcement of a client comes second in its line. -/
theorem Event.rank_of_isClient {e : Event K} (h : e.isClient = true) : e.rank = 1 := by
  obtain ⟨arg, rfl⟩ := Event.eq_testClient h
  rfl

/-- The beginning of a test comes third in its line. -/
theorem Event.rank_of_isBegin {e : Event K} (h : e.isBegin = true) : e.rank = 2 := by
  obtain ⟨arg, rfl⟩ := Event.eq_testBegin h
  rfl

/-- An event comes before another one in every log that has both. -/
def Precedes (e f : Event K × ℕ) : Prop := e.2 < f.2 ∨ e.2 = f.2 ∧ e.1.rank < f.1.rank

/-- Events do not precede each other. -/
theorem Precedes.asymm (e f : Event K × ℕ) (h : Precedes e f) : ¬ Precedes f e := by
  unfold Precedes at *
  omega

/-- What comes before an earlier event comes before a later one. -/
theorem Precedes.trans {e f g : Event K × ℕ} (hef : Precedes e f) (hfg : Precedes f g) :
    Precedes e g := by
  unfold Precedes at *
  omega

/-- An earlier event is not on a later line. -/
theorem Precedes.le {e f : Event K × ℕ} (h : Precedes e f) : e.2 ≤ f.2 := by
  unfold Precedes at h
  omega

/-- An event that comes before the end of a test in its line comes before every such end from its
line on. -/
theorem precedes_end {event : Event K} (hrank : event.rank < 3) {b e : ℕ} (h : b ≤ e) :
    Precedes (event, b) (.testEnd, e) := by
  rcases Nat.lt_or_eq_of_le h with hlt | heq
  · exact Or.inl hlt
  · exact Or.inr ⟨heq, hrank⟩

variable [Field K]

/-- The events of a line are in order. -/
theorem lineEvents_sorted (ctx : Context K) (raw : Buffer) (line : ℕ) :
    (lineEvents ctx raw line).Pairwise Precedes := by
  unfold lineEvents
  cases raw.strip with
  | none => simp
  | some b =>
    have hrank (sec : K) (h : Handler) : (h.event sec).rank = h.rank := by cases h <;> rfl
    have hranks : ((Event.time (stamp ctx line b) ::
        b.handlers.map (Handler.event (stamp ctx line b))).map Event.rank).Pairwise (· < ·) := by
      have hsub : (0 :: b.handlers.map Handler.rank).Sublist [0, 1, 2, 3, 4, 5, 6] :=
        (handlersOf_rank b.str).cons_cons 0
      have heq : (Event.time (stamp ctx line b) ::
          b.handlers.map (Handler.event (stamp ctx line b))).map Event.rank =
            0 :: b.handlers.map Handler.rank := by
        rw [List.map_cons, List.map_map]
        exact congrArg (0 :: ·) (List.map_congr_left fun h _ => hrank _ h)
      rw [heq]
      exact List.Pairwise.sublist hsub (by decide)
    rw [List.pairwise_map] at hranks ⊢
    exact hranks.imp fun h => Or.inr ⟨rfl, h⟩

/-- Every event of a line has the number of the line. -/
theorem lineEvents_line {ctx : Context K} {raw : Buffer} {line : ℕ} {e : Event K × ℕ}
    (h : e ∈ lineEvents ctx raw line) : e.2 = line := by
  unfold lineEvents at h
  cases hstrip : raw.strip with
  | none =>
    rw [hstrip, List.mem_singleton] at h
    rw [h]
  | some b =>
    rw [hstrip] at h
    obtain ⟨event, -, rfl⟩ := List.mem_map.mp h
    rfl

/-- The events of a log are in order. -/
theorem logEvents_sorted (ctx : Context K) (lines : List Buffer) :
    (logEvents ctx lines).Pairwise Precedes := by
  have hlines : lines.zipIdx.Pairwise fun p q => p.2 < q.2 := by
    rw [← List.pairwise_map, List.zipIdx_map_snd]
    exact List.pairwise_lt_range'
  refine List.pairwise_flatMap.mpr ⟨fun p _ => lineEvents_sorted ctx p.1 p.2, ?_⟩
  refine hlines.imp fun {p q} hlt e he f hf => Or.inl ?_
  rw [lineEvents_line he, lineEvents_line hf]
  exact hlt

/-- No event of a log occurs twice. -/
theorem logEvents_nodup (ctx : Context K) (lines : List Buffer) : (logEvents ctx lines).Nodup := by
  apply (logEvents_sorted ctx lines).imp
  intro e f h heq
  rw [heq] at h
  exact Precedes.asymm f f h h

/-- The first `TEST_END` of the log from line `b` on is on line `e`. -/
def FirstEnd (ctx : Context K) (lines : List Buffer) (b e : ℕ) : Prop :=
  (.testEnd, e) ∈ logEvents ctx lines ∧ b ≤ e ∧
    ∀ x ∈ logEvents ctx lines, x.1.isEnd = true → b ≤ x.2 → e ≤ x.2

/-- The last event of a kind in the log up to line `e` is the given one, on line `n`. -/
def Latest (kind : Event K → Bool) (ctx : Context K) (lines : List Buffer) (event : Event K)
    (n e : ℕ) : Prop :=
  (event, n) ∈ logEvents ctx lines ∧ n ≤ e ∧
    ∀ x ∈ logEvents ctx lines, kind x.1 = true → x.2 ≤ e → x.2 ≤ n

/-- No test ends between a line and the first end from that line on. -/
theorem FirstEnd.isEnd_eq_false {ctx : Context K} {lines : List Buffer} {b e : ℕ}
    (h : FirstEnd ctx lines b e) {x : Event K × ℕ} (hx : x ∈ logEvents ctx lines) (hb : b ≤ x.2)
    (hbefore : Precedes x (.testEnd, e)) : x.1.isEnd = false := by
  by_contra hend
  have hkind := (Bool.not_eq_false _).mp hend
  have hle := h.2.2 x hx hkind hb
  rcases hbefore with hlt | ⟨-, hrank⟩
  · exact absurd hle (Nat.not_le_of_lt hlt)
  · rw [Event.eq_testEnd hkind] at hrank
    exact absurd hrank (lt_irrefl _)

/-- Behind the last event of a kind, no other one follows up to the line. -/
theorem Latest.kind_eq_false {kind : Event K → Bool} {ctx : Context K} {lines : List Buffer}
    {event : Event K} {n e : ℕ} (h : Latest kind ctx lines event n e)
    (hrank : ∀ f, kind f = true → f.rank ≤ event.rank) {x : Event K × ℕ}
    (hx : x ∈ logEvents ctx lines) (hafter : Precedes (event, n) x) (hle : x.2 ≤ e) :
    kind x.1 = false := by
  by_contra hkind
  have hkind := (Bool.not_eq_false _).mp hkind
  have hn := h.2.2 x hx hkind hle
  rcases hafter with hlt | ⟨-, hlt⟩
  · exact absurd hn (Nat.not_le_of_lt hlt)
  · exact absurd (hrank x.1 hkind) (Nat.not_le_of_lt hlt)

variable [LinearOrder K]

/-- An event adds at most one report, and only the end of a test does, under its own line. -/
theorem Represents.exec_added {s : State K} {c : Collect.State (Point K)} (h : Represents s c)
    (ctx : Context K) (e : Event K × ℕ) :
    (Event.exec ctx e s).Ends fun t => ∃ added, t.reports = s.reports ++ added ∧
      (added.map Report.line).Sublist (([e].filter fun x => x.1.isEnd).map Prod.snd) := by
  by_cases he : e.1 = .testEnd
  · obtain ⟨event, n⟩ := e
    subst he
    change ∃ added, (testEnd ctx n s).state.reports = s.reports ++ added ∧ _
    rcases h.testEnd_reports ctx n with ⟨-, t, ht, hreports⟩ | ⟨-, hreports⟩
    · exact ⟨[s.endReport ctx n s.collected], by rw [ht, Outcome.state_next, hreports],
        List.Sublist.refl [n]⟩
    · exact ⟨[], by rw [hreports, List.append_nil], List.nil_sublist _⟩
  · have hsame : (Event.exec ctx e s).state.reports = s.reports := exec_reports ctx e s he
    exact ⟨[], hsame.trans (List.append_nil _).symm, List.nil_sublist _⟩

/-- Events add reports of their ends of tests, in the order of these. -/
theorem Represents.forEach_added {s : State K} {c : Collect.State (Point K)} (h : Represents s c)
    (ctx : Context K) (events : List (Event K × ℕ)) :
    (forEach (Event.exec ctx) events s).Ends fun t => ∃ added, t.reports = s.reports ++ added ∧
      (added.map Report.line).Sublist ((events.filter fun x => x.1.isEnd).map Prod.snd) := by
  induction events generalizing s c with
  | nil => exact ⟨[], (List.append_nil _).symm, List.Sublist.refl []⟩
  | cons e rest ih =>
    obtain ⟨first, hfirst, hline⟩ := h.exec_added ctx e
    have hsplit : (((e :: rest).filter fun x => x.1.isEnd).map Prod.snd) =
        (([e].filter fun x => x.1.isEnd).map Prod.snd) ++
          ((rest.filter fun x => x.1.isEnd).map Prod.snd) := by
      rw [← List.map_append, ← List.filter_append, List.singleton_append]
    rw [forEach_cons, hsplit]
    cases hout : Event.exec ctx e s with
    | next u =>
      rw [hout, Outcome.state_next] at hfirst
      obtain ⟨later, hlater, hlines⟩ := ih (h.exec_next hout)
      refine ⟨first ++ later, hlater.trans (by rw [hfirst, List.append_assoc]), ?_⟩
      rw [List.map_append]
      exact hline.append hlines
    | stop u =>
      rw [hout] at hfirst
      exact ⟨first, hfirst, hline.trans (List.sublist_append_left _ _)⟩
    | fault f u =>
      rw [hout] at hfirst
      exact ⟨first, hfirst, hline.trans (List.sublist_append_left _ _)⟩

/-- The reports of a log come in the order of their lines. -/
theorem readLoop_reports_sorted (ctx : Context K) (lines : List Buffer) :
    ((readLoop ctx lines .initial).state.reports.map Report.line).Pairwise (· < ·) := by
  obtain ⟨added, hreports, hlines⟩ :=
    represents_initial.forEach_added ctx (logEvents ctx lines)
  rw [← readLoop_eq_events] at hreports
  have hnone : (State.initial : State K).reports = [] := rfl
  rw [hreports, hnone, List.nil_append]
  apply List.Pairwise.sublist hlines
  rw [List.pairwise_map]
  refine ((logEvents_sorted ctx lines).filter _).imp_of_mem fun {e f} he hf hef => ?_
  have hend := Event.eq_testEnd (List.mem_filter.mp he).2
  have hend' := Event.eq_testEnd (List.mem_filter.mp hf).2
  rcases hef with hlt | ⟨-, hrank⟩
  · exact hlt
  · rw [hend, hend'] at hrank
    exact absurd hrank (lt_irrefl _)

/-- The parser meets an event with one state only. -/
theorem Meets.unique {ctx : Context K} {lines : List Buffer} {e : Event K × ℕ} {s t : State K}
    (hs : Meets ctx lines e s) (ht : Meets ctx lines e t) : s = t :=
  ComesTo.unique (logEvents_nodup ctx lines) hs ht

/-- When the parser meets an event, it has met all earlier ones and gone over the events
between. -/
theorem Meets.earlier {ctx : Context K} {lines : List Buffer} {e f : Event K × ℕ} {t : State K}
    (h : Meets ctx lines f t) (he : e ∈ logEvents ctx lines) (hef : Precedes e f) :
    ∃ s mid, Meets ctx lines e s ∧ forEach (Event.exec ctx) (e :: mid) s = .next t ∧
      ∀ x, x ∈ mid ↔ x ∈ logEvents ctx lines ∧ Precedes e x ∧ Precedes x f :=
  ComesTo.earlier Precedes.asymm (logEvents_sorted ctx lines) h he hef

/-- An event that the parser meets is one of the log. -/
theorem Meets.mem {ctx : Context K} {lines : List Buffer} {e : Event K × ℕ} {s : State K}
    (h : Meets ctx lines e s) : e ∈ logEvents ctx lines := by
  obtain ⟨front, back, hsplit, -⟩ := h
  rw [hsplit]
  simp

end

end FlukeTesting.Statstool
