import FlukeTesting.Lib.Phases

/-!
# Streams that make one report of one run

In automatic mode, a collector that also reports the run that is open at the end of the stream
is meant to turn any stream into one run of all its items. The marks still split, drop and
report runs. Exactly those streams come out as one run whose items all lie in one stretch that
nothing but its own start opens, divides or reports twice.
-/

namespace Collect

variable {A : Type*}

/-- Behind the items of a run a stop comes, in front of its report or behind it, and so it does behind
every further start that finds room. -/
def Closes (capacity : ℕ) (trail tail : List (Mark A × ℕ)) : Prop :=
  (∃ m ∈ trail ++ tail, m.1.isStop = true) ∧
    ∀ pre j post, tail = pre ++ (.start, j) :: post → startsFrom 0 pre < capacity →
      ∃ m ∈ post, m.1.isStop = true

/-- The stream is one undivided run: after elements without items or reports, the last of them a
flush, and after further stops, a start or an item opens the run, the items follow without a
start, stop or flush between them, and only stops follow them. Then the stream ends, or the run
is reported, neither items nor reports follow, and all runs are stopped. -/
def Undivided (cfg : Config) (marks : List (Mark A × ℕ)) : Prop :=
  ∃ pre lead m body trail post, marks = pre ++ (lead ++ m :: (body ++ trail)) ++ post ∧
    Silent pre ∧ EndsFlushed pre ∧ Quiet lead ∧ m.1.starts true = true ∧ Flowing body ∧
    Quiet trail ∧
    ((trail = [] ∧ post = []) ∨
      ∃ n tail, post = (.flush true, n) :: tail ∧ Silent tail ∧ Closes cfg.capacity trail tail)

/-- The reports of a collector that reports the open run at position `n`. -/
def State.closed (c : State A) (n : ℕ) : List (ℕ × List (Run A)) :=
  c.reports ++ if c.isOpen then [(n, c.runs)] else []

section

variable {cfg : Config} {c : State A}

/-- The stretch of an undivided stream leaves one run with all its items. -/
theorem run_stretch (hauto : cfg.auto = true) (hcap : 2 ≤ cfg.capacity) (hruns : c.runs = [])
    {lead body trail : List (Mark A × ℕ)} {m : Mark A × ℕ}
    (hback : ItemsBacked cfg c (lead ++ m :: (body ++ trail))) (hlead : Quiet lead)
    (hopens : m.1.starts true = true) (hbody : Flowing body) (htrail : Quiet trail) :
    ∃ r, (c.run cfg (lead ++ m :: (body ++ trail))).runs = [r] ∧
      r.items = items (lead ++ m :: (body ++ trail)) ∧
      (c.run cfg (lead ++ m :: (body ++ trail))).reports = c.reports ∧
      ((c.run cfg (lead ++ m :: (body ++ trail))).isOpen = true ↔
        ∀ m ∈ trail, m.1.isStop = false) := by
  obtain ⟨-, hm, -⟩ := (itemsBacked_append cfg c lead _).mp hback
  have hleadRuns : (c.run cfg lead).runs = [] ∧ (c.run cfg lead).reports = c.reports := by
    rcases hlead.run cfg c with heq | heq <;> rw [heq] <;> exact ⟨hruns, rfl⟩
  have hstep := step_opens hauto hcap hleadRuns.1 hopens hm
  have hflow := hbody.run cfg (c := (c.run cfg lead).step cfg m)
    (r := ⟨m.2, m.1.item?.toList⟩) (by rw [hstep]) (by rw [hstep])
  have hitems : items (lead ++ m :: (body ++ trail)) = m.1.item?.toList ++ items body := by
    rw [items_append, hlead.items_eq, List.nil_append, ← List.singleton_append, items_append,
      items_append, htrail.items_eq, List.append_nil]
    cases hi : m.1.item? <;> simp [items, hi]
  have hbodyOpen : (((c.run cfg lead).step cfg m).run cfg body).isOpen = true := by
    rw [hflow, hstep]
  rw [State.run_append, State.run_cons, State.run_append, hitems]
  refine ⟨⟨m.2, m.1.item?.toList ++ items body⟩, ?_, rfl, ?_, ?_⟩
  · rcases htrail.run cfg (((c.run cfg lead).step cfg m).run cfg body) with heq | heq <;>
      rw [heq, hflow]
  · rcases htrail.run cfg (((c.run cfg lead).step cfg m).run cfg body) with heq | heq <;>
      rw [heq, hflow, hstep] <;> exact hleadRuns.2
  · rw [htrail.run_isOpen_iff, and_iff_right hbodyOpen]

/-- A stream that is reported behind its items leaves no run open exactly if it closes all runs. -/
theorem isOpen_reported_iff {trail tail : List (Mark A × ℕ)} (htail : Silent tail) (n : ℕ)
    (hopen : c.isOpen = true ↔ ∀ m ∈ trail, m.1.isStop = false) :
    (c.run cfg ((.flush true, n) :: tail)).isOpen = false ↔ Closes cfg.capacity trail tail := by
  have hruns : (c.step cfg (.flush true, n)).runs.length = min 0 cfg.capacity := by
    simp [State.step]
  have hflush : (c.step cfg (.flush true, n)).isOpen = c.isOpen := rfl
  rw [← Bool.not_eq_true, State.run_cons, htail.run_isOpen_iff cfg hruns, hflush, hopen,
    ← List.forall_mem_append, not_or, Closes]
  simp only [not_and, not_exists, not_forall, Bool.not_eq_false, exists_prop]

/-- An undivided stream makes one report, of one run with all its items. -/
theorem Undivided.closed_eq (hauto : cfg.auto = true) (hcap : 2 ≤ cfg.capacity)
    {marks : List (Mark A × ℕ)} (hback : ItemsBacked cfg .empty marks)
    (h : Undivided cfg marks) (n : ℕ) :
    ∃ k r, (State.empty.run cfg marks).closed n = [(k, [r])] ∧ r.items = items marks := by
  obtain ⟨pre, lead, m, body, trail, post, rfl, hpre, hends, hlead, hopens, hbody, htrail, hpost⟩ := h
  have hpreReports : (State.empty.run cfg pre).reports = ([] : List (ℕ × List (Run A))) :=
    run_reports_of_noReport cfg .empty pre fun m hm => (hpre m hm).2
  obtain ⟨hfront, -⟩ := (itemsBacked_append cfg .empty _ post).mp hback
  obtain ⟨r, hruns, hitems, hreports, hopen⟩ := run_stretch hauto hcap (hends.runs_eq cfg)
    ((itemsBacked_append cfg .empty pre _).mp hfront).2 hlead hopens hbody htrail
  rw [hpreReports] at hreports
  have hall : r.items ++ items post =
      items (pre ++ (lead ++ m :: (body ++ trail)) ++ post) := by
    rw [items_append _ post, items_append pre, hpre.items_eq, List.nil_append, hitems]
  rcases hpost with ⟨rfl, rfl⟩ | ⟨k, tail, rfl, htail, hend⟩
  · refine ⟨n, r, ?_, by rw [← hall]; simp [items]⟩
    rw [State.closed, List.append_nil, State.run_append, hreports, hopen.mpr (by simp), hruns]
    rfl
  · have hpostItems : items ((.flush true, k) :: tail) = ([] : List A) := htail.items_eq
    have hclosed := (isOpen_reported_iff htail k hopen).mpr hend
    rw [← State.run_append, ← State.run_append, ← List.append_assoc] at hclosed
    refine ⟨k, r, ?_, by rw [← hall, hpostItems, List.append_nil]⟩
    rw [State.closed, hclosed, State.run_append, State.run_cons,
      run_reports_of_noReport cfg _ tail fun m hm => (htail m hm).2, State.run_append]
    simp [State.step, hreports, hruns]

/-- Elements without items and reports are silent. -/
theorem silent_of_items {marks : List (Mark A × ℕ)} (hitems : items marks = [])
    (hreport : ∀ m ∈ marks, m.1.isReport = false) : Silent marks := fun m hm =>
  ⟨List.filterMap_eq_nil_iff.mp hitems m hm, hreport m hm⟩

/-- A stream has no report or a first one. -/
theorem exists_first_report (marks : List (Mark A × ℕ)) :
    (∀ m ∈ marks, m.1.isReport = false) ∨
      ∃ front n rest, marks = front ++ (.flush true, n) :: rest ∧
        ∀ m ∈ front, m.1.isReport = false := by
  induction marks with
  | nil => simp
  | cons m marks ih =>
    by_cases hm : m.1.isReport = false
    · rcases ih with hnone | ⟨front, n, rest, rfl, hfront⟩
      · exact Or.inl (List.forall_mem_cons.mpr ⟨hm, hnone⟩)
      · exact Or.inr ⟨m :: front, n, rest, rfl, List.forall_mem_cons.mpr ⟨hm, hfront⟩⟩
    · obtain ⟨mark, n⟩ := m
      cases mark with
      | flush written =>
        have hwritten : written = true := (Bool.not_eq_false _).mp hm
        exact Or.inr ⟨[], n, marks, by rw [hwritten]; rfl, by simp⟩
      | start | stop | item | other => exact absurd rfl hm

/-- A stream that leaves one run ends in the stretch of an undivided stream that holds the items
of the run. -/
theorem stretch_of_single (hauto : cfg.auto = true) (hcap : 2 ≤ cfg.capacity)
    {marks : List (Mark A × ℕ)} (hback : ItemsBacked cfg .empty marks) {r : Run A}
    (hruns : (State.empty.run cfg marks).runs = [r]) :
    ∃ pre lead m body trail, marks = pre ++ (lead ++ m :: (body ++ trail)) ∧ EndsFlushed pre ∧
      Quiet lead ∧ m.1.starts true = true ∧ Flowing body ∧ Quiet trail ∧
      ((State.empty.run cfg marks).isOpen = true → trail = []) ∧
      ((State.empty.run cfg marks).isOpen = true ↔ ∀ m ∈ trail, m.1.isStop = false) ∧
      items marks = items pre ++ r.items := by
  obtain ⟨pre, sec, rfl, hends, hsec⟩ := exists_endsFlushed marks
  have hsecBack := ((itemsBacked_append cfg .empty pre sec).mp hback).2
  rw [State.run_append] at hruns ⊢
  obtain ⟨lead, m, body, trail, rfl, hlead, hopens, hbody, htrail, hend⟩ :=
    opens_of_single hauto hcap (hends.runs_eq cfg) hsecBack hsec (by rw [hruns]; rfl)
  obtain ⟨r', hruns', hitems, -, hopen⟩ :=
    run_stretch hauto hcap (hends.runs_eq cfg) hsecBack hlead hopens hbody htrail
  have hsame : r = r' := by simpa [hruns] using hruns'
  refine ⟨pre, lead, m, body, trail, rfl, hends, hlead, hopens, hbody, htrail, hend, hopen, ?_⟩
  rw [items_append, hsame, hitems]

/-- A list has nothing around it if the whole is no longer than the list. -/
theorem outside_eq_nil {front mid back : List A} (h : front ++ mid ++ back = mid) :
    front = [] ∧ back = [] := by
  have hlen := congrArg List.length h
  rw [List.length_append, List.length_append] at hlen
  exact ⟨List.length_eq_zero_iff.mp (by omega), List.length_eq_zero_iff.mp (by omega)⟩

/-- A stream whose only run has all its items and is open at the end is undivided. -/
theorem undivided_of_open (hauto : cfg.auto = true) (hcap : 2 ≤ cfg.capacity)
    {marks : List (Mark A × ℕ)} (hback : ItemsBacked cfg .empty marks) {r : Run A}
    (hopen : (State.empty.run cfg marks).isOpen = true)
    (hreports : (State.empty.run cfg marks).reports = [])
    (hruns : (State.empty.run cfg marks).runs = [r]) (hitems : r.items = items marks) :
    Undivided cfg marks := by
  obtain ⟨pre, lead, m, body, trail, hsplit, hends, hlead, hopens, hbody, htrail, hend, -, hall⟩ :=
    stretch_of_single hauto hcap hback hruns
  have hpre : items pre = [] := by
    have hsame : items pre ++ r.items ++ [] = r.items := by rw [List.append_nil, ← hall, hitems]
    exact (outside_eq_nil hsame).1
  have hnone : ∀ m ∈ marks, m.1.isReport = false :=
    noReport_of_length (c := State.empty) (congrArg List.length hreports)
  refine ⟨pre, lead, m, body, trail, [], by rw [hsplit, List.append_nil],
    silent_of_items hpre fun m hm => hnone m ?_, hends, hlead, hopens, hbody, htrail,
    Or.inl ⟨hend hopen, rfl⟩⟩
  rw [hsplit]
  exact List.mem_append_left _ hm

/-- A stream whose only report is made by a flush, of one run with all its items, is undivided. -/
theorem undivided_of_flush (hauto : cfg.auto = true) (hcap : 2 ≤ cfg.capacity)
    {marks : List (Mark A × ℕ)} (hback : ItemsBacked cfg .empty marks) {k : ℕ} {r : Run A}
    (hopen : (State.empty.run cfg marks).isOpen = false)
    (hreports : (State.empty.run cfg marks).reports = [(k, [r])])
    (hitems : r.items = items marks) : Undivided cfg marks := by
  rcases exists_first_report marks with hnone | ⟨front, k', tail, hfirst, hfront⟩
  · rw [run_reports_of_noReport cfg .empty marks hnone] at hreports
    simp [State.empty] at hreports
  · subst hfirst
    obtain ⟨hfrontBack, -⟩ := (itemsBacked_append cfg .empty front _).mp hback
    have hflush : ((State.empty.run cfg front).step cfg (.flush true, k')).reports =
        [(k', (State.empty.run cfg front).runs)] := by
      rw [State.step, run_reports_of_noReport cfg .empty front hfront]
      rfl
    rw [State.run_append, State.run_cons] at hreports
    -- no report is made behind the flush
    have hstarts := ((State.empty.run cfg front).step cfg (.flush true, k')).reports_prefix_run
      cfg tail
    have hsame := hstarts.eq_of_length (by rw [hreports, hflush]; rfl)
    have htail := noReport_of_length (congrArg List.length hsame.symm)
    rw [hreports, hflush] at hsame
    simp only [List.cons.injEq, Prod.mk.injEq, and_true] at hsame
    obtain ⟨pre, lead, m, body, trail, hsplit, hends, hlead, hopens, hbody, htrail, -, hstops,
      hall⟩ := stretch_of_single hauto hcap hfrontBack hsame.2
    have hitemsTail : items ((.flush true, k') :: tail) = items tail := rfl
    have houtside : items pre ++ r.items ++ items tail = r.items := by
      rw [← hall, hitems, items_append, hitemsTail]
    obtain ⟨hpre, htailItems⟩ := outside_eq_nil houtside
    have htailSilent := silent_of_items htailItems htail
    rw [State.run_append, isOpen_reported_iff htailSilent k' hstops] at hopen
    refine ⟨pre, lead, m, body, trail, (.flush true, k') :: tail, by rw [hsplit],
      silent_of_items hpre fun m hm => hfront m ?_, hends, hlead, hopens, hbody, htrail,
      Or.inr ⟨k', tail, rfl, htailSilent, hopen⟩⟩
    rw [hsplit]
    exact List.mem_append_left _ hm

/-- A stream that makes one report of one run with all its items is undivided. -/
theorem undivided_of_closed (hauto : cfg.auto = true) (hcap : 2 ≤ cfg.capacity)
    {marks : List (Mark A × ℕ)} (hback : ItemsBacked cfg .empty marks) {n k : ℕ} {r : Run A}
    (hclosed : (State.empty.run cfg marks).closed n = [(k, [r])])
    (hitems : r.items = items marks) : Undivided cfg marks := by
  unfold State.closed at hclosed
  by_cases hopen : (State.empty.run cfg marks).isOpen = true
  · rw [if_pos hopen] at hclosed
    rw [← List.nil_append [(k, [r])]] at hclosed
    obtain ⟨hreports, hruns⟩ := List.append_inj' hclosed rfl
    simp only [List.cons.injEq, Prod.mk.injEq, and_true] at hruns
    exact undivided_of_open hauto hcap hback hopen hreports hruns.2 hitems
  · rw [if_neg hopen, List.append_nil] at hclosed
    exact undivided_of_flush hauto hcap hback (Bool.eq_false_iff.mpr hopen) hclosed hitems

/-- Exactly the undivided streams make one report, of one run with all their items. -/
theorem closed_iff_undivided (hauto : cfg.auto = true) (hcap : 2 ≤ cfg.capacity)
    {marks : List (Mark A × ℕ)} (hback : ItemsBacked cfg .empty marks) (n : ℕ) :
    (∃ k r, (State.empty.run cfg marks).closed n = [(k, [r])] ∧ r.items = items marks) ↔
      Undivided cfg marks := by
  refine ⟨?_, fun h => h.closed_eq hauto hcap hback n⟩
  rintro ⟨k, r, hclosed, hitems⟩
  exact undivided_of_closed hauto hcap hback hclosed hitems

end

end Collect
