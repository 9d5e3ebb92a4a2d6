import FlukeTesting.Lib.Cut

/-!
# Phases of a marked stream

A stretch of a stream is silent, quiet or flowing by the marks that it lacks. In automatic mode
the number of collected runs tells these phases apart: a stretch without flushes that leaves one
run is quiet, then opens the run, flows, and is quiet again.
-/

namespace Collect

variable {A : Type*}

/-- Whether an element is a start mark. -/
def Mark.isStart : Mark A → Bool
  | start => true
  | _ => false

/-- Whether an element is a stop mark. -/
def Mark.isStop : Mark A → Bool
  | stop => true
  | _ => false

/-- Whether an element is a flush that reports. -/
def Mark.isReport : Mark A → Bool
  | flush written => written
  | _ => false

/-- No item and no report. -/
def Silent (marks : List (Mark A × ℕ)) : Prop :=
  ∀ m ∈ marks, m.1.item? = none ∧ m.1.isReport = false

/-- No item, no start and no flush. -/
def Quiet (marks : List (Mark A × ℕ)) : Prop :=
  ∀ m ∈ marks, m.1.item? = none ∧ m.1.isStart = false ∧ m.1.isFlush = false

/-- No start, no stop and no flush. -/
def Flowing (marks : List (Mark A × ℕ)) : Prop :=
  ∀ m ∈ marks, m.1.isStart = false ∧ m.1.isStop = false ∧ m.1.isFlush = false

/-- The stream is empty or its last element is a flush. -/
def EndsFlushed (marks : List (Mark A × ℕ)) : Prop :=
  marks = [] ∨ ∃ front written n, marks = front ++ [(.flush written, n)]

/-- No item of the stream meets an open run that is not collected. -/
def ItemsBacked (cfg : Config) : State A → List (Mark A × ℕ) → Prop
  | _, [] => True
  | c, m :: rest => (m.1.item?.isSome = true → c.Backed) ∧ ItemsBacked cfg (c.step cfg m) rest

/-- The items of a stream in two parts are backed when those of its parts are. -/
theorem itemsBacked_append (cfg : Config) (c : State A) (front back : List (Mark A × ℕ)) :
    ItemsBacked cfg c (front ++ back) ↔
      ItemsBacked cfg c front ∧ ItemsBacked cfg (c.run cfg front) back := by
  induction front generalizing c with
  | nil => simp [ItemsBacked]
  | cons m front ih => simp only [List.cons_append, ItemsBacked, ih, State.run_cons, and_assoc]

/-- The items of a stream in two parts are those of its parts. -/
theorem items_append (front back : List (Mark A × ℕ)) :
    items (front ++ back) = items front ++ items back := List.filterMap_append

/-- A silent stream has no items. -/
theorem Silent.items_eq {marks : List (Mark A × ℕ)} (h : Silent marks) : items marks = [] :=
  List.filterMap_eq_nil_iff.mpr fun m hm => (h m hm).1

/-- A quiet stream has no items. -/
theorem Quiet.items_eq {marks : List (Mark A × ℕ)} (h : Quiet marks) : items marks = [] :=
  List.filterMap_eq_nil_iff.mpr fun m hm => (h m hm).1

/-- Every element adds as many reports as it is. -/
theorem step_reports_length (cfg : Config) (c : State A) (m : Mark A × ℕ) :
    (c.step cfg m).reports.length = c.reports.length + if m.1.isReport then 1 else 0 := by
  by_cases hflush : m.1.isFlush = false
  · rw [step_reports cfg c m hflush]
    obtain ⟨mark, n⟩ := m
    cases mark with
    | flush written => simp [Mark.isFlush] at hflush
    | start | stop | item | other => simp [Mark.isReport]
  · obtain ⟨mark, n⟩ := m
    cases mark with
    | flush written => cases written <;> simp [State.step, Mark.isReport]
    | start | stop | item | other => exact absurd rfl hflush

/-- A stream adds as many reports as it has. -/
theorem run_reports_length (cfg : Config) (c : State A) (marks : List (Mark A × ℕ)) :
    (c.run cfg marks).reports.length =
      c.reports.length + marks.countP fun m => m.1.isReport := by
  induction marks generalizing c with
  | nil => rfl
  | cons m rest ih =>
    rw [State.run_cons, ih, step_reports_length, List.countP_cons]
    omega

/-- A stream that adds no reports has none. -/
theorem noReport_of_length {cfg : Config} {c : State A} {marks : List (Mark A × ℕ)}
    (h : (c.run cfg marks).reports.length = c.reports.length) :
    ∀ m ∈ marks, m.1.isReport = false := by
  rw [run_reports_length, Nat.add_eq_left, List.countP_eq_zero] at h
  exact fun m hm => Bool.eq_false_iff.mpr (h m hm)

/-- A stream without reports adds none. -/
theorem run_reports_of_noReport (cfg : Config) (c : State A) (marks : List (Mark A × ℕ))
    (h : ∀ m ∈ marks, m.1.isReport = false) : (c.run cfg marks).reports = c.reports := by
  have hlen : (c.run cfg marks).reports.length = c.reports.length := by
    rw [run_reports_length, List.countP_eq_zero.mpr fun m hm => by simp [h m hm], Nat.add_zero]
  exact ((c.reports_prefix_run cfg marks).eq_of_length hlen.symm).symm

/-- A flush leaves no runs. -/
theorem EndsFlushed.runs_eq {marks : List (Mark A × ℕ)} (h : EndsFlushed marks) (cfg : Config) :
    (State.empty.run cfg marks).runs = [] := by
  rcases h with rfl | ⟨front, written, n, rfl⟩
  · rfl
  · rw [State.run_append]
    rfl

/-- Every stream splits behind its last flush. -/
theorem exists_endsFlushed (marks : List (Mark A × ℕ)) :
    ∃ pre sec, marks = pre ++ sec ∧ EndsFlushed pre ∧ ∀ m ∈ sec, m.1.isFlush = false := by
  induction marks using List.reverseRecOn with
  | nil => exact ⟨[], [], rfl, Or.inl rfl, by simp⟩
  | append_singleton marks m ih =>
    obtain ⟨pre, sec, rfl, hpre, hsec⟩ := ih
    by_cases hflush : m.1.isFlush = false
    · refine ⟨pre, sec ++ [m], by simp, hpre, fun m' hm' => ?_⟩
      rcases List.mem_append.mp hm' with hold | hnew
      · exact hsec m' hold
      · rwa [List.mem_singleton.mp hnew]
    · obtain ⟨mark, n⟩ := m
      cases mark with
      | flush written => exact ⟨_, [], (List.append_nil _).symm, Or.inr ⟨_, written, n, rfl⟩, by simp⟩
      | start | stop | item | other => exact absurd rfl hflush

/-! ## What the phases do -/

/-- A quiet stream at most closes the open run. -/
theorem Quiet.run {marks : List (Mark A × ℕ)} (h : Quiet marks) (cfg : Config) (c : State A) :
    c.run cfg marks = c ∨ c.run cfg marks = { c with isOpen := false } := by
  induction marks generalizing c with
  | nil => exact Or.inl rfl
  | cons m rest ih =>
    have hrest := ih (fun m' hm' => h m' (List.mem_cons_of_mem _ hm'))
    obtain ⟨hitem, hstart, hflush⟩ := h m (by simp)
    obtain ⟨mark, n⟩ := m
    cases mark with
    | start => simp [Mark.isStart] at hstart
    | stop => exact (hrest { c with isOpen := false }).elim Or.inr Or.inr
    | flush written => simp [Mark.isFlush] at hflush
    | item a => simp [Mark.item?] at hitem
    | other => exact hrest c

/-- A quiet stream leaves a run open exactly if it was open and no stop comes. -/
theorem Quiet.run_isOpen_iff {marks : List (Mark A × ℕ)} (h : Quiet marks) (cfg : Config)
    (c : State A) : (c.run cfg marks).isOpen = true ↔
      c.isOpen = true ∧ ∀ m ∈ marks, m.1.isStop = false := by
  induction marks generalizing c with
  | nil => simp
  | cons m rest ih =>
    have hrest (d : State A) := ih (fun m' hm' => h m' (List.mem_cons_of_mem _ hm')) d
    obtain ⟨hitem, hstart, hflush⟩ := h m List.mem_cons_self
    obtain ⟨mark, n⟩ := m
    cases mark with
    | start => contradiction
    | stop => simp [State.step, hrest, Mark.isStop]
    | flush written => contradiction
    | item a => contradiction
    | other => simp [State.step, hrest, Mark.isStop]

/-- The number of start marks behind the last flush, or from `n` on without one. -/
def startsFrom (n : ℕ) (marks : List (Mark A × ℕ)) : ℕ :=
  marks.foldl (fun k m => if m.1.isFlush then 0 else if m.1.isStart then k + 1 else k) n

/-- A start mark of a stream is its first element or one behind that. -/
theorem exists_start_cons {P Q : List (Mark A × ℕ) → Prop} (m : Mark A × ℕ)
    (rest : List (Mark A × ℕ)) :
    (∃ pre j post, m :: rest = pre ++ (.start, j) :: post ∧ P pre ∧ Q post) ↔
      (m.1.isStart = true ∧ P [] ∧ Q rest) ∨
        ∃ pre j post, rest = pre ++ (.start, j) :: post ∧ P (m :: pre) ∧ Q post := by
  constructor
  · rintro ⟨pre, j, post, hsplit, hpre, hpost⟩
    cases pre with
    | nil =>
      obtain ⟨rfl, rfl⟩ := List.cons.inj hsplit
      exact Or.inl ⟨rfl, hpre, hpost⟩
    | cons m' pre =>
      obtain ⟨rfl, rfl⟩ := List.cons.inj hsplit
      exact Or.inr ⟨pre, j, post, rfl, hpre, hpost⟩
  · rintro (⟨hstart, hpre, hpost⟩ | ⟨pre, j, post, rfl, hpre, hpost⟩)
    · obtain ⟨mark, j⟩ := m
      cases mark with
      | start => exact ⟨[], j, rest, rfl, hpre, hpost⟩
      | stop | flush | item | other => contradiction
    · exact ⟨m :: pre, j, post, rfl, hpre, hpost⟩

/-- A silent stream leaves a run open exactly if it was open or a start mark found room, and no stop
comes behind that. -/
theorem Silent.run_isOpen_iff {marks : List (Mark A × ℕ)} (h : Silent marks) (cfg : Config)
    {c : State A} {n : ℕ} (hruns : c.runs.length = min n cfg.capacity) :
    (c.run cfg marks).isOpen = true ↔
      (c.isOpen = true ∧ ∀ m ∈ marks, m.1.isStop = false) ∨
        ∃ pre j post, marks = pre ++ (.start, j) :: post ∧ startsFrom n pre < cfg.capacity ∧
          ∀ m ∈ post, m.1.isStop = false := by
  induction marks generalizing c n with
  | nil => simp
  | cons m rest ih =>
    have hrest {d : State A} {k : ℕ} (hd : d.runs.length = min k cfg.capacity) :=
      ih (fun m' hm' => h m' (List.mem_cons_of_mem _ hm')) hd
    have hitem := (h m List.mem_cons_self).1
    rw [State.run_cons, exists_start_cons (P := fun pre => startsFrom n pre < cfg.capacity)
      (Q := fun post => ∀ m ∈ post, m.1.isStop = false), List.forall_mem_cons]
    obtain ⟨mark, k⟩ := m
    cases mark with
    | start =>
      have hlater (pre : List (Mark A × ℕ)) :
          startsFrom n ((.start, k) :: pre) = startsFrom (n + 1) pre := rfl
      have hnow : startsFrom n ([] : List (Mark A × ℕ)) = n := rfl
      have hstart : (Mark.start : Mark A).isStart = true := rfl
      have hstop : (Mark.start : Mark A).isStop = false := rfl
      simp only [hlater, hnow, hstart, hstop, true_and, State.step, State.start]
      by_cases hroom : n < cfg.capacity
      · rw [if_pos (by omega), hrest (k := n + 1) (by rw [List.length_append, List.length_singleton]; omega)]
        simp only [hroom, true_and, or_iff_right_of_imp (And.right : c.isOpen = true ∧ _ → _),
          ← or_assoc]
      · rw [if_neg (by omega), hrest (k := n + 1) (by omega)]
        simp only [hroom, false_and, false_or]
    | stop =>
      have hlater (pre : List (Mark A × ℕ)) :
          startsFrom n ((.stop, k) :: pre) = startsFrom n pre := rfl
      rw [State.step, hrest (d := { c with isOpen := false }) hruns]
      simp [Mark.isStart, Mark.isStop, hlater]
    | flush written =>
      have hlater (pre : List (Mark A × ℕ)) :
          startsFrom n ((.flush written, k) :: pre) = startsFrom 0 pre := rfl
      rw [hrest (d := c.step cfg (.flush written, k)) (k := 0) (by simp [State.step])]
      simp [State.step, Mark.isStart, Mark.isStop, hlater]
    | item a => contradiction
    | other =>
      have hlater (pre : List (Mark A × ℕ)) :
          startsFrom n ((.other, k) :: pre) = startsFrom n pre := rfl
      rw [State.step, hrest (d := c) hruns]
      simp [Mark.isStart, Mark.isStop, hlater]

/-- A flowing stream adds its items to the open run. -/
theorem Flowing.run {marks : List (Mark A × ℕ)} (h : Flowing marks) (cfg : Config) {c : State A}
    {r : Run A} (hruns : c.runs = [r]) (hopen : c.isOpen = true) :
    c.run cfg marks = { c with runs := [{ r with items := r.items ++ items marks }] } := by
  induction marks generalizing c r with
  | nil => simp [items, ← hruns]
  | cons m rest ih =>
    have htail : Flowing rest := fun m' hm' => h m' (List.mem_cons_of_mem _ hm')
    obtain ⟨hstart, hstop, hflush⟩ := h m (by simp)
    obtain ⟨mark, n⟩ := m
    cases mark with
    | start => simp [Mark.isStart] at hstart
    | stop => simp [Mark.isStop] at hstop
    | flush written => simp [Mark.isFlush] at hflush
    | item a =>
      have hstep : c.step cfg (.item a, n) =
          { c with runs := [{ r with items := r.items ++ [a] }] } := by
        simp [State.step, State.put, hopen, hruns, addLast]
      rw [State.run_cons, hstep,
        ih htail (c := { c with runs := [{ r with items := r.items ++ [a] }] }) rfl hopen]
      simp [items, Mark.item?]
    | other =>
      rw [State.run_cons, State.step, ih htail hruns hopen]
      simp [items, Mark.item?]

section

variable {cfg : Config} {c : State A}

/-- Without runs, a start opens the only run, and so does an item that finds no open run. -/
theorem step_opens (hauto : cfg.auto = true) (hcap : 2 ≤ cfg.capacity) (hruns : c.runs = [])
    {m : Mark A × ℕ} (hopens : m.1.starts true = true)
    (hback : m.1.item?.isSome = true → c.Backed) :
    c.step cfg m = { c with runs := [⟨m.2, m.1.item?.toList⟩], isOpen := true } := by
  have hroom : 0 < cfg.capacity := by omega
  obtain ⟨mark, n⟩ := m
  cases mark with
  | start => simp [State.step, State.start, hruns, hroom, Mark.item?]
  | item a =>
    have hclosed : c.isOpen = false := by
      by_contra hopen
      exact hback rfl ((Bool.not_eq_false _).mp hopen) hruns
    simp [State.step, State.start, State.put, hauto, hclosed, hruns, hroom, Mark.item?, addLast]
  | stop | flush | other => simp [Mark.starts] at hopens

/-- With a collected run, a stream without flushes that ends with one run has not opened
another one: no element but an item of the open run may have done so. -/
theorem step_of_single (hauto : cfg.auto = true) (hcap : 2 ≤ cfg.capacity) {r : Run A}
    (hruns : c.runs = [r]) {m : Mark A × ℕ} {rest : List (Mark A × ℕ)}
    (hflush : ∀ m' ∈ m :: rest, m'.1.isFlush = false)
    (hone : (c.run cfg (m :: rest)).runs.length = 1) :
    m.1.isStart = false ∧ (c.isOpen = false → m.1.item? = none) := by
  have hroom : 1 < cfg.capacity := by omega
  have hkept : ((c.step cfg m).runs.map Run.start).length ≤ 1 := by
    have hstarts := (c.step cfg m).starts_prefix_run cfg rest fun m' hm' =>
      hflush m' (List.mem_cons_of_mem _ hm')
    rw [State.run_cons] at hone
    rw [← hone, ← List.length_map (f := Run.start)]
    exact hstarts.length_le
  rw [List.length_map] at hkept
  obtain ⟨mark, n⟩ := m
  cases mark with
  | start => simp [State.step, State.start, hruns, hroom] at hkept
  | item a =>
    refine ⟨rfl, fun hclosed => ?_⟩
    simp [State.step, State.start, State.put, hauto, hclosed, hruns, hroom] at hkept
  | stop | flush | other => exact ⟨rfl, fun _ => rfl⟩

/-- Behind a closed run, a stream that ends with one run is quiet. -/
theorem quiet_of_single (hauto : cfg.auto = true) (hcap : 2 ≤ cfg.capacity) {r : Run A}
    (hruns : c.runs = [r]) (hclosed : c.isOpen = false) {marks : List (Mark A × ℕ)}
    (hflush : ∀ m ∈ marks, m.1.isFlush = false)
    (hone : (c.run cfg marks).runs.length = 1) : Quiet marks := by
  induction marks generalizing c with
  | nil => simp [Quiet]
  | cons m rest ih =>
    obtain ⟨hstart, hitem⟩ := step_of_single hauto hcap hruns hflush hone
    have hm := hflush m (by simp)
    have hrest (d : State A) (hd : c.step cfg m = d) (hdruns : d.runs = [r])
        (hdclosed : d.isOpen = false) : Quiet rest :=
      ih hdruns hdclosed (fun m' hm' => hflush m' (List.mem_cons_of_mem _ hm')) (hd ▸ hone)
    have htail : Quiet rest := by
      obtain ⟨mark, n⟩ := m
      cases mark with
      | start => simp [Mark.isStart] at hstart
      | stop => exact hrest _ rfl hruns rfl
      | flush written => simp [Mark.isFlush] at hm
      | item a => simp [Mark.item?, hclosed] at hitem
      | other => exact hrest _ rfl hruns hclosed
    intro m' hm'
    rcases List.mem_cons.mp hm' with rfl | hm'
    · exact ⟨hitem hclosed, hstart, hm⟩
    · exact htail m' hm'

/-- Behind an open run, a stream that ends with one run flows and then is quiet; if the run is
still open at its end, all of it flows. -/
theorem flowing_of_single (hauto : cfg.auto = true) (hcap : 2 ≤ cfg.capacity) {r : Run A}
    (hruns : c.runs = [r]) (hopen : c.isOpen = true) {marks : List (Mark A × ℕ)}
    (hflush : ∀ m ∈ marks, m.1.isFlush = false)
    (hone : (c.run cfg marks).runs.length = 1) :
    ∃ body trail, marks = body ++ trail ∧ Flowing body ∧ Quiet trail ∧
      ((c.run cfg marks).isOpen = true → trail = []) := by
  induction marks generalizing c r with
  | nil => exact ⟨[], [], rfl, by simp [Flowing], by simp [Quiet], fun _ => rfl⟩
  | cons m rest ih =>
    obtain ⟨hstart, -⟩ := step_of_single hauto hcap hruns hflush hone
    have hm := hflush m (by simp)
    have htail := fun m' hm' => hflush m' (List.mem_cons_of_mem m hm')
    by_cases hstop : m.1.isStop = true
    · -- the run is closed, and only quiet elements can follow
      obtain ⟨mark, n⟩ := m
      cases mark with
      | start | flush | item | other => simp [Mark.isStop] at hstop
      | stop =>
        have hquiet := quiet_of_single (c := { c with isOpen := false }) hauto hcap hruns rfl
          htail hone
        refine ⟨[], (.stop, n) :: rest, rfl, by simp [Flowing], fun m' hm' => ?_, fun hend => ?_⟩
        · rcases List.mem_cons.mp hm' with rfl | hm'
          · exact ⟨rfl, rfl, rfl⟩
          · exact hquiet m' hm'
        · rcases hquiet.run cfg { c with isOpen := false } with heq | heq <;>
            rw [State.run_cons, State.step, heq] at hend <;> contradiction
    · have hflow : Flowing [m] := by
        intro m' hm'
        rw [List.mem_singleton.mp hm']
        exact ⟨hstart, Bool.eq_false_iff.mpr hstop, hm⟩
      have hstep : c.step cfg m = _ := hflow.run cfg hruns hopen
      rw [State.run_cons, hstep] at hone ⊢
      obtain ⟨body, trail, rfl, hbody, htrail, hend⟩ :=
        ih (c := { c with runs := [{ r with items := r.items ++ items [m] }] }) rfl hopen htail hone
      refine ⟨m :: body, trail, rfl, fun m' hm' => ?_, htrail, hend⟩
      rcases List.mem_cons.mp hm' with rfl | hm'
      · exact hflow m' (by simp)
      · exact hbody m' hm'

/-- Without runs, a stream that ends with one run is quiet up to the element that opens it. -/
theorem opens_of_single (hauto : cfg.auto = true) (hcap : 2 ≤ cfg.capacity)
    (hruns : c.runs = []) {marks : List (Mark A × ℕ)} (hback : ItemsBacked cfg c marks)
    (hflush : ∀ m ∈ marks, m.1.isFlush = false)
    (hone : (c.run cfg marks).runs.length = 1) :
    ∃ lead m body trail, marks = lead ++ m :: (body ++ trail) ∧ Quiet lead ∧
      m.1.starts true = true ∧ Flowing body ∧ Quiet trail ∧
      ((c.run cfg marks).isOpen = true → trail = []) := by
  induction marks generalizing c with
  | nil => simp [hruns] at hone
  | cons m rest ih =>
    have hm := hflush m (by simp)
    have htail := fun m' hm' => hflush m' (List.mem_cons_of_mem m hm')
    by_cases hopens : m.1.starts true = true
    · have hstep := step_opens hauto hcap hruns hopens hback.1
      rw [State.run_cons, hstep] at hone ⊢
      obtain ⟨body, trail, rfl, hbody, htrail, hend⟩ :=
        flowing_of_single hauto hcap rfl rfl htail hone
      exact ⟨[], m, body, trail, rfl, by simp [Quiet], hopens, hbody, htrail, hend⟩
    · have hquiet : Quiet [m] := by
        intro m' hm'
        rw [List.mem_singleton.mp hm']
        obtain ⟨mark, n⟩ := m
        cases mark with
        | start | item => simp [Mark.starts] at hopens
        | flush => simp [Mark.isFlush] at hm
        | stop | other => exact ⟨rfl, rfl, rfl⟩
      have hnil : (c.step cfg m).runs = [] := by
        rcases hquiet.run cfg c with heq | heq <;>
          rw [State.run_cons, State.run_nil] at heq <;> rw [heq] <;> exact hruns
      rw [State.run_cons] at hone ⊢
      obtain ⟨lead, m', body, trail, rfl, hlead, hrest⟩ := ih hnil hback.2 htail hone
      refine ⟨m :: lead, m', body, trail, rfl, fun m'' hm'' => ?_, hrest⟩
      rcases List.mem_cons.mp hm'' with rfl | hm''
      · exact hquiet m'' (by simp)
      · exact hlead m'' hm''

end

end Collect
