import FlukeTesting.Lib.Collect

/-!
# The declarative cut of a marked stream

A stream is cut at its flushes into sections, and a section at its start and stop marks into
runs. The collector without automatic mode reports exactly this cut of every stream in which
no flush meets an open run. However a stream is marked, every item is collected or reported at
most once and in the order of the stream.
-/

namespace Collect

variable {A : Type*}

/-- Whether an element ends the run before it. A start mark does so only if it is accepted. -/
def Mark.ends (accepting : Bool) : Mark A → Bool
  | stop => true
  | start => accepting
  | _ => false

/-- The items that a run collects from the elements after its start. -/
def runItems (accepting : Bool) (marks : List (Mark A × ℕ)) : List A :=
  (marks.takeWhile fun m => !m.1.ends accepting).filterMap fun m => m.1.item?

/-- The runs of a section of the stream without flushes, the first `left` of them. -/
def sectionRuns : ℕ → List (Mark A × ℕ) → List (Run A)
  | 0, _ => []
  | _ + 1, [] => []
  | left + 1, (.start, n) :: rest =>
    ⟨n, runItems (decide (0 < left)) rest⟩ :: sectionRuns left rest
  | left + 1, _ :: rest => sectionRuns (left + 1) rest

/-- An element joins the first section behind it. -/
def joinFirst (m : Mark A × ℕ) :
    List (List (Mark A × ℕ) × Bool × ℕ) → List (List (Mark A × ℕ) × Bool × ℕ)
  | [] => []
  | (front, flush) :: more => (m :: front, flush) :: more

/-- The elements before each flush and after the flush before it, with that flush. -/
def sections : List (Mark A × ℕ) → List (List (Mark A × ℕ) × Bool × ℕ)
  | [] => []
  | (.flush written, n) :: rest => ([], written, n) :: sections rest
  | m :: rest => joinFirst m (sections rest)

/-- An element other than a flush joins the section behind it. -/
theorem sections_cons {m : Mark A × ℕ} (hflush : m.1.isFlush = false)
    (rest : List (Mark A × ℕ)) : sections (m :: rest) = joinFirst m (sections rest) := by
  obtain ⟨mark, n⟩ := m
  cases mark with
  | flush written => simp [Mark.isFlush] at hflush
  | start | stop | item | other => rfl

/-- The report of one section. -/
def sectionReport (capacity : ℕ) : List (Mark A × ℕ) × Bool × ℕ → Option (ℕ × List (Run A))
  | (front, written, n) => if written then some (n, sectionRuns capacity front) else none

/-- The reports of a stream: one for each written flush, of the runs of its section. -/
def cut (capacity : ℕ) (marks : List (Mark A × ℕ)) : List (ℕ × List (Run A)) :=
  (sections marks).filterMap (sectionReport capacity)

/-- Append items one by one to the last run. -/
def extendLast (items : List A) (runs : List (Run A)) : List (Run A) :=
  items.foldl (fun runs a => addLast a runs) runs

@[simp] theorem extendLast_nil (runs : List (Run A)) : extendLast [] runs = runs := rfl

@[simp] theorem extendLast_cons (a : A) (items : List A) (runs : List (Run A)) :
    extendLast (a :: items) runs = extendLast items (addLast a runs) := rfl

/-- Extending the last run gives it exactly the new items. -/
@[simp] theorem extendLast_concat (items : List A) (runs : List (Run A)) (r : Run A) :
    extendLast items (runs ++ [r]) = runs ++ [{ r with items := r.items ++ items }] := by
  induction items generalizing r with
  | nil => simp
  | cons a items ih => simp [ih]

/-- An element ends the run, or joins it if it is an item. -/
theorem runItems_cons (accepting : Bool) (m : Mark A × ℕ) (rest : List (Mark A × ℕ)) :
    runItems accepting (m :: rest) =
      if m.1.ends accepting then [] else m.1.item?.toList ++ runItems accepting rest := by
  cases h : m.1.ends accepting with
  | true => simp [runItems, h]
  | false => cases hi : m.1.item? <;> simp [runItems, h, hi]

/-- The runs after a stream without flushes: the open run goes on, and then come the runs that
the stream starts itself. -/
def continued (capacity : ℕ) (c : State A) (marks : List (Mark A × ℕ)) : List (Run A) :=
  (if c.isOpen then extendLast (runItems (decide (c.runs.length < capacity)) marks) c.runs
    else c.runs) ++ sectionRuns (capacity - c.runs.length) marks

/-- An element other than a flush moves from the stream into the collected runs. -/
theorem continued_step {cfg : Config} (hauto : cfg.auto = false) (c : State A)
    (m : Mark A × ℕ) (hflush : m.1.isFlush = false) (rest : List (Mark A × ℕ)) :
    continued cfg.capacity (c.step cfg m) rest = continued cfg.capacity c (m :: rest) := by
  obtain ⟨mark, n⟩ := m
  cases mark with
  | start =>
    by_cases hroom : c.runs.length < cfg.capacity
    · obtain ⟨left, hleft⟩ : ∃ left, cfg.capacity - c.runs.length = left + 1 :=
        ⟨cfg.capacity - c.runs.length - 1, by omega⟩
      have hnext : cfg.capacity - (c.runs.length + 1) = left := by omega
      have hmore : (c.runs.length + 1 < cfg.capacity) = (0 < left) := by
        rw [eq_iff_iff]
        omega
      simp [continued, State.step, State.start, hroom, runItems_cons, Mark.ends, hleft, hnext,
        hmore, sectionRuns]
    · -- a rejected start neither opens a run nor ends the open one
      have hleft : cfg.capacity - c.runs.length = 0 := by omega
      simp [continued, State.step, State.start, hroom, runItems_cons, Mark.ends, Mark.item?,
        hleft, sectionRuns]
  | stop =>
    cases hleft : cfg.capacity - c.runs.length <;>
      simp [continued, State.step, runItems_cons, Mark.ends, hleft, sectionRuns]
  | flush written => simp [Mark.isFlush] at hflush
  | item a =>
    cases hleft : cfg.capacity - c.runs.length <;> cases hopen : c.isOpen <;>
      simp [continued, State.step, State.put, hauto, hopen, runItems_cons, Mark.ends,
        Mark.item?, hleft, sectionRuns]
  | other =>
    change continued cfg.capacity c rest = _
    cases hleft : cfg.capacity - c.runs.length <;>
      simp [continued, runItems_cons, Mark.ends, Mark.item?, hleft, sectionRuns]

/-- Without a flush, the collector holds what the cut of the section says. -/
theorem run_section {cfg : Config} (hauto : cfg.auto = false) (c : State A)
    (front : List (Mark A × ℕ)) (hflush : ∀ m ∈ front, m.1.isFlush = false) :
    (c.run cfg front).runs = continued cfg.capacity c front ∧
      (c.run cfg front).reports = c.reports := by
  induction front generalizing c with
  | nil => cases hleft : cfg.capacity - c.runs.length <;> simp [continued, runItems, hleft, sectionRuns]
  | cons m rest ih =>
    obtain ⟨hruns, hreports⟩ := ih (c.step cfg m) fun m' hm' =>
      hflush m' (List.mem_cons_of_mem _ hm')
    have hm := hflush m (by simp)
    rw [State.run_cons, ← continued_step hauto c m hm rest]
    exact ⟨hruns, hreports.trans (step_reports cfg c m hm)⟩

/-- The first section of a stream ends at its first flush. -/
theorem sections_append_flush (front : List (Mark A × ℕ)) (written : Bool) (n : ℕ)
    (rest : List (Mark A × ℕ)) (hflush : ∀ m ∈ front, m.1.isFlush = false) :
    sections (front ++ (.flush written, n) :: rest) = (front, written, n) :: sections rest := by
  induction front with
  | nil => rfl
  | cons m front ih =>
    rw [List.cons_append, sections_cons (hflush m (by simp)),
      ih fun m' hm' => hflush m' (List.mem_cons_of_mem _ hm')]
    rfl

/-- A stream without flushes has no section. -/
theorem sections_of_noFlush (front : List (Mark A × ℕ))
    (hflush : ∀ m ∈ front, m.1.isFlush = false) : sections front = [] := by
  induction front with
  | nil => rfl
  | cons m front ih =>
    rw [sections_cons (hflush m (by simp)), ih fun m' hm' => hflush m' (List.mem_cons_of_mem _ hm')]
    rfl

/-- A stream is free of flushes or has a first one. -/
theorem exists_first_flush (marks : List (Mark A × ℕ)) :
    (∀ m ∈ marks, m.1.isFlush = false) ∨
      ∃ front written n rest, marks = front ++ (.flush written, n) :: rest ∧
        ∀ m ∈ front, m.1.isFlush = false := by
  induction marks with
  | nil => simp
  | cons m marks ih =>
    obtain ⟨mark, k⟩ := m
    by_cases hm : mark.isFlush = false
    · rcases ih with hnone | ⟨front, written, n, rest, rfl, hfront⟩
      · left
        simpa [hm] using hnone
      · right
        exact ⟨(mark, k) :: front, written, n, rest, rfl, by simpa [hm] using hfront⟩
    · cases mark with
      | flush written => exact Or.inr ⟨[], written, k, marks, rfl, by simp⟩
      | start => exact absurd rfl hm
      | stop => exact absurd rfl hm
      | item a => exact absurd rfl hm
      | other => exact absurd rfl hm

/-- The collector reports exactly the declarative cut of the stream. -/
theorem run_reports_eq_cut {cfg : Config} (hauto : cfg.auto = false) (c : State A)
    (hruns : c.runs = []) (hopen : c.isOpen = false) (marks : List (Mark A × ℕ))
    (hflush : NoFlushOpen cfg c marks) :
    (c.run cfg marks).reports = c.reports ++ cut cfg.capacity marks := by
  rcases exists_first_flush marks with hnone | ⟨front, written, n, rest, rfl, hfront⟩
  · rw [(run_section hauto c marks hnone).2, cut, sections_of_noFlush marks hnone]
    simp
  · obtain ⟨-, hhead, htail⟩ := (noFlushOpen_append cfg c front _).mp hflush
    have hclosed : (c.run cfg front).isOpen = false := hhead rfl
    obtain ⟨hfrontRuns, hfrontReports⟩ := run_section hauto c front hfront
    have hsection : (c.run cfg front).runs = sectionRuns cfg.capacity front := by
      simpa [continued, hopen, hruns] using hfrontRuns
    -- after the flush the collector starts the next section as it started this one
    have hrest := run_reports_eq_cut hauto ((c.run cfg front).step cfg (.flush written, n)) rfl
      hclosed rest htail
    rw [State.run_append, State.run_cons, hrest, cut, cut,
      sections_append_flush front written n rest hfront]
    cases written <;> simp [State.step, hsection, hfrontReports, sectionReport]
termination_by marks.length
decreasing_by simp [*]; omega

/-- Later elements add sections and change none. -/
theorem sections_front (front back : List (Mark A × ℕ)) :
    sections front <+: sections (front ++ back) := by
  induction front with
  | nil => exact List.nil_prefix
  | cons m front ih =>
    obtain ⟨more, hmore⟩ := ih
    by_cases hflush : m.1.isFlush = false
    · rw [List.cons_append, sections_cons hflush, sections_cons hflush, ← hmore]
      cases sections front with
      | nil => exact List.nil_prefix
      | cons s rest => exact List.prefix_append _ more
    · obtain ⟨mark, n⟩ := m
      cases mark with
      | flush written => simp [sections, ← hmore]
      | start | stop | item | other => exact absurd rfl hflush

/-- Later elements add reports and change none. -/
theorem cut_front (capacity : ℕ) (front back : List (Mark A × ℕ)) :
    cut capacity front <+: cut capacity (front ++ back) :=
  (sections_front front back).filterMap _

/-! ## What the collector takes from the stream -/

/-- The items of a stream in their order. -/
def items (marks : List (Mark A × ℕ)) : List A := marks.filterMap fun m => m.1.item?

/-- The items of reported runs in their order. -/
def reportedItems (reports : List (ℕ × List (Run A))) : List A :=
  reports.flatMap fun r => r.2.flatMap Run.items

/-- The items in the reports and in the collected runs. -/
def State.account (c : State A) : List A := reportedItems c.reports ++ c.runs.flatMap Run.items

/-- An element adds at most its own item to what is collected and reported. -/
theorem State.account_step (cfg : Config) (c : State A) (m : Mark A × ℕ) :
    (c.step cfg m).account.Sublist (c.account ++ m.1.item?.toList) := by
  have hstart (n : ℕ) : (c.start cfg n).account = c.account := by
    unfold State.start State.account
    split <;> simp
  have hput (d : State A) (a : A) : (d.put a).account.Sublist (d.account ++ [a]) := by
    unfold State.put State.account
    split
    · rcases List.eq_nil_or_concat d.runs with hnil | ⟨runs, r, hruns⟩
      · simp [hnil]
      · simp [hruns]
    · simp
  obtain ⟨mark, n⟩ := m
  cases mark with
  | start => simp [State.step, hstart]
  | stop => simp [State.step, State.account]
  | flush written => cases written <;> simp [State.step, State.account, reportedItems, Mark.item?]
  | item a =>
    have hd : (if (cfg.auto && !c.isOpen) = true then c.start cfg n else c).account = c.account := by
      split
      · exact hstart n
      · rfl
    have := hput (if (cfg.auto && !c.isOpen) = true then c.start cfg n else c) a
    rwa [hd] at this
  | other => simp [State.step]

/-- A stream adds at most its own items to what is collected and reported. -/
theorem State.account_run (cfg : Config) (c : State A) (marks : List (Mark A × ℕ)) :
    (c.run cfg marks).account.Sublist (c.account ++ items marks) := by
  induction marks generalizing c with
  | nil => simp [items]
  | cons m rest ih =>
    have hitems : items (m :: rest) = m.1.item?.toList ++ items rest := by
      cases hi : m.1.item? <;> simp [items, hi]
    rw [State.run_cons, hitems, ← List.append_assoc]
    exact (ih (c.step cfg m)).trans ((c.account_step cfg m).append_right _)

end Collect
