import FlukeTesting.Lib.Collect

/-!
# Collecting does not look at the items

Replacing every item of a stream by another one replaces the items of the collected runs and of
the reports, and changes nothing else.
-/

namespace Collect

variable {A B : Type*}

/-- An element with its item replaced. -/
def Mark.map (f : A → B) : Mark A → Mark B
  | start => .start
  | stop => .stop
  | flush written => .flush written
  | item a => .item (f a)
  | other => .other

/-- A run with its items replaced. -/
def Run.map (f : A → B) (r : Run A) : Run B := ⟨r.start, r.items.map f⟩

/-- A collector with the items of its runs and reports replaced. -/
def State.map (f : A → B) (c : State A) : State B where
  runs := c.runs.map (Run.map f)
  isOpen := c.isOpen
  reports := c.reports.map fun (n, runs) => (n, runs.map (Run.map f))

/-- Appending to the last run commutes with the replacement. -/
theorem addLast_map (f : A → B) (a : A) (runs : List (Run A)) :
    addLast (f a) (runs.map (Run.map f)) = (addLast a runs).map (Run.map f) := by
  rcases List.eq_nil_or_concat runs with rfl | ⟨front, r, rfl⟩
  · rfl
  · simp [Run.map]

/-- A start mark commutes with the replacement. -/
theorem State.start_map (f : A → B) (cfg : Config) (n : ℕ) (c : State A) :
    (c.map f).start cfg n = (c.start cfg n).map f := by
  unfold State.start
  rw [State.map, List.length_map]
  split
  · simp [State.map, Run.map]
  · rfl

/-- An item commutes with the replacement. -/
theorem State.put_map (f : A → B) (a : A) (c : State A) :
    (c.map f).put (f a) = (c.put a).map f := by
  have hopen : (c.map f).isOpen = c.isOpen := rfl
  rw [State.put, State.put, hopen]
  split
  · simp [State.map, addLast_map]
  · rfl

/-- What the end of the stream leaves if it reports the open run: the runs stay, closed. -/
def State.conclude (n : ℕ) (c : State A) : State A :=
  { c with isOpen := false, reports := c.reports ++ [(n, c.runs)] }

/-- The end of the stream commutes with the replacement. -/
theorem State.conclude_map (f : A → B) (n : ℕ) (c : State A) :
    (c.map f).conclude n = (c.conclude n).map f := by
  simp [State.conclude, State.map]

/-- An element commutes with the replacement. -/
theorem State.step_map (f : A → B) (cfg : Config) (c : State A) (m : Mark A × ℕ) :
    (c.map f).step cfg (m.1.map f, m.2) = (c.step cfg m).map f := by
  obtain ⟨mark, n⟩ := m
  cases mark with
  | start => exact c.start_map f cfg n
  | stop => rfl
  | flush written => cases written <;> simp [Mark.map, State.step, State.map]
  | item a =>
    have hopen : (c.map f).isOpen = c.isOpen := rfl
    simp only [Mark.map, State.step, hopen]
    split
    · rw [State.start_map, State.put_map]
    · rw [State.put_map]
  | other => rfl

end Collect
