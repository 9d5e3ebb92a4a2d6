import FlukeTesting.Drivers.Scripts
import FlukeTesting.Lib.Bench

/-!
# The settings under which `powertop-tweaks` measures

The script sets every option bad that it can, and then measures every option that is bad, first bad
and then good. It warns of an option that cannot be set good or bad again, but measures it all the
same, and one that stays good stays so for every option behind it.
-/

namespace FlukeTesting.PowertopTweaks

open Statstool Drivers

/-- Which options are good, by their index. -/
abbrev Settings := ℕ → Bool

/-- An option of `powertop`: its index, its description, whether it can be set good and bad, and
what `powertop --good` and `powertop --bad` do with it. They are relied on to touch no other one. -/
structure Tunable where
  index : ℕ
  tweak : Tweak
  canGood : Bool
  canBad : Bool
  toggle : Bool → Settings → Settings
  toggle_eq : ∀ good s, toggle good s = Function.update s index
    (if (if good then canGood else canBad) then good else s index)

/-- What is seen of a session: messages that are sent, and the machine measured in a run of the good
or the bad setting. -/
abbrev Output := Bench.Output Message (Bool × Settings)

/-- A session of commands. -/
abbrev Session := Bench.Session Settings Message (Bool × Settings)

namespace Tunable

variable (t : Tunable)

/-- What an option is after an attempt to set it. -/
def turned (good value : Bool) : Bool :=
  if (if good then t.canGood else t.canBad) then good else value

/-- `set_good` and `set_bad`. -/
def set (good : Bool) : Bench.Command Settings Output := .change (t.toggle good)

/-- One iteration of a setting. -/
def run (good : Bool) (i : Iteration) : Session :=
  t.set good :: Bench.measure (.testRunBegin i.run) (.testRunEnd i.run) fun s => (good, s)

/-- The test of a setting. -/
def test (iterations : ℕ) (good : Bool) : Session :=
  let script := tweakTest none iterations t.tweak good
  Bench.send (.testBegin script.title) :: script.iterations.flatMap (t.run good) ++
    Bench.send (.testEnd script.ending) :: (script.notes.map .other).map Bench.send

/-- One turn of the main loop. -/
def session (iterations : ℕ) : Session :=
  t.set true :: t.set false :: t.test iterations false ++ (t.test iterations true ++ [t.set false])

end Tunable

/-- `set_all_bad`, on the options that are good. -/
def setAllBad (tunables : List Tunable) (s : Settings) : Session :=
  (tunables.filter fun t => s t.index).map fun t => t.set false

/-- The settings with which the main loop begins. -/
def base (tunables : List Tunable) (s : Settings) : Settings :=
  Bench.exec (setAllBad tunables s) s

/-- `get_all_bad`. -/
def getAllBad (tunables : List Tunable) (s : Settings) : List Tunable :=
  tunables.filter fun t => !s t.index

/-- `test.sh`. -/
def session (tunables : List Tunable) (machine : Machine) (iterations : ℕ) (s : Settings) :
    Session :=
  setAllBad tunables s ++ Bench.send (.testClient machine) ::
    (getAllBad tunables (base tunables s)).flatMap fun t => t.session iterations

/-! ## One option -/

namespace Tunable

variable (t : Tunable)

/-- What a turn of the main loop leaves of an option. -/
def left (value : Bool) : Bool := t.turned false (t.turned true value)

/-- To set an option again changes nothing. -/
theorem turned_turned (good value : Bool) :
    t.turned good (t.turned good value) = t.turned good value := by
  obtain ⟨index, tweak, canGood, canBad, toggle, htoggle⟩ := t
  cases good <;> cases canGood <;> cases canBad <;> rfl

/-- An option that stays good stays so behind every other attempt. -/
theorem turned_left (value : Bool) :
    t.turned false (t.turned true (t.left value)) = t.left value := by
  obtain ⟨index, tweak, canGood, canBad, toggle, htoggle⟩ := t
  cases canGood <;> cases canBad <;> rfl

/-- An option that was bad stays good if it can be set good but not bad again. -/
theorem left_false : t.left false = (t.canGood && !t.canBad) := by
  obtain ⟨index, tweak, canGood, canBad, toggle, htoggle⟩ := t
  cases canGood <;> cases canBad <;> rfl

/-- An option that was bad is good in the test of its good setting if it can be set good. -/
theorem turned_true_left : t.turned true (t.canGood && !t.canBad) = t.canGood := by
  obtain ⟨index, tweak, canGood, canBad, toggle, htoggle⟩ := t
  cases canGood <;> cases canBad <;> rfl

/-- An attempt to set an option touches no other one. -/
theorem exec_set (good : Bool) (rest : Session) (s : Settings) :
    Bench.exec (t.set good :: rest) s =
      Bench.exec rest (Function.update s t.index (t.turned good (s t.index))) :=
  congrArg (Bench.exec rest) (t.toggle_eq good s)

/-- Nothing is observed in an attempt to set an option. -/
theorem trace_set (good : Bool) (rest : Session) (s : Settings) :
    Bench.trace (t.set good :: rest) s =
      Bench.trace rest (Function.update s t.index (t.turned good (s t.index))) :=
  congrArg (Bench.trace rest) (t.toggle_eq good s)

/-- A run sets its option. -/
theorem exec_run (good : Bool) (i : Iteration) (s : Settings) : Bench.exec (t.run good i) s =
    Function.update s t.index (t.turned good (s t.index)) := t.exec_set good _ s

/-- Runs set their option if there are any. -/
theorem exec_runs (good : Bool) (its : List Iteration) (s : Settings) :
    Bench.exec (its.flatMap (t.run good)) s =
      if its = [] then s else Function.update s t.index (t.turned good (s t.index)) := by
  induction its generalizing s with
  | nil => rfl
  | cons i its ih =>
    rw [List.flatMap_cons, Bench.exec_append, exec_run, ih, if_neg (List.cons_ne_nil i its)]
    split
    · rfl
    · rw [Function.update_self, Function.update_idem, turned_turned]

/-- The settings of runs. -/
theorem work_runs (good : Bool) (its : List Iteration) (s : Settings) (g : Bool) (w : Settings) :
    Bench.Output.work (g, w) ∈ Bench.trace (its.flatMap (t.run good)) s ↔
      its ≠ [] ∧ g = good ∧ w = Function.update s t.index (t.turned good (s t.index)) := by
  induction its generalizing s with
  | nil => simp [Bench.trace]
  | cons i its ih =>
    have hrun : Bench.Output.work (g, w) ∈ Bench.trace (t.run good i) s ↔
        g = good ∧ w = Function.update s t.index (t.turned good (s t.index)) := by
      rw [run, trace_set]
      simp [Bench.measure, Bench.send, Bench.workload, Bench.trace]
    rw [List.flatMap_cons, Bench.trace_append, List.mem_append, hrun, ih, exec_run,
      Function.update_self, Function.update_idem, turned_turned]
    simp only [ne_eq, reduceCtorEq, not_false_eq_true, true_and]
    exact or_iff_left_of_imp And.right

variable (iterations : ℕ)

/-- There are runs if there are iterations. -/
theorem iterations_eq_nil_iff (good : Bool) :
    (tweakTest none iterations t.tweak good).iterations = [] ↔ iterations = 0 := by
  rw [tweakTest, List.map_eq_nil_iff, List.range_eq_nil]

/-- A test sets its option if it has iterations. -/
theorem exec_test (good : Bool) (s : Settings) : Bench.exec (t.test iterations good) s =
    if iterations = 0 then s else Function.update s t.index (t.turned good (s t.index)) := by
  simp only [test, Bench.send, List.cons_append, Bench.exec, Bench.exec_append, t.exec_runs,
    t.iterations_eq_nil_iff]
  exact Bench.exec_sends _ _

/-- The settings of the runs of a test. -/
theorem work_test (good : Bool) (s : Settings) (g : Bool) (w : Settings) :
    Bench.Output.work (g, w) ∈ Bench.trace (t.test iterations good) s ↔
      iterations ≠ 0 ∧ g = good ∧ w = Function.update s t.index (t.turned good (s t.index)) := by
  have hnotes (s : Settings) := Bench.work_notMem_sends
    ((tweakTest none iterations t.tweak good).notes.map Message.other) s (g, w)
  rw [ne_eq, ← t.iterations_eq_nil_iff iterations good, ← ne_eq, ← t.work_runs]
  simp only [test, Bench.send, List.cons_append, Bench.trace, Bench.trace_append, List.mem_cons,
    List.mem_append, reduceCtorEq, false_or]
  exact or_iff_left (hnotes _)

/-- What the attempts and the test of the bad setting leave. -/
theorem exec_first (s : Settings) :
    Bench.exec (t.set true :: t.set false :: t.test iterations false) s =
      Function.update s t.index (t.left (s t.index)) := by
  rw [exec_set, exec_set, exec_test, Function.update_idem, Function.update_self,
    Function.update_self, Function.update_idem, turned_turned]
  exact ite_self _

/-- What a turn of the main loop leaves. -/
theorem exec_session (s : Settings) : Bench.exec (t.session iterations) s =
    Function.update s t.index (t.left (s t.index)) := by
  rw [session, Bench.exec_append, t.exec_first, Bench.exec_append, exec_test, exec_set]
  change Function.update _ t.index _ = _
  split
  · rw [Function.update_idem, Function.update_self, left, turned_turned]
  · rw [Function.update_self, Function.update_idem, Function.update_idem, Function.update_self,
      turned_left]

/-- The settings of the runs of a turn of the main loop. -/
theorem work_session (s : Settings) (good : Bool) (w : Settings) :
    Bench.Output.work (good, w) ∈ Bench.trace (t.session iterations) s ↔ iterations ≠ 0 ∧
      w = Function.update s t.index
        (if good then t.turned true (t.left (s t.index)) else t.left (s t.index)) := by
  have hfirst : Bench.Output.work (good, w) ∈
      Bench.trace (t.set true :: t.set false :: t.test iterations false) s ↔
        iterations ≠ 0 ∧ good = false ∧ w = Function.update s t.index (t.left (s t.index)) := by
    rw [trace_set, trace_set, work_test, Function.update_idem, Function.update_self,
      Function.update_self, Function.update_idem, turned_turned]
    rfl
  have hlast (s : Settings) : Bench.Output.work (good, w) ∉ Bench.trace [t.set false] s :=
    List.not_mem_nil
  rw [session, Bench.trace_append, List.mem_append, hfirst, t.exec_first, Bench.trace_append,
    List.mem_append, or_iff_left (hlast _), work_test, Function.update_self, Function.update_idem]
  cases good <;> simp

/-- What `sendtag` sends in a test. -/
theorem messages_test (good : Bool) (s : Settings) :
    (Bench.trace (t.test iterations good) s).filterMap Bench.Output.message? =
      (tweakTest none iterations t.tweak good).messages := by
  have hruns (its : List Iteration) (s : Settings) :
      (Bench.trace (its.flatMap (t.run good)) s).filterMap Bench.Output.message? =
        its.flatMap fun i => [.testRunBegin i.run, .testRunEnd i.run] :=
    Bench.filterMap_trace_flatMap (fun _ _ => rfl) its s
  have hnotes (s : Settings) := Bench.message_trace_sends (W := Bool × Settings)
    ((tweakTest none iterations t.tweak good).notes.map Message.other) s
  have hiterations : ((tweakTest none iterations t.tweak good).iterations.flatMap fun i =>
      [Message.testRunBegin i.run, .testRunEnd i.run]) =
        (tweakTest none iterations t.tweak good).iterations.flatMap Iteration.messages := by
    rw [tweakTest, List.flatMap_map, List.flatMap_map]
    rfl
  simp only [test, Bench.send, List.cons_append, Bench.trace, Bench.trace_append,
    List.filterMap_cons, List.filterMap_append, Bench.Output.message?, hruns, hiterations]
  rw [hnotes]
  rfl

/-- What `sendtag` sends in a turn of the main loop. -/
theorem messages_session (s : Settings) :
    (Bench.trace (t.session iterations) s).filterMap Bench.Output.message? =
      (tweakTest none iterations t.tweak false).messages ++
        (tweakTest none iterations t.tweak true).messages := by
  rw [session, List.cons_append, List.cons_append, trace_set, trace_set, Bench.trace_append,
    Bench.trace_append, List.filterMap_append, List.filterMap_append, messages_test, messages_test]
  exact congrArg _ (List.append_nil _)

end Tunable

/-! ## The whole session -/

/-- `set_all_bad` leaves what cannot be set bad. -/
theorem base_eq {tunables : List Tunable} (hnodup : (tunables.map Tunable.index).Nodup)
    {t : Tunable} (ht : t ∈ tunables) (s : Settings) :
    base tunables s t.index = (s t.index && !t.canBad) := by
  have hset (t : Tunable) (s : Settings) : Bench.exec [t.set false] s =
      Function.update s t.index (t.turned false (s t.index)) := t.exec_set false [] s
  rw [base, setAllBad, List.map_eq_flatMap]
  cases hgood : s t.index with
  | false =>
    have hne : ∀ u ∈ tunables.filter fun t => s t.index, u.index ≠ t.index := by
      intro u hu heq
      rw [List.mem_filter, heq, hgood] at hu
      exact absurd hu.2 Bool.false_ne_true
    rw [Bench.exec_flatMap_of_ne hset hne, hgood, Bool.false_and]
  | true =>
    have hsub := (List.filter_sublist (p := fun t => s t.index) (l := tunables)).map Tunable.index
    rw [Bench.exec_flatMap_of_mem hset (hnodup.sublist hsub) (List.mem_filter.mpr ⟨ht, hgood⟩),
      hgood, Bool.true_and]
    obtain ⟨index, tweak, canGood, canBad, toggle, htoggle⟩ := t
    cases canBad <;> rfl

/-- What `sendtag` sends in a session is what the driver sends on the options that are bad behind
`set_all_bad`. -/
theorem messages_session (tunables : List Tunable) (machine : Machine) (iterations : ℕ)
    (s : Settings) :
    (Bench.trace (session tunables machine iterations s) s).filterMap Bench.Output.message? =
      (powertopTweaks machine ((getAllBad tunables (base tunables s)).map Tunable.tweak)
        iterations).messages := by
  have hset (l : List Tunable) (s : Settings) :
      Bench.trace (l.map fun t => t.set false) s = [] := by
    induction l generalizing s with
    | nil => rfl
    | cons t l ih => exact ih _
  have hloop (t : Tunable) (s : Settings) := t.messages_session iterations s
  rw [powertopTweaks_messages, List.flatMap_map, session, Bench.trace_append, setAllBad, hset,
    List.nil_append, Bench.send, Bench.trace, List.filterMap_cons,
    Bench.filterMap_trace_flatMap hloop]
  rfl

/-- The settings in front of a turn of the main loop: of the options that had their turn those are
good that cannot be set bad again, and every other option is as in the beginning. -/
theorem exec_front (iterations : ℕ) {front back : List Tunable} {t : Tunable}
    (hnodup : ((front ++ t :: back).map Tunable.index).Nodup) {b : Settings}
    (hbad : ∀ u ∈ front ++ t :: back, b u.index = false) :
    (∀ u ∈ front, u.index ≠ t.index ∧
      Bench.exec (front.flatMap fun u => u.session iterations) b u.index =
        (u.canGood && !u.canBad)) ∧
      ∀ index, (∀ u ∈ front, u.index ≠ index) →
        Bench.exec (front.flatMap fun u => u.session iterations) b index = b index := by
  have hsession (u : Tunable) (s : Settings) := u.exec_session iterations s
  rw [List.map_append, List.map_cons, List.nodup_append'] at hnodup
  obtain ⟨hfront, -, hapart⟩ := hnodup
  refine ⟨fun u hu => ⟨fun heq => ?_, ?_⟩, fun index h => Bench.exec_flatMap_of_ne hsession h b⟩
  · exact hapart (List.mem_map_of_mem hu) (heq ▸ List.mem_cons_self)
  · rw [Bench.exec_flatMap_of_mem hsession hfront hu, hbad u (List.mem_append_left _ hu),
      u.left_false]

/-- Whatever options are good at the beginning: `set_all_bad` leaves exactly those good that cannot
be set bad, and the runs of an option are measured with just this option set as their test says, if
there are any, exactly if it can be set both ways and every option in front of it that can be set
good can be set bad again. -/
theorem tweaks_isolated_iff (tunables : List Tunable) (iterations : ℕ)
    (hnodup : (tunables.map Tunable.index).Nodup) (s : Settings) :
    (∀ t ∈ tunables, base tunables s t.index = (s t.index && !t.canBad)) ∧
      ∀ front t back, getAllBad tunables (base tunables s) = front ++ t :: back →
        ((∀ good w, Bench.Output.work (good, w) ∈ Bench.trace (t.session iterations)
            (Bench.exec (front.flatMap fun u => u.session iterations) (base tunables s)) →
            w = Function.update (base tunables s) t.index good) ↔
          (iterations ≠ 0 → t.canGood = true ∧ t.canBad = true ∧
            ∀ u ∈ front, u.canGood = true → u.canBad = true)) := by
  refine ⟨fun t ht => base_eq hnodup ht s, fun front t back hsplit => ?_⟩
  generalize base tunables s = b at hsplit
  have hbad : ∀ u ∈ front ++ t :: back, b u.index = false := by
    intro u hu
    rw [← hsplit, getAllBad, List.mem_filter] at hu
    simpa using hu.2
  have hloop : ((front ++ t :: back).map Tunable.index).Nodup := by
    rw [← hsplit]
    exact hnodup.sublist (List.filter_sublist.map _)
  obtain ⟨hfront, hrest⟩ := exec_front iterations hloop hbad
  have hown : Bench.exec (front.flatMap fun u => u.session iterations) b t.index = false := by
    rw [hrest t.index fun u hu => (hfront u hu).1]
    exact hbad t (List.mem_append_right _ List.mem_cons_self)
  simp only [t.work_session, hown, t.left_false, t.turned_true_left]
  constructor
  · intro h hn
    have hfalse := congrFun (h false _ ⟨hn, rfl⟩)
    have htrue := congrFun (h true _ ⟨hn, rfl⟩) t.index
    have hfalse' := hfalse t.index
    simp only [Function.update_self, if_true, Bool.false_eq_true, if_false] at htrue hfalse'
    refine ⟨htrue, by simpa [htrue] using hfalse', fun u hu hgood => ?_⟩
    have hstays := hfalse u.index
    rw [Function.update_of_ne (hfront u hu).1, Function.update_of_ne (hfront u hu).1,
      (hfront u hu).2, hbad u (List.mem_append_left _ hu)] at hstays
    simpa [hgood] using hstays
  · rintro h good w ⟨hn, rfl⟩
    obtain ⟨hgood, hcan, hback⟩ := h hn
    have hvalue : (if good = true then t.canGood else t.canGood && !t.canBad) = good := by
      cases good <;> simp [hgood, hcan]
    rw [hvalue]
    funext index
    by_cases hindex : index = t.index
    · rw [hindex, Function.update_self, Function.update_self]
    rw [Function.update_of_ne hindex, Function.update_of_ne hindex]
    by_cases hin : ∃ u ∈ front, u.index = index
    · obtain ⟨u, hu, rfl⟩ := hin
      rw [(hfront u hu).2, hbad u (List.mem_append_left _ hu)]
      cases hset : u.canGood with
      | false => rfl
      | true => rw [hback u hu hset, Bool.not_true, Bool.and_false]
    · exact hrest index fun u hu heq => hin ⟨u, hu, heq⟩

/-- A description fits into the buffer. -/
theorem short_description :
    ": Enable Audio codec power management".toList.length + 7 < nameSize := by
  decide +kernel

/-- An option that can be set good, and perhaps bad again. -/
def audioCodec (index : ℕ) (canBad : Bool) : Tunable where
  index := index
  tweak := ⟨literal ": Enable Audio codec power management", short_description⟩
  canGood := true
  canBad := canBad
  toggle good s := Function.update s index
    (if (if good then true else canBad) then good else s index)
  toggle_eq _ _ := rfl

/-- Two options, of which the first cannot be set bad again. -/
def laptopTunables : List Tunable := [audioCodec 1 false, audioCodec 2 true]

/-- The runs of these two options. -/
theorem laptopTunables_isolated_iff : (laptopTunables.map Tunable.index).Nodup ∧
    (∀ t ∈ laptopTunables, base laptopTunables (fun _ => false) t.index =
      (false && !t.canBad)) ∧
      ∀ front t back, getAllBad laptopTunables (base laptopTunables fun _ => false) =
          front ++ t :: back →
        ((∀ good w, Bench.Output.work (good, w) ∈ Bench.trace (t.session 3)
            (Bench.exec (front.flatMap fun u => u.session 3)
              (base laptopTunables fun _ => false)) →
            w = Function.update (base laptopTunables fun _ => false) t.index good) ↔
          (3 ≠ 0 → t.canGood = true ∧ t.canBad = true ∧
            ∀ u ∈ front, u.canGood = true → u.canBad = true)) :=
  ⟨by decide, tweaks_isolated_iff laptopTunables 3 (by decide) fun _ => false⟩

end FlukeTesting.PowertopTweaks
