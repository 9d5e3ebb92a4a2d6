import FlukeTesting.Statstool.PointList
import FlukeTesting.Statstool.SlotSafety
import Mathlib.Data.Fintype.EquivFin

/-!
# The run array of the parser in memory

The parser keeps the points of a slot as a list. That is what the memory with its linked points
stands for: whatever log the parser reads, and as long as it stays inside its objects, there is
memory that the same operations lead to, and the slots in use stand for those of the parser.
-/

namespace FlukeTesting.Statstool

open Heap Imperative

/-- The slots in use stand for those of a state of the parser. -/
structure Shows {A K : Type*} (m : Memory A K) (s : State K) (chains : List (List A)) : Prop extends
    Chained m chains where
  sameIndex : s.index = m.index
  slots : ∀ (i : Fin maxTestRuns) (l : List A), chains[i.val]? = some l →
    s.data i = some ((m.data i).slot m.heap l)

section

variable {A K : Type*}

/-- An index that denotes a slot is the number of the slot. -/
theorem eq_of_slotAt {i : ℤ} {k : Fin maxTestRuns} (h : slotAt i = some k) : i = k.val := by
  unfold slotAt at h
  split at h
  · rename_i hrange
    obtain rfl := Option.some.inj h
    exact (Int.toNat_of_nonneg hrange.1).symm
  · exact absurd h (by simp)

/-- What a slot stands for depends on the contents of its points. -/
theorem Data.slot_congr (d : Data A K) {heap heap' : Nodes A (Point K)} {l : List A}
    (hsame : ∀ a ∈ l, heap' a = heap a) : d.slot heap' l = d.slot heap l := by
  rw [Data.slot, contents_congr fun a ha => congrArg _ (hsame a ha)]
  rfl

namespace Shows

variable {m : Memory A K} {s : State K} {chains : List (List A)}

/-- The slots depend on the index and the array alone. -/
theorem congr (h : Shows m s chains) {t : State K} (hindex : t.index = s.index)
    (hdata : t.data = s.data) : Shows m t chains where
  toChained := h.toChained
  sameIndex := hindex.trans h.sameIndex
  slots i l hl := by rw [hdata, h.slots i l hl]

/-- The slots on entry. -/
theorem initial [Field K] (junk : Fin maxTestRuns → Data A K) :
    Shows (.initial junk) (.initial : State K) [] where
  toChained := chained_initial junk
  sameIndex := rfl
  slots i l hl := by simp at hl

/-- `test_run_begin` in the parser is the one in memory. -/
theorem testRunBegin [Field K] (h : Shows m s chains) {line : ℕ} {t : State K}
    (ht : Statstool.testRunBegin line s = .next t) :
    ∃ m' chains', m.testRunBegin line = some m' ∧ Shows m' t chains' := by
  have hindex : s.index + 1 = chains.length := h.sameIndex ▸ h.index
  have hcases := h.toChained.testRunBegin line
  unfold Statstool.testRunBegin at ht
  simp only [hindex] at ht
  split at hcases
  · rename_i hroom
    have hle : ¬ (maxTestRuns : ℤ) ≤ chains.length := by exact_mod_cast hroom.not_ge
    have hslot := slotAt_natCast chains.length hroom
    rw [if_neg hle, hslot, Outcome.next.injEq] at ht
    obtain ⟨m', hm', hopened⟩ := hcases
    subst ht
    refine ⟨m', _, hm', hopened.chained, hopened.chained.index_eq.symm, ?_⟩
    rw [hopened.heap]
    apply forall_slot_concat
    · intro i hi
      obtain rfl : i = ⟨chains.length, hroom⟩ := Fin.ext hi
      rw [hopened.slot _ (by rw [h.index, hslot])]
      simp [Data.slot, Data.cleared, Slot.fresh, contents]
    · intro i l hi hl
      have hother : slotAt (m.index + 1) ≠ some i := by
        rw [h.index, hslot]
        exact fun heq => hi (congrArg Fin.val (Option.some.inj heq)).symm
      rw [hopened.others i hother]
      exact (Function.update_of_ne (fun heq => hi (congrArg Fin.val heq)) _ _).trans
        (h.slots i l hl)
  · rename_i hroom
    rw [if_pos (by exact_mod_cast Nat.le_of_not_lt hroom), Outcome.next.injEq] at ht
    subst ht
    exact ⟨m, chains, hcases, h.congr rfl rfl⟩

variable [DecidableEq A]

/-- Storing a point in the parser is storing it in memory, at any address that is not live. -/
theorem storePoint [LinearOrder K] (h : Shows m s chains) {ctx : Context K} {p : Point K}
    {t : State K} (ht : Statstool.storePoint ctx p s = .next t) {a : A} (hnew : m.heap a = none) :
    0 ≤ m.index ∧ m.index < maxTestRuns ∧
      ∃ m' chains', m.storePoint a p = some m' ∧ Shows m' t chains' := by
  unfold Statstool.storePoint at ht
  split at ht
  · split at ht
    · exact absurd ht (by simp)
    · rename_i i hi
      split at ht
      · exact absurd ht (by simp)
      · rename_i slot hslot
        obtain rfl := Outcome.next.inj ht
        rw [h.sameIndex] at hi
        have hindex := eq_of_slotAt hi
        have hrange : 0 ≤ m.index ∧ m.index < maxTestRuns := by
          have hlt := i.isLt
          omega
        obtain ⟨front, l, m', rfl, hstore, happended⟩ :=
          h.toChained.appends a p hrange.1 hrange.2 hnew
        have hlength : i.val = front.length := by
          have hlast := h.toChained.index_eq
          omega
        have hsame := h.toChained.index_eq.trans happended.chained.index_eq.symm
        refine ⟨hrange.1, hrange.2, m', _, hstore, happended.chained, h.sameIndex.trans hsame, ?_⟩
        apply forall_slot_concat
        · intro j hj
          obtain rfl : j = i := Fin.ext (hj.trans hlength.symm)
          have hold := h.slots j l (by simp [hlength])
          obtain rfl := Option.some.inj (hslot.symm.trans hold)
          rw [happended.slot j hi]
          exact Function.update_self _ _ _
        · intro j l' hj hl'
          have hne : j ≠ i := fun heq => hj ((congrArg Fin.val heq).trans hlength)
          have hold := h.slots j l' (by rw [getElem?_concat_of_ne front l hj, hl'])
          rw [happended.others j fun heq => hne (Option.some.inj (hi.symm.trans heq)).symm,
            Data.slot_congr (m.data j) fun b hb =>
              happended.frame b (List.mem_flatten_of_mem (List.mem_of_getElem? hl') hb), ← hold]
          exact Function.update_of_ne hne _ _
  · exact absurd ht (by simp)

/-- Freeing the slots in the parser is freeing them in memory. -/
theorem dataFree (h : Shows m s chains) {t : State K} (ht : t.index = -1) :
    ∃ fuel freed m', m.dataFree fuel = some (m', freed) ∧ Shows m' t [] := by
  obtain ⟨m', hfree, hchained⟩ := h.toChained.dataFree le_rfl
  refine ⟨_, _, m', hfree, hchained, ?_, fun i l hl => by simp at hl⟩
  have hindex := hchained.index
  rw [List.length_nil] at hindex
  omega

end Shows

/-- An address that is not live. -/
theorem Chained.exists_free [Infinite A] {m : Memory A K} {chains : List (List A)}
    (h : Chained m chains) : ∃ a, m.heap a = none := by
  classical
  obtain ⟨a, ha⟩ := Infinite.exists_notMem_finset chains.flatten.toFinset
  rw [List.mem_toFinset, ← h.live, Bool.not_eq_true, Option.isSome_eq_false_iff,
    Option.isNone_iff_eq_none] at ha
  exact ⟨a, ha⟩

variable [Field K] [LinearOrder K] [DecidableEq A]

/-- Some memory that the operations lead to stands for a state of the parser. -/
def InMemory (junk : Fin maxTestRuns → Data A K) (s : State K) : Prop :=
  ∃ m chains, Reachable junk m ∧ Shows m s chains

namespace InMemory

variable {junk : Fin maxTestRuns → Data A K} {s : State K}

/-- The memory depends on the index and the array alone. -/
theorem congr (h : InMemory junk s) {t : State K} (hindex : t.index = s.index)
    (hdata : t.data = s.data) : InMemory junk t := by
  obtain ⟨m, chains, hreach, hshows⟩ := h
  exact ⟨m, chains, hreach, hshows.congr hindex hdata⟩

/-- Opening a run. -/
theorem testRunBegin (h : InMemory junk s) {line : ℕ} {t : State K}
    (ht : Statstool.testRunBegin line s = .next t) : InMemory junk t := by
  obtain ⟨m, chains, hreach, hshows⟩ := h
  obtain ⟨m', chains', hm', hshows'⟩ := hshows.testRunBegin ht
  exact ⟨m', chains', hreach.testRunBegin line hm', hshows'⟩

/-- Storing a point. -/
theorem storePoint [Infinite A] (h : InMemory junk s) {ctx : Context K} {p : Point K} {t : State K}
    (ht : Statstool.storePoint ctx p s = .next t) : InMemory junk t := by
  obtain ⟨m, chains, hreach, hshows⟩ := h
  obtain ⟨a, ha⟩ := hshows.toChained.exists_free
  obtain ⟨hpos, hlt, m', chains', hm', hshows'⟩ := hshows.storePoint ht ha
  exact ⟨m', chains', hreach.storePoint a p hpos hlt ha hm', hshows'⟩

/-- Ending a test. -/
theorem ended (h : InMemory junk s) {t : State K} (ht : t.index = -1) : InMemory junk t := by
  obtain ⟨m, chains, hreach, hshows⟩ := h
  obtain ⟨fuel, freed, m', hm', hshows'⟩ := hshows.dataFree ht
  exact ⟨m', [], hreach.dataFree fuel freed hm', hshows'⟩

/-- Printing the text of a tag. -/
theorem announce (h : InMemory junk s) (ctx : Context K) (tagged plain : String) (arg : Text) :
    InMemory junk (Statstool.announce ctx tagged plain arg s) := by
  unfold Statstool.announce
  split
  · exact h
  · exact h.congr rfl rfl

/-- Taking a sample. -/
theorem sample [Infinite A] (h : InMemory junk s) {ctx : Context K} {line : ℕ} {sec : K}
    {text : Text} {t : State K} (ht : Statstool.sample ctx line sec text s = .next t) :
    InMemory junk t := by
  obtain ⟨u, hu, ht⟩ := Outcome.bind_eq_next_iff.mp ht
  have hopened : InMemory junk u := by
    split at hu
    · exact h.testRunBegin hu
    · obtain rfl := Outcome.next.inj hu
      exact h
  split at ht
  · exact hopened.storePoint ht
  · obtain rfl := Outcome.next.inj ht
    exact hopened

/-- Every event that goes on. -/
theorem exec [Infinite A] (h : InMemory junk s) {ctx : Context K} {e : Event K × ℕ} {t : State K}
    (ht : Event.exec ctx e s = .next t) : InMemory junk t := by
  obtain ⟨event, line⟩ := e
  cases event with
  | unstrippable => exact absurd ht (by simp [Event.exec])
  | time sec =>
    obtain rfl := Outcome.next.inj ht
    unfold State.originate
    split
    · exact h.congr rfl rfl
    · exact h
  | testClient arg =>
    simp only [Event.exec, Statstool.testClient] at ht
    split at ht
    · obtain rfl := Outcome.next.inj ht
      exact (h.announce ctx _ _ arg).congr rfl rfl
    · exact absurd ht (by simp)
  | testBegin arg =>
    simp only [Event.exec, Statstool.testBegin] at ht
    split at ht
    · obtain rfl := Outcome.next.inj ht
      exact (h.announce ctx _ _ arg).congr rfl rfl
    · exact absurd ht (by simp)
  | testEnd =>
    obtain ⟨reported, -, ht⟩ := Outcome.bind_eq_next_iff.mp ht
    obtain ⟨released, -, ht⟩ := Outcome.bind_eq_next_iff.mp ht
    obtain rfl := Outcome.next.inj ht
    exact h.ended rfl
  | testRunBegin => exact h.testRunBegin ht
  | testRunEnd =>
    obtain rfl := Outcome.next.inj ht
    exact h.congr rfl rfl
  | sample sec text => exact h.sample ht

end InMemory

/-- Whatever log the parser reads, every state on the way stands in memory. -/
theorem Visits.inMemory [Infinite A] (junk : Fin maxTestRuns → Data A K) {ctx : Context K}
    {lines : List Buffer} {s : State K} (h : Visits ctx lines s) : InMemory junk s :=
  Reaches.induction (P := InMemory junk) ⟨_, _, .initial, .initial junk⟩
    (fun _ _ _ _ hu ht => ht.exec hu) h

end

end FlukeTesting.Statstool
