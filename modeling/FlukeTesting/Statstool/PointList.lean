import FlukeTesting.Lib.Chain
import FlukeTesting.Statstool.Collected

/-!
# The points of the run array in memory

A slot of the run array holds pointers to the first and the last point of its run, and the points
are linked in the heap. Slots that are not in use hold whatever was there before: junk, or pointers
to points that are freed.

As long as points are only appended to a slot of the array, the slots in use hold disjoint chains of
all live points, the run array of the parser is what these chains hold, and freeing the slots frees
every live point once.
-/

namespace FlukeTesting.Statstool

open Heap

/-- `data_t` without its statistics, with the log line that opened the run. -/
structure Data (A K : Type*) where
  xMin : K
  xMax : K
  yMin : K
  yMax : K
  head : Option A
  tail : Option A
  samples : ℕ
  openedAt : ℕ

/-- The heap of the points, the run array and its index. -/
structure Memory (A K : Type*) where
  heap : Nodes A (Point K)
  data : Fin maxTestRuns → Data A K
  index : ℤ

section

variable {A K : Type*}

/-- The memory on entry to the read loop; the run array is not initialised. -/
def Memory.initial (junk : Fin maxTestRuns → Data A K) : Memory A K where
  heap := fun _ => none
  data := junk
  index := -1

/-- What `test_run_begin` stores in a slot, called from the given line. -/
def Data.cleared [Field K] (line : ℕ) : Data A K where
  xMin := (1000000 : ℕ)
  xMax := -(1000000 : ℕ)
  yMin := (1000000 : ℕ)
  yMax := -(1000000 : ℕ)
  head := none
  tail := none
  samples := 0
  openedAt := line

/-- `test_run_begin`; nothing happens if it returns -1. -/
def Memory.testRunBegin [Field K] (line : ℕ) (m : Memory A K) : Option (Memory A K) :=
  let i := m.index + 1
  if maxTestRuns ≤ i then some m
  else
    (slotAt i).map fun k => { m with index := i, data := Function.update m.data k (.cleared line) }

/-- The minima and maxima of a slot with a new point. -/
def Data.extend [LinearOrder K] (d : Data A K) (p : Point K) : Data A K :=
  { d with
    xMin := if p.x < d.xMin then p.x else d.xMin
    xMax := if d.xMax < p.x then p.x else d.xMax
    yMin := if p.y < d.yMin then p.y else d.yMin
    yMax := if d.yMax < p.y then p.y else d.yMax }

/-- A slot holds a chain: both pointers are null or the chain goes from the first to the second, and
its length is counted. -/
structure Data.Holds (d : Data A K) (heap : Nodes A (Point K)) (l : List A) : Prop where
  chain : Chain heap d.head l
  tail : d.tail = l.getLast?
  samples : d.samples = l.length

/-- The slot of the parser that a slot in memory stands for. -/
def Data.slot (d : Data A K) (heap : Nodes A (Point K)) (l : List A) : Slot K where
  xMin := d.xMin
  xMax := d.xMax
  yMin := d.yMin
  yMax := d.yMax
  points := contents heap l
  samples := d.samples
  openedAt := d.openedAt

/-- The slots up to the index hold chains. The chains are disjoint, and their points are the live
ones. -/
structure Chained (m : Memory A K) (chains : List (List A)) : Prop where
  index : m.index + 1 = chains.length
  room : chains.length ≤ maxTestRuns
  slot : ∀ (i : Fin maxTestRuns) (l : List A), chains[i.val]? = some l →
    (m.data i).Holds m.heap l
  nodup : chains.flatten.Nodup
  live : ∀ a, (m.heap a).isSome = true ↔ a ∈ chains.flatten

/-- What a slot holds depends on the points of its chain only. -/
theorem Data.Holds.congr {d : Data A K} {heap heap' : Nodes A (Point K)} {l : List A}
    (h : d.Holds heap l) (hsame : ∀ a ∈ l, heap' a = heap a) : d.Holds heap' l :=
  ⟨h.chain.congr hsame, h.tail, h.samples⟩

/-- What holds of the last slot in use, and of those in front of it, holds of all slots in use. -/
theorem forall_slot_concat {P : Fin maxTestRuns → List A → Prop} {front : List (List A)}
    {last : List A} (hlast : ∀ i : Fin maxTestRuns, i.val = front.length → P i last)
    (hfront : ∀ (i : Fin maxTestRuns) (l : List A), i.val ≠ front.length →
      front[i.val]? = some l → P i l) :
    ∀ (i : Fin maxTestRuns) (l : List A), (front ++ [last])[i.val]? = some l → P i l := by
  intro i l hl
  by_cases hi : i.val = front.length
  · obtain rfl : last = l := by simpa [hi] using hl
    exact hlast i hi
  · rw [getElem?_concat_of_ne front last hi] at hl
    exact hfront i l hi hl

/-- The index is that of the last slot in use. -/
theorem Chained.index_eq {m : Memory A K} {front : List (List A)} {l : List A}
    (h : Chained m (front ++ [l])) : m.index = front.length := by
  have hindex := h.index
  rw [List.length_append, List.length_singleton] at hindex
  omega

/-- The last slot in use is in the array. -/
theorem Chained.slotAt_index {m : Memory A K} {front : List (List A)} {l : List A}
    (h : Chained m (front ++ [l])) :
    ∃ hlt : front.length < maxTestRuns, slotAt m.index = some ⟨front.length, hlt⟩ := by
  have hroom := h.room
  rw [List.length_append, List.length_singleton] at hroom
  exact ⟨hroom, by rw [h.index_eq, slotAt_natCast front.length hroom]⟩

/-- The memory on entry holds no run. -/
theorem chained_initial (junk : Fin maxTestRuns → Data A K) : Chained (.initial junk) [] where
  index := rfl
  room := Nat.zero_le _
  slot i l hl := by simp at hl
  nodup := List.nodup_nil
  live a := by simp [Memory.initial]

/-- A cleared slot holds no point. -/
theorem Data.cleared_holds [Field K] (line : ℕ) (heap : Nodes A (Point K)) :
    (Data.cleared line : Data A K).Holds heap [] := ⟨.nil, rfl, rfl⟩

/-- The memory `m'` is `m` with a cleared slot behind those in use. -/
structure Memory.Opened [Field K] (m m' : Memory A K) (chains : List (List A)) (line : ℕ) :
    Prop where
  chained : Chained m' (chains ++ [[]])
  heap : m'.heap = m.heap
  others : ∀ i, slotAt (m.index + 1) ≠ some i → m'.data i = m.data i
  slot : ∀ i, slotAt (m.index + 1) = some i → m'.data i = .cleared line

/-- `test_run_begin` adds an empty chain, or does nothing if all slots are in use. -/
theorem Chained.testRunBegin [Field K] {m : Memory A K} {chains : List (List A)}
    (h : Chained m chains) (line : ℕ) :
    if chains.length < maxTestRuns then
      ∃ m', m.testRunBegin line = some m' ∧ m.Opened m' chains line
    else m.testRunBegin line = some m := by
  unfold Memory.testRunBegin
  simp only [h.index]
  split
  · rename_i hroom
    have hle : ¬ (maxTestRuns : ℤ) ≤ chains.length := by exact_mod_cast hroom.not_ge
    have hslot := slotAt_natCast chains.length hroom
    rw [if_neg hle, hslot]
    refine ⟨_, rfl, ⟨by simp, by simpa using Nat.succ_le_of_lt hroom, ?_, ?_, fun a => ?_⟩, rfl,
      fun i hi => ?_, fun i hi => ?_⟩
    · apply forall_slot_concat
      · intro i hi
        obtain rfl : i = ⟨chains.length, hroom⟩ := Fin.ext hi
        simp only [Function.update_self]
        exact Data.cleared_holds line _
      · intro i l hi hl
        have hne : i ≠ ⟨chains.length, hroom⟩ := fun heq => hi (congrArg Fin.val heq)
        simp only [Function.update_of_ne hne]
        exact h.slot i l hl
    · simpa using h.nodup
    · simpa using h.live a
    · rw [h.index, hslot] at hi
      exact Function.update_of_ne (fun heq => hi (congrArg some heq.symm)) _ _
    · rw [h.index, hslot] at hi
      obtain rfl := Option.some.inj hi
      exact Function.update_self _ _ _
  · rename_i hroom
    rw [if_pos (by exact_mod_cast Nat.le_of_not_lt hroom)]

variable [DecidableEq A]

/-- `data_append_point` -/
def dataAppendPoint (heap : Nodes A (Point K)) (d : Data A K) (p : A) :
    Option (Nodes A (Point K) × Data A K) :=
  match d.head with
  | none => some (heap, { d with head := some p, tail := some p, samples := d.samples + 1 })
  | some _ =>
    d.tail.bind fun t => (setNext heap t (some p)).map fun heap =>
      (heap, { d with tail := some p, samples := d.samples + 1 })

/-- The part of the `SAMPLE` handler that stores a point, at the address that `calloc` returned, in
the slot at the index. -/
def Memory.storePoint [LinearOrder K] (a : A) (p : Point K) (m : Memory A K) :
    Option (Memory A K) :=
  (slotAt m.index).bind fun i =>
    (dataAppendPoint (Function.update m.heap a (some ⟨none, p⟩)) ((m.data i).extend p) a).map
      fun r => { m with heap := r.1, data := Function.update m.data i r.2 }

/-- The loop of `data_free` over the indices of slots. -/
def freeSlots (fuel : ℕ) (data : Fin maxTestRuns → Data A K) :
    List ℕ → Nodes A (Point K) → Option (Nodes A (Point K) × List A)
  | [], heap => some (heap, [])
  | i :: rest, heap =>
    (slotAt i).bind fun k => (freeWalk fuel heap (data k).head).bind fun r =>
      (freeSlots fuel data rest r.1).map fun r' => (r'.1, r.2 ++ r'.2)

/-- `data_free(data, index+1)` and `index = -1`, with the points in the order in which they were
freed. -/
def Memory.dataFree (fuel : ℕ) (m : Memory A K) : Option (Memory A K × List A) :=
  (freeSlots fuel m.data (List.range (m.index + 1).toNat) m.heap).map fun r =>
    ({ m with heap := r.1, index := -1 }, r.2)

/-- The two cases of `data_append_point`. -/
theorem dataAppendPoint_nil {d : Data A K} (hhead : d.head = none) (heap : Nodes A (Point K))
    (p : A) : dataAppendPoint heap d p =
      some (heap, { d with head := some p, tail := some p, samples := d.samples + 1 }) := by
  rw [dataAppendPoint, hhead]

theorem dataAppendPoint_concat {d : Data A K} {heap : Nodes A (Point K)} {t p : A}
    {node : Node A (Point K)} (hhead : d.head ≠ none) (htail : d.tail = some t)
    (hnode : heap t = some node) : dataAppendPoint heap d p =
      some (Function.update heap t (some { node with next := some p }),
        { d with tail := some p, samples := d.samples + 1 }) := by
  obtain ⟨first, hfirst⟩ := Option.ne_none_iff_exists'.mp hhead
  rw [dataAppendPoint, hfirst, htail, Option.bind_some, setNext, hnode]
  rfl

/-- Appending a new point extends the chain of a slot at its end. -/
theorem Data.Holds.append {d : Data A K} {heap : Nodes A (Point K)} {l : List A}
    (h : d.Holds heap l) {a : A} (hnew : heap a = none) (p : Point K) :
    ∃ heap' d', dataAppendPoint (Function.update heap a (some ⟨none, p⟩)) d a = some (heap', d') ∧
      d'.Holds heap' (l ++ [a]) ∧ Extends heap heap' l a p ∧
      d'.slot heap' (l ++ [a]) = (d.slot heap l).dataAppendPoint p := by
  have ha : a ∉ l := fun hmem => by simpa [hnew] using h.chain.live a hmem
  have halloc : Extends heap (Function.update heap a (some ⟨none, p⟩)) l a p := .alloc heap l a p
  have hchain : Chain (Function.update heap a (some ⟨none, p⟩)) d.head l :=
    h.chain.congr fun b hb => Function.update_of_ne (ne_of_mem_of_not_mem hb ha) _ _
  have hslot {heap' : Nodes A (Point K)} (hext : Extends heap heap' l a p) (head tail : Option A) :
      ({ d with head, tail, samples := d.samples + 1 } : Data A K).slot heap' (l ++ [a]) =
        (d.slot heap l).dataAppendPoint p := by
    simp only [Data.slot, Slot.dataAppendPoint, hext.contents_concat ha]
  rcases List.eq_nil_or_concat' l with rfl | ⟨front, t, rfl⟩
  · have hhead : d.head = none := h.chain.eq_nil_iff.mpr rfl
    refine ⟨_, _, dataAppendPoint_nil hhead _ a, ?_, halloc, hslot halloc _ _⟩
    exact ⟨.cons (Function.update_self _ _ _) .nil, rfl, congrArg (· + 1) h.samples⟩
  · have hhead : d.head ≠ none := fun hnone => by simpa using h.chain.eq_nil_iff.mp hnone
    have htail : d.tail = some t := by simpa using h.tail
    have ht : t ∈ front ++ [t] := by simp
    obtain ⟨node, hnode⟩ := Option.isSome_iff_exists.mp (hchain.live t ht)
    have hext := halloc.setNext ht (ne_of_mem_of_not_mem ht ha) hnode (some a)
    refine ⟨_, _, dataAppendPoint_concat hhead htail hnode,
      ⟨?_, by simp, by simp [h.samples]⟩, hext, hslot hext _ _⟩
    rw [List.append_assoc]
    exact hchain.snoc (Function.update_self _ _ _) rfl ha node

/-! ## What the operations do to the chains -/

/-- The memory `m'` is `m` with a point at the end of its last chain. The other slots and their
chains are the same, and the slot at the index stands for the one with the point stored. -/
structure Memory.Appended [LinearOrder K] (m m' : Memory A K) (front : List (List A)) (l : List A)
    (a : A) (p : Point K) : Prop where
  chained : Chained m' (front ++ [l ++ [a]])
  others : ∀ i, slotAt m.index ≠ some i → m'.data i = m.data i
  frame : ∀ b ∈ front.flatten, m'.heap b = m.heap b
  slot : ∀ i, slotAt m.index = some i →
    (m'.data i).slot m'.heap (l ++ [a]) = ((m.data i).slot m.heap l).store p

/-- Storing a point extends the last chain by the point, at its end. -/
theorem Chained.storePoint [LinearOrder K] {m : Memory A K} {front : List (List A)} {l : List A}
    (h : Chained m (front ++ [l])) {a : A} (hnew : m.heap a = none) (p : Point K) :
    ∃ m', m.storePoint a p = some m' ∧ m.Appended m' front l a p := by
  obtain ⟨hlt, hslot⟩ := h.slotAt_index
  have hholds : ((m.data ⟨front.length, hlt⟩).extend p).Holds m.heap l := by
    have hlast := h.slot ⟨front.length, hlt⟩ l (by simp)
    exact ⟨hlast.chain, hlast.tail, hlast.samples⟩
  obtain ⟨heap', d', happend, hholds', hext, hshows⟩ := hholds.append hnew p
  have hflat : (front ++ [l ++ [a]]).flatten = (front ++ [l]).flatten ++ [a] := by simp
  have ha : a ∉ (front ++ [l]).flatten := by
    rw [← h.live, hnew]
    exact Bool.false_ne_true
  have hframe (b : A) (hb : b ∈ front.flatten) : heap' b = m.heap b := by
    have hnodup := h.nodup
    rw [List.flatten_append, List.flatten_singleton] at hnodup ha
    exact hext.frame b (ne_of_mem_of_not_mem (List.mem_append_left l hb) ha)
      (List.disjoint_of_nodup_append hnodup hb)
  refine ⟨{ m with heap := heap', data := Function.update m.data ⟨front.length, hlt⟩ d' },
    ?_, ⟨?_, ?_, ?_, ?_, fun b => ?_⟩, fun i hi => ?_, hframe, fun i hi => ?_⟩
  · rw [Memory.storePoint, hslot, Option.bind_some, happend, Option.map_some]
  · simp [h.index_eq]
  · simpa using Nat.succ_le_of_lt hlt
  · apply forall_slot_concat
    · intro i hi
      obtain rfl : i = ⟨front.length, hlt⟩ := Fin.ext hi
      simp only [Function.update_self]
      exact hholds'
    · intro i l' hi hl'
      have hother := h.slot i l' (by rw [getElem?_concat_of_ne front l hi, hl'])
      have hne : i ≠ ⟨front.length, hlt⟩ := fun heq => hi (congrArg Fin.val heq)
      simp only [Function.update_of_ne hne]
      exact hother.congr fun b hb =>
        hframe b (List.mem_flatten_of_mem (List.mem_of_getElem? hl') hb)
  · rw [hflat, ← List.concat_eq_append]
    exact h.nodup.concat ha
  · rw [hext.live_iff, h.live, hflat, List.mem_append (t := [a]), List.mem_singleton, or_comm]
  · exact Function.update_of_ne (fun heq => hi (hslot.trans (congrArg some heq.symm))) _ _
  · obtain rfl : ⟨front.length, hlt⟩ = i := Option.some.inj (hslot.symm.trans hi)
    simp only [Function.update_self]
    exact hshows

/-- The loop over slots frees the chains of the slots, one after the other. -/
theorem freeSlots_eq {fuel : ℕ} {data : Fin maxTestRuns → Data A K} {heap : Nodes A (Point K)}
    {chains : List (List A)} {start : ℕ} (hroom : start + chains.length ≤ maxTestRuns)
    (hchain : ∀ (i : Fin maxTestRuns) (j : ℕ) (l : List A), i.val = start + j →
      chains[j]? = some l → Chain heap (data i).head l)
    (hnodup : chains.flatten.Nodup) (hfuel : chains.flatten.length ≤ fuel) :
    freeSlots fuel data (List.range' start chains.length) heap =
      some (without heap chains.flatten, chains.flatten) := by
  induction chains generalizing start heap with
  | nil => rw [List.flatten_nil, without_nil]; rfl
  | cons l chains ih =>
    rw [List.flatten_cons, List.length_append] at hfuel
    rw [List.flatten_cons] at hnodup ⊢
    rw [List.length_cons] at hroom ⊢
    obtain ⟨-, hrest, hdisjoint⟩ := List.nodup_append.mp hnodup
    have hlt : start < maxTestRuns := by omega
    have hfirst : Chain heap (data ⟨start, hlt⟩).head l := hchain ⟨start, hlt⟩ 0 l rfl rfl
    have hframe (i : Fin maxTestRuns) (j : ℕ) (l' : List A) (hi : i.val = start + 1 + j)
        (hl' : chains[j]? = some l') : Chain (without heap l) (data i).head l' := by
      apply (hchain i (j + 1) l' (by omega) hl').congr
      intro b hb
      have hmem : b ∈ chains.flatten := List.mem_flatten_of_mem (List.mem_of_getElem? hl') hb
      exact without_of_notMem fun hbl => hdisjoint b hbl b hmem rfl
    rw [List.range'_succ, freeSlots, slotAt_natCast start hlt, Option.bind_some,
      hfirst.freeWalk_eq (by omega), Option.bind_some, ih (by omega) hframe hrest (by omega),
      Option.map_some, without_append]

/-- `data_free` frees the points of all chains in their order, and nothing else, if its walks have
the time. -/
theorem Chained.dataFree {m : Memory A K} {chains : List (List A)} (h : Chained m chains) {fuel : ℕ}
    (hfuel : chains.flatten.length ≤ fuel) :
    ∃ m', m.dataFree fuel = some (m', chains.flatten) ∧ Chained m' [] := by
  have hcount : (m.index + 1).toNat = chains.length := by
    have hindex := h.index
    omega
  have hfree : freeSlots fuel m.data (List.range' 0 chains.length) m.heap =
      some (without m.heap chains.flatten, chains.flatten) := by
    apply freeSlots_eq (by simpa using h.room) _ h.nodup hfuel
    intro i j l hi hl
    exact (h.slot i l (by simpa [hi] using hl)).chain
  refine ⟨{ m with heap := without m.heap chains.flatten, index := -1 }, ?_, ?_⟩
  · rw [Memory.dataFree, hcount, List.range_eq_range', hfree, Option.map_some]
  · refine ⟨rfl, Nat.zero_le _, fun i l hl => by simp at hl, List.nodup_nil, fun a => ?_⟩
    by_cases ha : a ∈ chains.flatten
    · simp [without, ha]
    · have hnone := (not_congr (h.live a)).mpr ha
      simpa [without, ha] using hnone

/-- A loop over slots that comes to its end does so with more fuel, too. -/
theorem freeSlots_mono {fuel fuel' : ℕ} (hle : fuel ≤ fuel') {data : Fin maxTestRuns → Data A K}
    {indices : List ℕ} {heap : Nodes A (Point K)} {r : Nodes A (Point K) × List A}
    (hr : freeSlots fuel data indices heap = some r) :
    freeSlots fuel' data indices heap = some r := by
  induction indices generalizing heap r with
  | nil => exact hr
  | cons i rest ih =>
    rw [freeSlots, Option.bind_eq_some_iff] at hr ⊢
    obtain ⟨k, hk, hr⟩ := hr
    obtain ⟨walked, hwalk, hr⟩ := Option.bind_eq_some_iff.mp hr
    obtain ⟨r', hr', hpair⟩ := Option.map_eq_some_iff.mp hr
    refine ⟨k, hk, Option.bind_eq_some_iff.mpr ⟨walked, freeWalk_mono hle hwalk, ?_⟩⟩
    exact Option.map_eq_some_iff.mpr ⟨r', ih hr', hpair⟩

/-- `data_free` with more fuel than it needs does the same. -/
theorem Memory.dataFree_mono {fuel fuel' : ℕ} (hle : fuel ≤ fuel') {m : Memory A K}
    {r : Memory A K × List A} (hr : m.dataFree fuel = some r) : m.dataFree fuel' = some r := by
  obtain ⟨walked, hwalked, hpair⟩ := Option.map_eq_some_iff.mp hr
  exact Option.map_eq_some_iff.mpr ⟨walked, freeSlots_mono hle hwalked, hpair⟩

/-- If `data_free` comes to its end, no chain is left. -/
theorem Chained.of_dataFree {m m' : Memory A K} {chains : List (List A)} (h : Chained m chains)
    {fuel : ℕ} {freed : List A} (hfree : m.dataFree fuel = some (m', freed)) : Chained m' [] := by
  obtain ⟨m'', hlong, hchained⟩ := h.dataFree (Nat.le_max_right fuel chains.flatten.length)
  have hsame := Memory.dataFree_mono (Nat.le_max_left fuel chains.flatten.length) hfree
  obtain rfl : m'' = m' := congrArg Prod.fst (Option.some.inj (hlong.symm.trans hsame))
  exact hchained

/-! ## Runs of the operations -/

/-- The memory after a sequence of the operations, in which points are stored only with the index in
the array, and at an address that is not live. -/
inductive Reachable [Field K] [LinearOrder K] (junk : Fin maxTestRuns → Data A K) :
    Memory A K → Prop
  | initial : Reachable junk (.initial junk)
  | testRunBegin {m m' : Memory A K} (line : ℕ) : Reachable junk m →
      m.testRunBegin line = some m' → Reachable junk m'
  | storePoint {m m' : Memory A K} (a : A) (p : Point K) : Reachable junk m →
      0 ≤ m.index → m.index < maxTestRuns → m.heap a = none →
      m.storePoint a p = some m' → Reachable junk m'
  | dataFree {m m' : Memory A K} (fuel : ℕ) (freed : List A) : Reachable junk m →
      m.dataFree fuel = some (m', freed) → Reachable junk m'

/-- Storing a new point extends the last chain. -/
def Appends [LinearOrder K] (m : Memory A K) (chains : List (List A)) : Prop :=
  ∀ (a : A) (p : Point K), 0 ≤ m.index → m.index < maxTestRuns → m.heap a = none →
    ∃ front l m', chains = front ++ [l] ∧ m.storePoint a p = some m' ∧ m.Appended m' front l a p

/-- `data_free` terminates; it has freed the points of all chains, each of them once. -/
def Frees (m : Memory A K) (chains : List (List A)) : Prop :=
  ∃ n, ∀ fuel ≥ n, ∃ m', m.dataFree fuel = some (m', chains.flatten) ∧ Chained m' []

/-- A slot with the index in the array has a chain. -/
theorem Chained.appends [LinearOrder K] {m : Memory A K} {chains : List (List A)}
    (h : Chained m chains) : Appends m chains := by
  intro a p hpos _ hnew
  rcases List.eq_nil_or_concat' chains with rfl | ⟨front, l, rfl⟩
  · have hindex : m.index + 1 = 0 := h.index
    omega
  · obtain ⟨m', hstore, happended⟩ := h.storePoint hnew p
    exact ⟨front, l, m', rfl, hstore, happended⟩

/-- Enough time for the walks is the number of live points. -/
theorem Chained.frees {m : Memory A K} {chains : List (List A)} (h : Chained m chains) :
    Frees m chains :=
  ⟨chains.flatten.length, fun _ hfuel => h.dataFree hfuel⟩

/-- All reachable memory holds chains. -/
theorem Reachable.exists_chained [Field K] [LinearOrder K] {junk : Fin maxTestRuns → Data A K}
    {m : Memory A K} (h : Reachable junk m) : ∃ chains, Chained m chains := by
  induction h with
  | initial => exact ⟨[], chained_initial junk⟩
  | testRunBegin line _ hbegin ih =>
    obtain ⟨chains, hchained⟩ := ih
    have hcases := hchained.testRunBegin line
    split at hcases
    · obtain ⟨m', hm', hopened⟩ := hcases
      obtain rfl := Option.some.inj (hm'.symm.trans hbegin)
      exact ⟨_, hopened.chained⟩
    · obtain rfl := Option.some.inj (hcases.symm.trans hbegin)
      exact ⟨chains, hchained⟩
  | storePoint a p _ hpos hlt hnew hstore ih =>
    obtain ⟨chains, hchained⟩ := ih
    obtain ⟨front, l, m', -, hm', happended⟩ := hchained.appends a p hpos hlt hnew
    obtain rfl := Option.some.inj (hm'.symm.trans hstore)
    exact ⟨_, happended.chained⟩
  | dataFree fuel freed _ hfree ih =>
    obtain ⟨chains, hchained⟩ := ih
    exact ⟨[], hchained.of_dataFree hfree⟩

/-- In all reachable memory the slots in use hold disjoint chains of all live points, a new point
extends the last of them, and freeing them frees every live point once. -/
theorem reachable_chained [Field K] [LinearOrder K] (junk : Fin maxTestRuns → Data A K)
    {m : Memory A K} (h : Reachable junk m) :
    ∃ chains, Chained m chains ∧ Appends m chains ∧ Frees m chains := by
  obtain ⟨chains, hchained⟩ := h.exists_chained
  exact ⟨chains, hchained, hchained.appends, hchained.frees⟩

end

/-- Slots that hold pointers to no point. -/
def danglingSlots : Fin maxTestRuns → Data ℕ ℚ := fun _ => ⟨0, 0, 0, 0, some 7, some 7, 3, 0⟩

/-- A point at the address of one that was freed, in a slot that still points to it. -/
theorem danglingSlots_chained :
    ∃ m : Memory ℕ ℚ, m.index = 0 ∧ m.heap 0 = some ⟨none, ⟨3, 1 / 2, 5⟩⟩ ∧
      ∃ chains, Chained m chains ∧ Appends m chains ∧ Frees m chains := by
  have hopen : Reachable danglingSlots _ := .testRunBegin 1 .initial rfl
  have hstore : Reachable danglingSlots _ :=
    .storePoint 0 ⟨1, 1 / 4, 2⟩ hopen (by decide) (by decide) rfl rfl
  have hfree : Reachable danglingSlots _ := .dataFree 1 [0] hstore rfl
  have hreopen : Reachable danglingSlots _ := .testRunBegin 4 hfree rfl
  have hagain : Reachable danglingSlots _ :=
    .storePoint 0 ⟨3, 1 / 2, 5⟩ hreopen (by decide) (by decide) rfl rfl
  exact ⟨_, rfl, rfl, reachable_chained danglingSlots hagain⟩

end FlukeTesting.Statstool
