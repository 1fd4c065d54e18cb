import Mathlib.Data.Set.Card
import Mathlib.Order.Interval.Finset.Nat
import Reformat.Proofs.SubsetConstruction

/-! Sets of items, without an automaton that numbers them. Those that can be reached from the
initial set are the kernels of the states, each of one state. -/

namespace Reformat

namespace Augmented

/-- The set of the accepting item before the start symbol. -/
def initialSet : Set Item := {⟨0, 0⟩}

/-- A set together with the items that it goes on to without reading anything. -/
def close (g : Augmented) (K : Set Item) : Set Item := g.itemAutomaton.εClosure K

/-- The items of the closed set that have a symbol after the dot, with the dot moved over it. -/
def moved (g : Augmented) (K : Set Item) (symbol : Symbol) : Set Item :=
  {i | ∃ j ∈ g.close K, g.next? j = some symbol ∧ i = j.advance}

/-- The sets that are reached from the initial one by moving dots over symbols that follow them. -/
inductive IsReached (g : Augmented) : Set Item → Prop
  | initial : IsReached g initialSet
  | moved {K : Set Item} {i : Item} {symbol : Symbol} (hK : IsReached g K) (hi : i ∈ g.close K)
      (hnext : g.next? i = some symbol) : IsReached g (g.moved K symbol)

/-- The number of the sets that are reached. -/
noncomputable def setCount (g : Augmented) : Nat := {K | g.IsReached K}.ncard

/-- The items of the kernel of a state. -/
def kernelSet (g : Augmented) (q : StateId) : Set Item :=
  {i | ∃ s, g.automaton.states[q]? = some s ∧ i ∈ s.kernel}

variable {g : Augmented} {i : Item} {symbol : Symbol} {p q : StateId}

theorem kernelSet_eq {s : AutomatonState} (hs : g.automaton.states[q]? = some s) :
    g.kernelSet q = {k | k ∈ s.kernel} := by
  ext k
  simp [kernelSet, hs]

theorem kernelSet_zero : g.kernelSet 0 = initialSet := by
  obtain ⟨s, hs, hkernel⟩ := g.state_zero
  rw [kernelSet_eq hs, hkernel]
  ext i
  exact List.mem_singleton

/-- The closed kernel of a state holds the items of the state. -/
theorem mem_close_kernelSet : i ∈ g.close (g.kernelSet q) ↔ g.Holds q i := by
  cases hs : g.automaton.states[q]? with
  | none =>
    have hempty : g.kernelSet q = ∅ := by
      apply Set.eq_empty_of_forall_notMem
      rintro k ⟨s, hs', -⟩
      simp [hs] at hs'
    rw [hempty, close, εNFA.εClosure_empty]
    constructor
    · exact fun hi => absurd hi (Set.notMem_empty i)
    · rintro ⟨s, hs', -⟩
      simp [hs] at hs'
  | some s =>
    rw [kernelSet_eq hs, close, ← inClosure_iff, holds_iff hs]

/-- A symbol stands after a dot of a state if and only if it leads on from there. -/
theorem exists_mem_close_iff : (∃ i ∈ g.close (g.kernelSet q), g.next? i = some symbol) ↔
    ∃ r, g.automaton.next? q symbol = some r := by
  rw [exists_next?_iff]
  exact exists_congr fun i => and_congr_left' mem_close_kernelSet

/-- A transition moves dots over its symbol. -/
theorem moved_kernelSet (h : g.automaton.next? p symbol = some q) :
    g.moved (g.kernelSet p) symbol = g.kernelSet q := by
  obtain ⟨s, t, hs, ht, hkernel⟩ := kernel_eq_of_next? h
  rw [kernelSet_eq ht]
  ext i
  constructor
  · rintro ⟨j, hj, hnext, rfl⟩
    have hin := (holds_iff hs).mp (mem_close_kernelSet.mp hj)
    exact (hkernel _).mpr ⟨j, hin, hnext, rfl⟩
  · intro hi
    obtain ⟨j, hj, hnext, rfl⟩ := (hkernel i).mp hi
    exact ⟨j, mem_close_kernelSet.mpr ⟨s, hs, hj⟩, hnext, rfl⟩

theorem kernelSet_injective {s t : AutomatonState} (hs : g.automaton.states[p]? = some s)
    (ht : g.automaton.states[q]? = some t) (h : g.kernelSet p = g.kernelSet q) : p = q := by
  apply eq_of_mem_kernel_iff hs ht
  intro i
  rw [kernelSet_eq hs, kernelSet_eq ht] at h
  exact Set.ext_iff.mp h i

/-- The sets that are reached are the kernels of the states. -/
theorem isReached_iff {K : Set Item} :
    g.IsReached K ↔ ∃ q s, g.automaton.states[q]? = some s ∧ g.kernelSet q = K := by
  constructor
  · intro h
    induction h with
    | initial =>
      obtain ⟨s, hs, -⟩ := g.state_zero
      exact ⟨0, s, hs, kernelSet_zero⟩
    | moved _ hi hnext ih =>
      obtain ⟨p, s, -, rfl⟩ := ih
      obtain ⟨q, hq⟩ := (mem_close_kernelSet.mp hi).exists_next? hnext
      obtain ⟨-, t, -, ht, -⟩ := kernel_eq_of_next? hq
      exact ⟨q, t, ht, (moved_kernelSet hq).symm⟩
  · rintro ⟨q, s, hs, rfl⟩
    refine state_induction (motive := fun q => g.IsReached (g.kernelSet q)) ?_ ?_ hs
    · rw [kernelSet_zero]
      exact .initial
    · intro p symbol q hp hq
      obtain ⟨i, hi, hnext⟩ := exists_holds_of_next? hq
      rw [← moved_kernelSet hq]
      exact .moved hp (mem_close_kernelSet.mpr hi) hnext

/-- There are as many states as sets that are reached. -/
theorem setCount_eq (g : Augmented) : g.setCount = g.automaton.states.size := by
  have himage : {K | g.IsReached K} = g.kernelSet '' Set.Iio g.automaton.states.size := by
    ext K
    constructor
    · intro hK
      obtain ⟨q, s, hs, rfl⟩ := isReached_iff.mp hK
      exact ⟨q, (Array.getElem?_eq_some_iff.mp hs).1, rfl⟩
    · rintro ⟨q, hq, rfl⟩
      exact isReached_iff.mpr ⟨q, _, Array.getElem?_eq_getElem hq, rfl⟩
  have hinjective : Set.InjOn g.kernelSet (Set.Iio g.automaton.states.size) := by
    intro p hp q hq h
    exact kernelSet_injective (Array.getElem?_eq_getElem hp) (Array.getElem?_eq_getElem hq) h
  rw [setCount, himage, hinjective.ncard_image, ← Finset.coe_Iio, Set.ncard_coe_finset,
    Nat.card_Iio]

end Augmented

end Reformat
