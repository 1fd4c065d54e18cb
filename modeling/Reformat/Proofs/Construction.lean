import Mathlib.Data.List.Induction
import Reformat.Association
import Reformat.Automaton
import Reformat.Proofs.Closure

/-! The construction of an automaton makes one state for each kernel that it finds, and none of its
numbers changes any more. -/

namespace Reformat

open Std

namespace ItemGroup

theorem find?_add (symbol other : Symbol) (item : TitledItem) (groups : List ItemGroup) :
    (add symbol item groups).find? (·.symbol = other) =
      if symbol = other then
        some ⟨other, ((groups.find? (·.symbol = other)).map (·.items)).getD [] ++ [item]⟩
      else groups.find? (·.symbol = other) := by
  fun_induction add symbol item groups with
  | case1 => by_cases h : symbol = other <;> simp [h]
  | case2 group groups hg =>
    by_cases h : symbol = other
    · simp [h, hg.trans h]
    · have hne : group.symbol ≠ other := fun he => h (hg.symm.trans he)
      simp [h, hne]
  | case3 group groups hg ih =>
    by_cases hgo : group.symbol = other
    · have hne : symbol ≠ other := fun he => hg (hgo.trans he.symm)
      simp [hgo, hne]
    · rw [List.find?_cons_of_neg (by simpa using hgo), ih,
        List.find?_cons_of_neg (by simpa using hgo)]

/-- The group of a symbol holds all items with the symbol after the dot; there is a group only if
there are such items. -/
theorem find?_ofItems (items : List TitledItem) (symbol : Symbol) :
    (ofItems items).find? (·.symbol = symbol) =
      if items.filter (·.next = some symbol) = [] then none
      else some ⟨symbol, items.filter (·.next = some symbol)⟩ := by
  -- groups grow at their ends, so the last item is taken off first
  induction items using List.reverseRecOn with
  | nil => simp [ofItems]
  | append_singleton items t ih =>
    rw [List.filter_append]
    cases hn : t.next with
    | none =>
      have hlast : ofItems (items ++ [t]) = ofItems items := by
        simp [ofItems, List.foldl_append, hn]
      simpa [hlast, hn] using ih
    | some other =>
      have hlast : ofItems (items ++ [t]) = add other t (ofItems items) := by
        simp [ofItems, List.foldl_append, hn]
      simp only [hlast, find?_add, ih]
      by_cases ho : other = symbol
      · subst ho
        by_cases hempty : items.filter (·.next = some other) = [] <;> simp [hn, hempty]
      · simp [hn, ho]

theorem mem_kernel_iff {group : ItemGroup} {i : Item} :
    i ∈ group.kernel ↔ ∃ t ∈ group.items, t.item.advance = i := by
  rw [kernel, Ascending.mem_ofList, List.mem_map]

theorem mem_reduces_iff {items : List TitledItem} {id : RuleId} :
    id ∈ reduces items ↔ ∃ t ∈ items, t.next = none ∧ t.item.rule = id := by
  simp [reduces, Ascending.mem_ofList, TitledItem.isReduceReady, and_assoc]

end ItemGroup

theorem Association.get?_map {κ ν α : Type} [DecidableEq κ] (key : α → κ) (value : α → ν) (k : κ)
    (as : List α) : Association.get? k (as.map fun a => (key a, value a)) =
      (as.find? (key · = k)).map value := by
  induction as with
  | nil => rfl
  | cons a as ih =>
    by_cases h : key a = k
    · simp [Association.get?, h]
    · simp [Association.get?, h, ih]

namespace AutomatonState

theorem get?_shifts (s : AutomatonState) (pattern : String) :
    Association.get? pattern s.shifts = Association.get? (.terminal pattern) s.transitions := by
  rw [shifts]
  induction s.transitions with
  | nil => rfl
  | cons transition transitions ih =>
    obtain ⟨symbol, next⟩ := transition
    cases symbol with
    | terminal other => simp [Association.get?, ih]
    | nonterminal name => simp [Association.get?, ih]

theorem get?_gotos (s : AutomatonState) (name : String) :
    Association.get? name s.gotos = Association.get? (.nonterminal name) s.transitions := by
  rw [gotos]
  induction s.transitions with
  | nil => rfl
  | cons transition transitions ih =>
    obtain ⟨symbol, next⟩ := transition
    cases symbol with
    | terminal pattern => simp [Association.get?, ih]
    | nonterminal other => simp [Association.get?, ih]

end AutomatonState

/-- The state that a symbol leads to from a state. -/
def Automaton.next? (a : Automaton) (q : StateId) (symbol : Symbol) : Option StateId :=
  (a.states[q]?).bind fun s => Association.get? symbol s.transitions

namespace Frontier

variable {g : Augmented} {s t : Frontier g} {kernels : Numbering (List Item)} {kernel : List Item}
  {q : StateId}

/-- A state was made for the kernel with its number, and its transitions lead to kernels with
numbers. -/
structure Made (g : Augmented) (kernels : Numbering (List Item)) (q : StateId)
    (s : AutomatonState) : Prop where
  kernel : kernels.values[q]? = some s.kernel
  proper : g.IsKernel s.kernel
  reduces : s.reduces = ItemGroup.reduces (g.closure s.kernel)
  target : ∀ symbol next, Association.get? symbol s.transitions = some next →
    ∃ group, (ItemGroup.ofItems (g.closure s.kernel)).find? (·.symbol = symbol) = some group ∧
      kernels.values[next]? = some group.kernel
  transition : ∀ symbol group,
    (ItemGroup.ofItems (g.closure s.kernel)).find? (·.symbol = symbol) = some group →
      ∃ next, Association.get? symbol s.transitions = some next

/-- What holds of an automaton in the making. All kernels but the first come from moving dots. -/
structure Invariant (s : Frontier g) : Prop where
  size_le : s.states.size ≤ s.kernels.values.size
  initial : s.kernels.values[0]? = some Augmented.initialKernel
  moved : ∀ (q : StateId) kernel, s.kernels.values[q + 1]? = some kernel →
    ∀ i ∈ kernel, 0 < i.dot
  made : ∀ (q : StateId) state, s.states[q]? = some state → Made g s.kernels q state

theorem getElem?_insert (h : kernels.values[q]? = some kernel) (other : List Item) :
    (kernels.insert other).values[q]? = some kernel := by
  rw [Numbering.insert]
  split
  · exact h
  · rw [Array.getElem?_push, if_neg, h]
    exact Nat.ne_of_lt (Array.getElem?_eq_some_iff.mp h).1

theorem getElem?_discover (h : kernels.values[q]? = some kernel) (groups : List ItemGroup) :
    (discover groups kernels).values[q]? = some kernel := by
  rw [discover]
  induction groups generalizing kernels with
  | nil => exact h
  | cons group groups ih => exact ih (getElem?_insert h group.kernel)

theorem exists_number_of_mem (kernels : Numbering (List Item)) {groups : List ItemGroup}
    {group : ItemGroup} (h : group ∈ groups) :
    ∃ next, (discover groups kernels).number? group.kernel = some next := by
  rw [discover]
  induction groups generalizing kernels with
  | nil => simp at h
  | cons other groups ih =>
    rcases List.mem_cons.mp h with rfl | h
    · have hmem : group.kernel ∈ (kernels.insert group.kernel).toList :=
        Numbering.mem_toList_insert.mpr (Or.inl rfl)
      obtain ⟨next, hnext⟩ := List.mem_iff_getElem?.mp hmem
      refine ⟨next, Numbering.number?_eq_some.mpr ?_⟩
      exact getElem?_discover (by simpa [Numbering.toList] using hnext) groups
    · exact ih _ h

theorem Made.mono {state : AutomatonState} (h : Made g kernels q state) (groups : List ItemGroup) :
    Made g (discover groups kernels) q state where
  kernel := getElem?_discover h.kernel groups
  proper := h.proper
  reduces := h.reduces
  target symbol next hnext := by
    obtain ⟨group, hgroup, hkernel⟩ := h.target symbol next hnext
    exact ⟨group, hgroup, getElem?_discover hkernel groups⟩
  transition := h.transition

theorem made_stateOf (hkernel : kernels.values[q]? = some kernel) (hproper : g.IsKernel kernel) :
    Made g (discover (ItemGroup.ofItems (g.closure kernel)) kernels) q
      (stateOf (discover (ItemGroup.ofItems (g.closure kernel)) kernels) kernel
        (g.closure kernel)) where
  kernel := getElem?_discover hkernel _
  proper := hproper
  reduces := rfl
  target symbol next hnext := by
    simp only [stateOf, Association.get?_map, Option.map_eq_some_iff] at hnext
    obtain ⟨group, hgroup, hnumber⟩ := hnext
    obtain ⟨n, hn⟩ := exists_number_of_mem kernels (List.mem_of_find?_eq_some hgroup)
    rw [hn, Option.getD_some] at hnumber
    exact ⟨group, hgroup, Numbering.number?_eq_some.mp (hnumber ▸ hn)⟩
  transition symbol group hgroup := by
    simp only [stateOf, Association.get?_map] at hgroup ⊢
    rw [hgroup]
    exact ⟨_, rfl⟩

theorem invariant_initial (g : Augmented) : Invariant (initial g) := by
  have hvalues : (initial g).kernels.values = #[Augmented.initialKernel] := rfl
  refine ⟨Nat.zero_le _, by rw [hvalues]; rfl, ?_, ?_⟩
  · intro q kernel h
    rw [hvalues] at h
    simp at h
  · intro q state h
    simp [initial] at h

/-- What a step does: it makes the state of the first kernel that has none. -/
theorem step_next (h : step s = .next t) :
    ∃ kernel, s.kernels.values[s.states.size]? = some kernel ∧
    t.kernels = discover (ItemGroup.ofItems (g.closure kernel)) s.kernels ∧
    t.states = s.states.push (stateOf t.kernels kernel (g.closure kernel)) := by
  unfold step at h
  split at h
  · simp at h
  · next kernel hkernel =>
    obtain rfl := Step.next.inj h
    exact ⟨kernel, hkernel, rfl, rfl⟩

theorem Invariant.step (hs : Invariant s) (h : step s = .next t) : Invariant t := by
  obtain ⟨kernel, hkernel, hkernels, hstates⟩ := step_next h
  have hlt := (Array.getElem?_eq_some_iff.mp hkernel).1
  have hproper : g.IsKernel kernel :=
    s.proper kernel (Array.mem_toList_iff.mpr (Array.mem_of_getElem? hkernel))
  refine ⟨?_, ?_, ?_, ?_⟩
  · -- the kernel whose state was made keeps its number, so there is room for the state
    have hkept := getElem?_discover hkernel (ItemGroup.ofItems (g.closure kernel))
    rw [← hkernels] at hkept
    have := (Array.getElem?_eq_some_iff.mp hkept).1
    rw [hstates, Array.size_push]
    omega
  · rw [hkernels]
    exact getElem?_discover hs.initial _
  · intro q other hother i hi
    rw [hkernels] at hother
    have hmem := Array.mem_toList_iff.mpr (Array.mem_of_getElem? hother)
    rcases mem_discover hmem with hold | ⟨group, -, rfl⟩
    · -- an old kernel has kept its number
      obtain ⟨n, hn⟩ := List.mem_iff_getElem?.mp hold
      have hn : s.kernels.values[n]? = some other := by simpa [Numbering.toList] using hn
      have hsame := (Numbering.number?_eq_some.mpr (getElem?_discover hn _)).symm.trans
        (Numbering.number?_eq_some.mpr hother)
      exact hs.moved q other (Option.some.inj hsame ▸ hn) i hi
    · -- the items of a new kernel have moved their dots
      obtain ⟨t, -, rfl⟩ := ItemGroup.mem_kernel_iff.mp hi
      exact Nat.succ_pos _
  · intro q state hstate
    rw [hstates, Array.getElem?_push] at hstate
    split at hstate
    · next hq =>
      obtain rfl := Option.some.inj hstate
      rw [hkernels]
      exact made_stateOf (hq ▸ hkernel) hproper
    · rw [hkernels]
      exact (hs.made q state hstate).mono _

theorem step_done {a : Automaton} (h : step s = .done a) :
    s.kernels.values[s.states.size]? = none ∧ a.states = s.states := by
  unfold step at h
  split at h
  · next hnone =>
    obtain rfl := Step.done.inj h
    exact ⟨hnone, rfl⟩
  · simp at h

/-- An automaton in which every kernel has its state. -/
structure Complete (g : Augmented) (kernels : Numbering (List Item)) (a : Automaton) : Prop where
  size_eq : kernels.values.size = a.states.size
  initial : kernels.values[0]? = some Augmented.initialKernel
  moved : ∀ (q : StateId) kernel, kernels.values[q + 1]? = some kernel → ∀ i ∈ kernel, 0 < i.dot
  made : ∀ (q : StateId) state, a.states[q]? = some state → Made g kernels q state

theorem exists_complete (g : Augmented) : ∃ kernels, Complete g kernels g.automaton := by
  refine Machine.run_induction (m := machine g) Invariant (fun a => ∃ kernels, Complete g kernels a)
    ?_ ?_ _ (invariant_initial g)
  · intro s t hs h
    exact hs.step h
  · intro s a hs h
    obtain ⟨hnone, hstates⟩ := step_done h
    have hsize : s.kernels.values.size = s.states.size :=
      Nat.le_antisymm (Array.getElem?_eq_none_iff.mp hnone) hs.size_le
    exact ⟨s.kernels, hstates ▸ hsize, hs.initial, hs.moved, fun q state hq =>
      hs.made q state (hstates ▸ hq)⟩

end Frontier

end Reformat
