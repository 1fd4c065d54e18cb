import Reformat.Proofs.Worklist

/-! The structure of an automaton: how its states are numbered, what tells them apart, and where its
transitions lead. -/

namespace Reformat

theorem Association.get?_of_mem {κ ν : Type} [DecidableEq κ] {key : κ} {value : ν}
    {pairs : List (κ × ν)} (hnodup : (pairs.map (·.1)).Nodup) (h : (key, value) ∈ pairs) :
    get? key pairs = some value := by
  induction pairs with
  | nil => simp at h
  | cons pair pairs ih =>
    rw [List.map_cons, List.nodup_cons] at hnodup
    rcases List.mem_cons.mp h with rfl | h
    · rw [get?, if_pos rfl]
    · have hne : pair.1 ≠ key := by
        intro heq
        exact hnodup.1 (heq ▸ List.mem_map_of_mem h)
      rw [get?, if_neg hne]
      exact ih hnodup.2 h

/-- A state has one transition for each group of its items. -/
theorem Frontier.symbols_transitions {g : Augmented} : ∀ s ∈ g.automaton.states,
    s.transitions.map (·.1) = (ItemGroup.ofItems (g.closure s.kernel)).map (·.symbol) := by
  refine Machine.run_induction (m := machine g)
    (fun s => ∀ t ∈ s.states, t.transitions.map (·.1) =
      (ItemGroup.ofItems (g.closure t.kernel)).map (·.symbol))
    (fun a => ∀ t ∈ a.states, t.transitions.map (·.1) =
      (ItemGroup.ofItems (g.closure t.kernel)).map (·.symbol)) ?_ ?_ _ ?_
  · intro s t hs hstep u hu
    obtain ⟨kernel, -, -, hstates⟩ := step_next hstep
    rw [hstates, Array.mem_push] at hu
    rcases hu with hu | rfl
    · exact hs u hu
    · exact List.map_map
  · intro s a hs hstep
    rw [(step_done hstep).2]
    exact hs
  · -- there is no state yet
    simp [Frontier.initial]

/-- A transition on a symbol leads from one state to another. -/
def Automaton.Leads (a : Automaton) (p : StateId) (symbol : Symbol) (q : StateId) : Prop :=
  ∃ s, a.states[p]? = some s ∧ (symbol, q) ∈ s.transitions

namespace Augmented

variable {g : Augmented} {p q r : StateId} {symbol other : Symbol} {s : AutomatonState}

theorem nodup_symbols (hs : s ∈ g.automaton.states) : (s.transitions.map (·.1)).Nodup := by
  rw [Frontier.symbols_transitions s hs]
  exact ItemGroup.nodup_symbols_ofItems _

theorem leads_iff : g.automaton.Leads p symbol q ↔ g.automaton.next? p symbol = some q := by
  rw [Automaton.next?, Option.bind_eq_some_iff]
  apply exists_congr
  intro s
  apply and_congr_right
  intro hs
  exact ⟨Association.get?_of_mem (nodup_symbols (Array.mem_of_getElem? hs)),
    Association.mem_of_get?⟩

theorem lt_size_of_leads (h : g.automaton.Leads p symbol q) : q < g.automaton.states.size := by
  obtain ⟨-, t, -, ht, -⟩ := kernel_eq_of_next? (leads_iff.mp h)
  exact (Array.getElem?_eq_some_iff.mp ht).1

/-- The items of a kernel say which symbol leads to it. -/
theorem eq_of_leads (hp : g.automaton.Leads p symbol q) (hr : g.automaton.Leads r other q) :
    symbol = other := by
  rw [leads_iff] at hp hr
  obtain ⟨i, hi, hnext⟩ := exists_holds_of_next? hp
  have hmoved : g.Holds q ⟨i.rule, i.dot + 1⟩ := hi.advance hnext hp
  -- the symbol before the dot does not depend on the state before
  have hbefore := (hmoved.of_succ hp).2
  have hbefore' := (hmoved.of_succ hr).2
  exact Option.some.inj (hbefore.symm.trans hbefore')

theorem nodup_targets (hs : g.automaton.states[q]? = some s) :
    (s.transitions.map (·.2)).Nodup := by
  have hnodup := nodup_symbols (Array.mem_of_getElem? hs)
  rw [List.nodup_iff_pairwise_ne, List.pairwise_map] at hnodup ⊢
  refine hnodup.imp_of_mem ?_
  intro a b ha hb hne heq
  -- a common target would be entered by both symbols
  have hleads : g.automaton.Leads q b.1 a.2 := ⟨s, hs, heq ▸ hb⟩
  exact hne (eq_of_leads ⟨s, hs, ha⟩ hleads)

theorem exists_leads (hs : g.automaton.states[q]? = some s) (hq : q ≠ 0) :
    ∃ p symbol, g.automaton.Leads p symbol q := by
  refine state_induction (motive := fun q => q ≠ 0 → ∃ p symbol, g.automaton.Leads p symbol q)
    ?_ ?_ hs hq
  · intro hzero
    exact absurd rfl hzero
  · intro p symbol q _ hnext _
    exact ⟨p, symbol, leads_iff.mpr hnext⟩

/-- Dots have moved in all states but the initial one. -/
theorem moved_of_ne_zero (hs : g.automaton.states[q]? = some s) (hq : q ≠ 0) :
    s.kernel ≠ [] ∧ ∀ i ∈ s.kernel, 1 ≤ i.dot := by
  obtain ⟨p, symbol, hleads⟩ := exists_leads hs hq
  rw [leads_iff] at hleads
  obtain ⟨t, u, ht, hu, hkernel⟩ := kernel_eq_of_next? hleads
  obtain rfl : u = s := Option.some.inj (hu.symm.trans hs)
  constructor
  · obtain ⟨i, hi, hnext⟩ := exists_holds_of_next? hleads
    have hmem := (hkernel i.advance).mpr ⟨i, (holds_iff ht).mp hi, hnext, rfl⟩
    exact List.ne_nil_of_mem hmem
  · intro i hi
    obtain ⟨j, -, -, rfl⟩ := (hkernel i).mp hi
    exact Nat.succ_pos j.dot

theorem reachable (hs : g.automaton.states[q]? = some s) :
    Relation.ReflTransGen (fun p q => ∃ symbol, g.automaton.Leads p symbol q) 0 q := by
  refine state_induction .refl ?_ hs
  intro p symbol q hp hnext
  exact hp.tail ⟨symbol, leads_iff.mpr hnext⟩

end Augmented

/-- The kernels of an automaton tell its states apart, and its transitions lead to all of them. -/
structure Automaton.Orderly (a : Automaton) : Prop where
  /-- Nothing leads to the initial state, which has the kernel that everything starts with. -/
  initial : ∃ s, a.states[0]? = some s ∧ s.kernel = [⟨0, 0⟩]
  not_entered : ∀ p symbol, ¬ a.Leads p symbol 0
  nonempty : ∀ (q : StateId) s, a.states[q]? = some s → s.kernel ≠ []
  ascending : ∀ (q : StateId) s, a.states[q]? = some s → Ascending s.kernel
  moved : ∀ (q : StateId) s, a.states[q]? = some s → q ≠ 0 → ∀ i ∈ s.kernel, 1 ≤ i.dot
  kernel_injective : ∀ (p q : StateId) s t, a.states[p]? = some s →
    a.states[q]? = some t → s.kernel = t.kernel → p = q
  target_lt : ∀ p symbol q, a.Leads p symbol q → q < a.states.size
  reachable : ∀ q < a.states.size,
    Relation.ReflTransGen (fun p q => ∃ symbol, a.Leads p symbol q) 0 q
  /-- The transitions of a state have different symbols, and lead to different states. -/
  symbols : ∀ (q : StateId) s, a.states[q]? = some s → (s.transitions.map (·.1)).Nodup
  targets : ∀ (q : StateId) s, a.states[q]? = some s → (s.transitions.map (·.2)).Nodup
  /-- All transitions into a state have the same symbol. -/
  entered_by : ∀ p r symbol other q, a.Leads p symbol q → a.Leads r other q → symbol = other

/-- The states of an automaton get the numbers from 0 on, in the order in which they are inserted.
Their kernels tell them apart, and the transitions lead to all of them. -/
theorem automaton_structure (g : Augmented) :
    (∃ run states, Step.IsRun (Worklist.step g) .initial run states ∧
      states.map (·.1) = List.range states.length ∧
      states.map (·.2) = g.automaton.states.toList) ∧ g.automaton.Orderly := by
  refine ⟨⟨_, _, Worklist.isRun_visited g, ?_, ?_⟩, ?_⟩
  · -- the worklist takes the states in the order of their numbers
    rw [Worklist.map_fst_numbered, List.length_map, List.length_zipIdx]
  · rw [List.map_map]
    exact List.zipIdx_map_fst 0 _
  constructor
  case initial => exact g.state_zero
  case not_entered =>
    intro p symbol hleads
    exact Augmented.next?_ne_zero (Augmented.leads_iff.mp hleads) rfl
  case nonempty =>
    intro q s hs
    -- state 0 has the initial item, any other state the items that were moved
    by_cases hq : q = 0
    · obtain ⟨t, ht, hkernel⟩ := g.state_zero
      obtain rfl : t = s := Option.some.inj (ht.symm.trans (hq ▸ hs))
      rw [hkernel]
      exact List.cons_ne_nil _ _
    · exact (Augmented.moved_of_ne_zero hs hq).1
  case ascending =>
    intro q s hs
    exact (Augmented.isKernel_of_mem (Array.mem_of_getElem? hs)).ascending
  case moved =>
    intro q s hs hq
    exact (Augmented.moved_of_ne_zero hs hq).2
  case kernel_injective =>
    intro p q s t hs ht heq
    exact Augmented.eq_of_kernel_eq hs ht heq
  case target_lt =>
    intro p symbol q hleads
    exact Augmented.lt_size_of_leads hleads
  case reachable =>
    intro q hq
    exact Augmented.reachable (Array.getElem?_eq_getElem hq)
  case symbols =>
    intro q s hs
    exact Augmented.nodup_symbols (Array.mem_of_getElem? hs)
  case targets =>
    intro q s hs
    exact Augmented.nodup_targets hs
  case entered_by =>
    intro p r symbol other q hp hr
    exact Augmented.eq_of_leads hp hr

end Reformat
