import Reformat.Proofs.Items

/-! The states of an automaton: all of them can be reached from the initial state, and they differ
in their kernels. -/

namespace Reformat

namespace ItemGroup

theorem symbols_add (symbol : Symbol) (item : TitledItem) (groups : List ItemGroup) :
    (add symbol item groups).map (·.symbol) =
      if symbol ∈ groups.map (·.symbol) then groups.map (·.symbol)
      else groups.map (·.symbol) ++ [symbol] := by
  fun_induction add symbol item groups with
  | case1 => rfl
  | case2 group groups hg => simp [hg]
  | case3 group groups hg ih =>
    rw [List.map_cons, List.map_cons, ih]
    by_cases hmem : symbol ∈ groups.map (·.symbol)
    · rw [if_pos hmem, if_pos (List.mem_cons_of_mem _ hmem)]
    · have hnot : symbol ∉ group.symbol :: groups.map (·.symbol) := by
        rw [List.mem_cons]
        rintro (h | h)
        · exact hg h.symm
        · exact hmem h
      rw [if_neg hmem, if_neg hnot, List.cons_append]

/-- There is one group for each symbol. -/
theorem nodup_symbols_ofItems (items : List TitledItem) :
    ((ofItems items).map (·.symbol)).Nodup := by
  -- groups grow at their ends, so the last item is taken off first
  induction items using List.reverseRecOn with
  | nil => exact List.nodup_nil
  | append_singleton items t ih =>
    cases hn : t.next with
    | none =>
      have hlast : ofItems (items ++ [t]) = ofItems items := by
        simp [ofItems, List.foldl_append, hn]
      rw [hlast]
      exact ih
    | some symbol =>
      have hlast : ofItems (items ++ [t]) = add symbol t (ofItems items) := by
        simp [ofItems, List.foldl_append, hn]
      rw [hlast, symbols_add]
      split
      · exact ih
      · next hnot =>
        rw [List.nodup_append]
        refine ⟨ih, List.nodup_singleton symbol, ?_⟩
        intro a ha b hb hab
        rw [List.mem_singleton] at hb
        exact hnot (hb ▸ hab ▸ ha)

theorem find?_of_mem {items : List TitledItem} {group : ItemGroup} (h : group ∈ ofItems items) :
    (ofItems items).find? (·.symbol = group.symbol) = some group := by
  have hnodup := nodup_symbols_ofItems items
  generalize ofItems items = groups at h hnodup
  induction groups with
  | nil => simp at h
  | cons other groups ih =>
    rw [List.map_cons, List.nodup_cons] at hnodup
    rcases List.mem_cons.mp h with rfl | h
    · simp
    · -- the groups before it have other symbols
      have hne : other.symbol ≠ group.symbol := by
        intro heq
        exact hnodup.1 (heq ▸ List.mem_map_of_mem h)
      rw [List.find?_cons_of_neg (by simpa using hne)]
      exact ih h hnodup.2

end ItemGroup

namespace Frontier

variable {g : Augmented}

/-- What holds of the initial kernel, and goes on from the kernel of a state to those of its groups,
holds of the kernels of all states. -/
theorem kernel_induction {motive : List Item → Prop} (initial : motive Augmented.initialKernel)
    (next : ∀ kernel group, motive kernel → group ∈ ItemGroup.ofItems (g.closure kernel) →
      motive group.kernel) : ∀ s ∈ g.automaton.states, motive s.kernel := by
  refine Machine.run_induction (m := machine g)
    (fun s => (∀ k ∈ s.kernels.toList, motive k) ∧ ∀ t ∈ s.states, motive t.kernel)
    (fun a => ∀ t ∈ a.states, motive t.kernel) ?_ ?_ _ ?_
  · rintro s t ⟨hkernels, hstates⟩ h
    -- a kernel that a step finds is that of a group of the state it makes
    obtain ⟨kernel, hkernel, hfound, hmade⟩ := step_next h
    have hmotive : motive kernel :=
      hkernels kernel (Array.mem_toList_iff.mpr (Array.mem_of_getElem? hkernel))
    constructor
    · intro k hk
      rw [hfound] at hk
      rcases mem_discover hk with hold | ⟨group, hgroup, rfl⟩
      · exact hkernels k hold
      · exact next kernel group hmotive hgroup
    · intro u hu
      rw [hmade, Array.mem_push] at hu
      rcases hu with hu | rfl
      · exact hstates u hu
      · exact hmotive
  · rintro s a ⟨-, hstates⟩ h
    rw [(step_done h).2]
    exact hstates
  · constructor
    · intro k hk
      obtain rfl : k = Augmented.initialKernel := by
        simpa [Frontier.initial, Numbering.mem_toList_insert] using hk
      exact initial
    · simp [Frontier.initial]

end Frontier

namespace Augmented

variable {g : Augmented} {p q : StateId} {s t : AutomatonState}

/-- No two states have the same kernel. -/
theorem eq_of_kernel_eq (hs : g.automaton.states[p]? = some s)
    (ht : g.automaton.states[q]? = some t) (h : s.kernel = t.kernel) : p = q := by
  obtain ⟨kernels, hc⟩ := Frontier.exists_complete g
  have hp := Numbering.number?_eq_some.mpr (hc.made p s hs).kernel
  have hq := Numbering.number?_eq_some.mpr (hc.made q t ht).kernel
  rw [h] at hp
  exact Option.some.inj (hp.symm.trans hq)

/-- No two states have kernels with the same items. -/
theorem eq_of_mem_kernel_iff (hs : g.automaton.states[p]? = some s)
    (ht : g.automaton.states[q]? = some t) (h : ∀ i, i ∈ s.kernel ↔ i ∈ t.kernel) : p = q := by
  obtain ⟨kernels, hc⟩ := Frontier.exists_complete g
  exact eq_of_kernel_eq hs ht (Ascending.eq_of_mem_iff (hc.made p s hs).proper.ascending
    (hc.made q t ht).proper.ascending h)

/-- A symbol leads on only from states with items before it. -/
theorem exists_holds_of_next? {symbol : Symbol} (h : g.automaton.next? p symbol = some q) :
    ∃ i, g.Holds p i ∧ g.next? i = some symbol := by
  obtain ⟨kernels, hc⟩ := Frontier.exists_complete g
  obtain ⟨s, hs, hget⟩ := Option.bind_eq_some_iff.mp h
  obtain ⟨group, hgroup, -⟩ := (hc.made p s hs).target symbol q hget
  rw [ItemGroup.find?_ofItems] at hgroup
  split at hgroup
  · simp at hgroup
  · next hne =>
    obtain ⟨t, ht⟩ := List.exists_mem_of_ne_nil _ hne
    rw [List.mem_filter, decide_eq_true_eq, mem_closure_iff] at ht
    obtain ⟨⟨hi, hnext⟩, hsymbol⟩ := ht
    exact ⟨t.item, ⟨s, hs, hi⟩, hnext ▸ hsymbol⟩

theorem exists_next?_iff {symbol : Symbol} : (∃ r, g.automaton.next? q symbol = some r) ↔
    ∃ i, g.Holds q i ∧ g.next? i = some symbol := by
  constructor
  · rintro ⟨r, hr⟩
    exact exists_holds_of_next? hr
  · rintro ⟨i, hi, hnext⟩
    exact hi.exists_next? hnext

/-- Every state is reached from the initial one. -/
theorem state_induction {motive : StateId → Prop} (zero : motive 0)
    (next : ∀ p symbol q, motive p → g.automaton.next? p symbol = some q → motive q)
    (hs : g.automaton.states[q]? = some s) : motive q := by
  obtain ⟨kernels, hc⟩ := Frontier.exists_complete g
  have hkernel := Frontier.kernel_induction (g := g)
    (motive := fun k => ∃ p s, g.automaton.states[p]? = some s ∧ s.kernel = k ∧ motive p) ?_ ?_ s
    (Array.mem_of_getElem? hs)
  · obtain ⟨p, t, ht, hsame, hp⟩ := hkernel
    exact eq_of_kernel_eq ht hs hsame ▸ hp
  · obtain ⟨s, hs, hinitial⟩ := g.state_zero
    exact ⟨0, s, hs, hinitial, zero⟩
  · rintro kernel group ⟨p, s, hs, rfl, hp⟩ hgroup
    have hfind := ItemGroup.find?_of_mem hgroup
    obtain ⟨r, hr⟩ := (hc.made p s hs).transition _ _ hfind
    obtain ⟨group', hgroup', hnumber⟩ := (hc.made p s hs).target _ r hr
    obtain rfl := Option.some.inj (hfind.symm.trans hgroup')
    have hlt := (Array.getElem?_eq_some_iff.mp hnumber).1
    rw [hc.size_eq] at hlt
    have ht := Array.getElem?_eq_getElem hlt
    refine ⟨r, _, ht, ?_, ?_⟩
    · exact Option.some.inj ((hc.made r _ ht).kernel.symm.trans hnumber)
    · exact next p group.symbol r hp (by rw [Automaton.next?, hs, Option.bind_some, hr])

/-- The rules that a state may reduce come in ascending order. -/
theorem reduces_sorted (hs : g.automaton.states[q]? = some s) : s.reduces.Pairwise (· < ·) := by
  obtain ⟨kernels, hc⟩ := Frontier.exists_complete g
  rw [(hc.made q s hs).reduces]
  exact (Ascending.ofList_ascending _).imp fun h => Nat.compare_eq_lt.mp h

end Augmented

end Reformat
