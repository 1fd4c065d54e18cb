import Reformat.Proofs.Alternatives
import Reformat.Proofs.Construction

/-! The items of the states of an automaton, and what transitions do to them. What is said here is
all that other modules know of the construction. -/

namespace Reformat

namespace Augmented

variable {g : Augmented} {p q : StateId} {symbol : Symbol} {i : Item} {id : RuleId} {dot : Nat}

/-- Whether an item is in the closure of a state. -/
def Holds (g : Augmented) (q : StateId) (i : Item) : Prop :=
  ∃ s, g.automaton.states[q]? = some s ∧ g.InClosure s.kernel i

theorem holds_iff {s : AutomatonState} (hs : g.automaton.states[q]? = some s) :
    g.Holds q i ↔ g.InClosure s.kernel i := by
  constructor
  · intro ⟨t, ht, hi⟩
    exact Option.some.inj (ht.symm.trans hs) ▸ hi
  · exact fun hi => ⟨s, hs, hi⟩

theorem next?_eq {rule : Rule} (h : g.rule? i.rule = some rule) :
    g.next? i = rule.symbols[i.dot]? := by
  rw [next?, h, Option.bind_some, Rule.symbols, List.getElem?_map, Array.getElem?_toList]

theorem rule?_of_mem_alternatives {name : String} (h : id ∈ g.grammar.alternatives name) :
    ∃ rule, g.rule? id = some rule ∧ rule.name = name ∧ id ≠ 0 := by
  obtain ⟨rule, hrule, hname⟩ := Grammar.mem_alternatives_iff.mp h
  have hid : id ≠ 0 := by
    rintro rfl
    simp [Grammar.rule?] at hrule
  exact ⟨rule, by rw [rule?, if_neg hid, hrule], hname, hid⟩

/-- Items lie within their rules. -/
theorem Holds.rule (h : g.Holds q i) : ∃ rule, g.rule? i.rule = some rule ∧ i.dot ≤ rule.arity := by
  obtain ⟨s, hs, hi⟩ := h
  obtain ⟨kernels, hc⟩ := Frontier.exists_complete g
  cases hi with
  | kernel hi => exact mem_items.mp ((hc.made q s hs).proper.subset hi)
  | alternative _ _ hid =>
    obtain ⟨rule, hrule, -⟩ := rule?_of_mem_alternatives hid
    exact ⟨rule, hrule, Nat.zero_le _⟩

theorem Holds.alternative {name : String} (h : g.Holds q i)
    (hnext : g.next? i = some (.nonterminal name)) (hid : id ∈ g.grammar.alternatives name) :
    g.Holds q ⟨id, 0⟩ := by
  obtain ⟨s, hs, hi⟩ := h
  exact ⟨s, hs, hi.alternative hnext hid⟩

theorem state_zero (g : Augmented) :
    ∃ s, g.automaton.states[0]? = some s ∧ s.kernel = initialKernel := by
  obtain ⟨kernels, hc⟩ := Frontier.exists_complete g
  have hlt := (Array.getElem?_eq_some_iff.mp hc.initial).1
  rw [hc.size_eq] at hlt
  have hs := Array.getElem?_eq_getElem hlt
  exact ⟨_, hs, Option.some.inj ((hc.made 0 _ hs).kernel.symm.trans hc.initial)⟩

theorem holds_initial (g : Augmented) : g.Holds 0 ⟨0, 0⟩ := by
  obtain ⟨s, hs, hkernel⟩ := g.state_zero
  exact ⟨s, hs, .kernel (by simp [hkernel, initialKernel])⟩

theorem kernel_eq_of_next? (h : g.automaton.next? p symbol = some q) :
    ∃ s t, g.automaton.states[p]? = some s ∧ g.automaton.states[q]? = some t ∧
      ∀ i, i ∈ t.kernel ↔
        ∃ j, g.InClosure s.kernel j ∧ g.next? j = some symbol ∧ j.advance = i := by
  obtain ⟨kernels, hc⟩ := Frontier.exists_complete g
  obtain ⟨s, hs, hget⟩ := Option.bind_eq_some_iff.mp h
  obtain ⟨group, hgroup, hkernel⟩ := (hc.made p s hs).target symbol q hget
  have hlt := (Array.getElem?_eq_some_iff.mp hkernel).1
  rw [hc.size_eq] at hlt
  have ht := Array.getElem?_eq_getElem hlt
  have heq := Option.some.inj ((hc.made q _ ht).kernel.symm.trans hkernel)
  refine ⟨s, _, hs, ht, fun i => ?_⟩
  -- the group of a symbol holds the items of the closure that the symbol moves
  rw [ItemGroup.find?_ofItems] at hgroup
  split at hgroup
  · simp at hgroup
  · obtain rfl := Option.some.inj hgroup
    rw [heq, ItemGroup.mem_kernel_iff]
    simp only [List.mem_filter, decide_eq_true_eq, mem_closure_iff]
    constructor
    · rintro ⟨t, ⟨⟨hin, hnext⟩, hsymbol⟩, rfl⟩
      exact ⟨t.item, hin, hnext ▸ hsymbol, rfl⟩
    · rintro ⟨j, hin, hsymbol, rfl⟩
      exact ⟨g.titled j, ⟨⟨hin, rfl⟩, hsymbol⟩, rfl⟩

/-- Every symbol after a dot leads on. -/
theorem Holds.exists_next? (h : g.Holds q i) (hnext : g.next? i = some symbol) :
    ∃ r, g.automaton.next? q symbol = some r := by
  obtain ⟨s, hs, hi⟩ := h
  obtain ⟨kernels, hc⟩ := Frontier.exists_complete g
  have hmem : g.titled i ∈ (g.closure s.kernel).filter (·.next = some symbol) := by
    rw [List.mem_filter, mem_closure_iff]
    exact ⟨⟨hi, rfl⟩, decide_eq_true hnext⟩
  have hgroup := ItemGroup.find?_ofItems (g.closure s.kernel) symbol
  rw [if_neg (List.ne_nil_of_mem hmem)] at hgroup
  obtain ⟨r, hr⟩ := (hc.made q s hs).transition symbol _ hgroup
  exact ⟨r, by rw [Automaton.next?, hs, Option.bind_some, hr]⟩

/-- A transition moves the dot over its symbol. -/
theorem Holds.advance (h : g.Holds p i) (hnext : g.next? i = some symbol)
    (hq : g.automaton.next? p symbol = some q) : g.Holds q i.advance := by
  obtain ⟨s, t, hs, ht, hkernel⟩ := kernel_eq_of_next? hq
  have hi := (holds_iff hs).mp h
  exact ⟨t, ht, .kernel ((hkernel _).mpr ⟨i, hi, hnext, rfl⟩)⟩

/-- An item with something before its dot comes from the state before. -/
theorem Holds.of_succ (h : g.Holds q ⟨id, dot + 1⟩) (hq : g.automaton.next? p symbol = some q) :
    g.Holds p ⟨id, dot⟩ ∧ g.next? ⟨id, dot⟩ = some symbol := by
  obtain ⟨s, t, hs, ht, hkernel⟩ := kernel_eq_of_next? hq
  cases (holds_iff ht).mp h with
  | kernel hi =>
    obtain ⟨j, hj, hnext, hadvance⟩ := (hkernel _).mp hi
    obtain rfl : j = ⟨id, dot⟩ := by
      cases j
      simpa [Item.advance] using hadvance
    exact ⟨⟨s, hs, hj⟩, hnext⟩

theorem not_holds_zero_succ : ¬ g.Holds 0 ⟨id, dot + 1⟩ := by
  intro h
  obtain ⟨s, hs, hkernel⟩ := g.state_zero
  cases (holds_iff hs).mp h with
  | kernel hi => simp [hkernel, initialKernel] at hi

theorem next?_ne_zero (h : g.automaton.next? p symbol = some q) : q ≠ 0 := by
  rintro rfl
  obtain ⟨s, t, hs, ht, hkernel⟩ := kernel_eq_of_next? h
  obtain ⟨t', ht', hinitial⟩ := g.state_zero
  obtain rfl := Option.some.inj (ht.symm.trans ht')
  have hzero : (⟨0, 0⟩ : Item) ∈ t.kernel := by simp [hinitial, initialKernel]
  obtain ⟨j, -, -, hj⟩ := (hkernel _).mp hzero
  simp [Item.advance] at hj

/-- Where an item begins, it either starts everything or is an alternative of a name after a dot. -/
theorem Holds.cases_zero (h : g.Holds q ⟨id, 0⟩) : (q = 0 ∧ id = 0) ∨
    ∃ i name, g.Holds q i ∧ g.next? i = some (.nonterminal name) ∧
      id ∈ g.grammar.alternatives name := by
  obtain ⟨s, hs, hi⟩ := h
  cases hi with
  | kernel hi =>
    refine Or.inl ?_
    obtain ⟨kernels, hc⟩ := Frontier.exists_complete g
    have hkernel := (hc.made q s hs).kernel
    -- only the initial kernel has an item with nothing before the dot
    cases q with
    | zero =>
      have heq := Option.some.inj (hkernel.symm.trans hc.initial)
      rw [heq] at hi
      simpa [initialKernel] using hi
    | succ q => exact absurd (hc.moved q _ hkernel _ hi) (Nat.lt_irrefl 0)
  | alternative hi hnext hid => exact Or.inr ⟨_, _, ⟨s, hs, hi⟩, hnext, hid⟩

/-- The rules that a state may reduce are those of its complete items. -/
theorem mem_reduces_iff {s : AutomatonState} (hs : g.automaton.states[q]? = some s) :
    id ∈ s.reduces ↔ ∃ rule, g.rule? id = some rule ∧ g.Holds q ⟨id, rule.arity⟩ := by
  obtain ⟨kernels, hc⟩ := Frontier.exists_complete g
  rw [(hc.made q s hs).reduces, ItemGroup.mem_reduces_iff]
  constructor
  · -- where no symbol follows, the dot is at the end of the rule
    rintro ⟨t, ht, hnone, rfl⟩
    obtain ⟨hi, hnext⟩ := mem_closure_iff.mp ht
    have hholds : g.Holds q t.item := ⟨s, hs, hi⟩
    obtain ⟨rule, hrule, hle⟩ := hholds.rule
    rw [hnext, next?_eq hrule, List.getElem?_eq_none_iff, Rule.symbols, List.length_map,
      Array.length_toList] at hnone
    have hdot : t.item.dot = rule.arity := Nat.le_antisymm hle hnone
    refine ⟨rule, hrule, ?_⟩
    rw [← hdot]
    exact hholds
  · intro ⟨rule, hrule, hholds⟩
    have hi := (holds_iff hs).mp hholds
    refine ⟨g.titled ⟨id, rule.arity⟩, mem_closure_iff.mpr ⟨hi, rfl⟩, ?_, rfl⟩
    rw [titled, next?_eq hrule]
    simp [Rule.symbols, Rule.arity]

end Augmented

end Reformat
