import Mathlib.Computability.EpsilonNFA
import Reformat.Proofs.States

/-! The automaton of a grammar is the subset construction of a nondeterministic automaton whose
states are items: a state holds the items that can be reached by the words that lead to it. -/

namespace Reformat

/-- The state that a symbol leads to: a terminal is shifted, and a nonterminal has a goto. -/
def AutomatonState.target? (s : AutomatonState) : Symbol → Option StateId
  | .terminal pattern => Association.get? pattern s.shifts
  | .nonterminal name => Association.get? name s.gotos

/-- The state that a word leads to, symbol by symbol. -/
def Automaton.follow? (a : Automaton) (q : StateId) (word : List Symbol) : Option StateId :=
  word.foldlM (fun q symbol => (a.states[q]?).bind (·.target? symbol)) q

namespace Augmented

/-- A complete item has its dot at the end of its rule. -/
def IsComplete (g : Augmented) (i : Item) : Prop :=
  ∃ rule, g.rule? i.rule = some rule ∧ i.dot = rule.arity

/-- The automaton of items: a symbol moves the dot over it, and without reading anything an item
goes on to all alternatives of the nonterminal after its dot. -/
def itemAutomaton (g : Augmented) : εNFA Symbol Item where
  step i
    | some symbol => {j | g.next? i = some symbol ∧ j = i.advance}
    | none => {j | j.dot = 0 ∧ ∃ rule, g.grammar.rule? j.rule = some rule ∧
        g.next? i = some (.nonterminal rule.name)}
  start := {⟨0, 0⟩}
  accept := {i | g.IsComplete i}

variable {g : Augmented} {i j : Item} {word : List Symbol} {symbol : Symbol} {q r : StateId}

theorem mem_step_some : j ∈ g.itemAutomaton.step i (some symbol) ↔
    g.next? i = some symbol ∧ j = i.advance := Iff.rfl

theorem mem_step_none : j ∈ g.itemAutomaton.step i none ↔ j.dot = 0 ∧
    ∃ rule, g.grammar.rule? j.rule = some rule ∧ g.next? i = some (.nonterminal rule.name) :=
  Iff.rfl

/-- The closure of a kernel holds what can be reached from it without reading. -/
theorem inClosure_iff {kernel : List Item} :
    g.InClosure kernel i ↔ i ∈ g.itemAutomaton.εClosure {k | k ∈ kernel} := by
  constructor
  · intro h
    induction h with
    | kernel hi => exact .base _ hi
    | alternative _ hnext hid ih =>
      obtain ⟨rule, hrule, rfl⟩ := Grammar.mem_alternatives_iff.mp hid
      exact εNFA.εClosure.step _ _ (mem_step_none.mpr ⟨rfl, rule, hrule, hnext⟩) ih
  · intro h
    induction h with
    | base i hi => exact .kernel hi
    | step i j hj _ ih =>
      obtain ⟨hdot, rule, hrule, hnext⟩ := mem_step_none.mp hj
      obtain ⟨id, dot⟩ := j
      obtain rfl : dot = 0 := hdot
      exact .alternative ih hnext (Grammar.mem_alternatives_iff.mpr ⟨rule, hrule, rfl⟩)

/-- What holds of the accepting item and is kept by moves over symbols and to alternatives holds of
all items that words reach. -/
theorem eval_induction {motive : List Symbol → Item → Prop} (start : motive [] ⟨0, 0⟩)
    (advance : ∀ word i symbol, motive word i → g.next? i = some symbol →
      motive (word ++ [symbol]) i.advance)
    (alternative : ∀ word i id rule, motive word i → g.next? i = some (.nonterminal rule.name) →
      g.grammar.rule? id = some rule → motive word ⟨id, 0⟩)
    (h : i ∈ g.itemAutomaton.eval word) : motive word i := by
  have hclosure : ∀ {S : Set Item} {word : List Symbol}, (∀ i ∈ S, motive word i) →
      ∀ {i : Item}, i ∈ g.itemAutomaton.εClosure S → motive word i := by
    intro S word hS i hi
    induction hi with
    | base i hi => exact hS i hi
    | step i j hj _ ih =>
      obtain ⟨hdot, rule, hrule, hnext⟩ := mem_step_none.mp hj
      obtain ⟨id, dot⟩ := j
      obtain rfl : dot = 0 := hdot
      exact alternative word i id rule ih hnext hrule
  -- words are read from the left, so the last symbol is taken off first
  induction word using List.reverseRecOn generalizing i with
  | nil =>
    refine hclosure (fun i hi => ?_) h
    obtain rfl : i = ⟨0, 0⟩ := hi
    exact start
  | append_singleton word symbol ih =>
    rw [εNFA.eval_append_singleton, εNFA.mem_stepSet_iff] at h
    obtain ⟨j, hj, hi⟩ := h
    refine hclosure (fun k hk => ?_) hi
    obtain ⟨hnext, rfl⟩ := mem_step_some.mp hk
    exact advance word j symbol (ih hj) hnext

end Augmented

theorem AutomatonState.target?_eq (s : AutomatonState) (symbol : Symbol) :
    s.target? symbol = Association.get? symbol s.transitions := by
  cases symbol with
  | terminal pattern => exact s.get?_shifts pattern
  | nonterminal name => exact s.get?_gotos name

theorem Automaton.follow?_append_singleton (a : Automaton) (q : StateId) (word : List Symbol)
    (symbol : Symbol) :
    a.follow? q (word ++ [symbol]) = (a.follow? q word).bind (a.next? · symbol) := by
  have hnext : ∀ p, (a.states[p]?).bind (·.target? symbol) = a.next? p symbol := by
    intro p
    simp only [AutomatonState.target?_eq, next?]
  rw [follow?, List.foldlM_append]
  simp only [List.foldlM_cons, List.foldlM_nil, bind_pure, hnext]
  rfl

namespace Augmented

variable {g : Augmented} {i j : Item} {word : List Symbol} {symbol : Symbol} {p q : StateId}

/-- The items after a transition are those that its symbol reaches from the items before it. -/
theorem holds_next_iff (h : g.automaton.next? p symbol = some q) :
    g.Holds q i ↔ ∃ j, g.Holds p j ∧ i ∈ g.itemAutomaton.εClosure
      (g.itemAutomaton.step j (some symbol)) := by
  obtain ⟨s, t, hs, ht, hkernel⟩ := kernel_eq_of_next? h
  rw [holds_iff ht, inClosure_iff, εNFA.mem_εClosure_iff_exists]
  constructor
  · rintro ⟨k, hk, hi⟩
    obtain ⟨j, hj, hnext, rfl⟩ := (hkernel k).mp hk
    refine ⟨j, ⟨s, hs, hj⟩, ?_⟩
    rw [εNFA.mem_εClosure_iff_exists]
    exact ⟨j.advance, mem_step_some.mpr ⟨hnext, rfl⟩, hi⟩
  · intro ⟨j, hholds, hi⟩
    have hj := (holds_iff hs).mp hholds
    rw [εNFA.mem_εClosure_iff_exists] at hi
    obtain ⟨k, hk, hi⟩ := hi
    obtain ⟨hnext, rfl⟩ := mem_step_some.mp hk
    exact ⟨j.advance, (hkernel _).mpr ⟨j, hj, hnext, rfl⟩, hi⟩

/-- A state holds the items that are reached by the words that lead to it. -/
theorem holds_iff_mem_eval (h : g.automaton.follow? 0 word = some q) :
    g.Holds q i ↔ i ∈ g.itemAutomaton.eval word := by
  induction word using List.reverseRecOn generalizing q i with
  | nil =>
    obtain rfl : 0 = q := Option.some.inj h
    obtain ⟨s, hs, hkernel⟩ := g.state_zero
    have hstart : {k | k ∈ initialKernel} = g.itemAutomaton.start := by
      ext k
      exact List.mem_singleton
    rw [εNFA.eval_nil, ← hstart, ← inClosure_iff, ← hkernel]
    exact holds_iff hs
  | append_singleton word symbol ih =>
    rw [Automaton.follow?_append_singleton, Option.bind_eq_some_iff] at h
    obtain ⟨p, hp, hq⟩ := h
    rw [holds_next_iff hq, εNFA.eval_append_singleton, εNFA.mem_stepSet_iff]
    exact exists_congr fun j => and_congr_left' (ih hp)

/-- A word leads to a state if and only if it reaches an item. -/
theorem follow?_isSome_iff :
    (∃ q, g.automaton.follow? 0 word = some q) ↔ (g.itemAutomaton.eval word).Nonempty := by
  induction word using List.reverseRecOn with
  | nil => exact iff_of_true ⟨0, rfl⟩ ⟨⟨0, 0⟩, .base _ rfl⟩
  | append_singleton word symbol ih =>
    rw [Automaton.follow?_append_singleton]
    constructor
    · rintro ⟨q, hq⟩
      obtain ⟨p, hp, hnext⟩ := Option.bind_eq_some_iff.mp hq
      obtain ⟨i, hi, hsymbol⟩ := exists_holds_of_next? hnext
      refine ⟨i.advance, ?_⟩
      rw [εNFA.eval_append_singleton, εNFA.mem_stepSet_iff]
      exact ⟨i, (holds_iff_mem_eval hp).mp hi, .base _ (mem_step_some.mpr ⟨hsymbol, rfl⟩)⟩
    · rintro ⟨i, hi⟩
      rw [εNFA.eval_append_singleton, εNFA.mem_stepSet_iff] at hi
      obtain ⟨j, hj, hi⟩ := hi
      rw [εNFA.mem_εClosure_iff_exists] at hi
      obtain ⟨k, hk, -⟩ := hi
      -- the item before the symbol is held by the state that the word leads to
      obtain ⟨p, hp⟩ := ih.mpr ⟨j, hj⟩
      obtain ⟨q, hq⟩ := ((holds_iff_mem_eval hp).mpr hj).exists_next? (mem_step_some.mp hk).1
      exact ⟨q, by rw [hp, Option.bind_some, hq]⟩

/-- The automaton is the subset construction of the automaton of items: a word leads to a state if
and only if it reaches an item, the closure of the state holds exactly the items that the word
reaches, and the rules to reduce are those of the complete items among them, in ascending order. -/
theorem subset_construction (g : Augmented) (word : List Symbol) :
    ((∃ q, g.automaton.follow? 0 word = some q) ↔ (g.itemAutomaton.eval word).Nonempty) ∧
    ∀ q, g.automaton.follow? 0 word = some q → ∃ s, g.automaton.states[q]? = some s ∧
      (∀ i, (∃ t ∈ g.closure s.kernel, t.item = i) ↔ i ∈ g.itemAutomaton.eval word) ∧
      (∀ id, id ∈ s.reduces ↔
        ∃ i ∈ g.itemAutomaton.eval word, g.IsComplete i ∧ i.rule = id) ∧
      s.reduces.Pairwise (· < ·) := by
  refine ⟨follow?_isSome_iff, fun q hq => ?_⟩
  -- a word that can be followed has items, and those are in the state that it leads to
  obtain ⟨i, hi⟩ := follow?_isSome_iff.mp ⟨q, hq⟩
  obtain ⟨s, hs, -⟩ := (holds_iff_mem_eval hq).mpr hi
  refine ⟨s, hs, fun i => ?_, fun id => ?_, reduces_sorted hs⟩
  · rw [← holds_iff_mem_eval hq, holds_iff hs]
    constructor
    · rintro ⟨t, ht, rfl⟩
      exact (mem_closure_iff.mp ht).1
    · exact fun hi => ⟨g.titled i, mem_closure_iff.mpr ⟨hi, rfl⟩, rfl⟩
  · rw [mem_reduces_iff hs]
    constructor
    · rintro ⟨rule, hrule, hholds⟩
      exact ⟨_, (holds_iff_mem_eval hq).mp hholds, ⟨rule, hrule, rfl⟩, rfl⟩
    · rintro ⟨i, hi, ⟨rule, hrule, hdot⟩, rfl⟩
      refine ⟨rule, hrule, ?_⟩
      rw [← hdot]
      exact (holds_iff_mem_eval hq).mpr hi

end Augmented

/-- A nonterminal and a pattern with the same text. -/
def Grammar.namesakes : Grammar where
  rules := #[
    ⟨"S", #[⟨.terminal "S", {}⟩, ⟨.nonterminal "S", {}⟩], [], {}⟩,
    ⟨"S", #[⟨.terminal "x", {}⟩], [], {}⟩]

theorem namesakes_subset_construction : ∃ s,
    (Augmented.automaton ⟨.namesakes, "S"⟩).follow? 0
      [.terminal "S", .terminal "S", .nonterminal "S"] = some 4 ∧
    (Augmented.automaton ⟨.namesakes, "S"⟩).states[4]? = some s ∧
    (∀ i, (∃ t ∈ Augmented.closure ⟨.namesakes, "S"⟩ s.kernel, t.item = i) ↔
      i ∈ (Augmented.itemAutomaton ⟨.namesakes, "S"⟩).eval
        [.terminal "S", .terminal "S", .nonterminal "S"]) ∧
    (∀ id, id ∈ s.reduces ↔ ∃ i ∈ (Augmented.itemAutomaton ⟨.namesakes, "S"⟩).eval
        [.terminal "S", .terminal "S", .nonterminal "S"],
      Augmented.IsComplete ⟨.namesakes, "S"⟩ i ∧ i.rule = id) ∧
    s.reduces.Pairwise (· < ·) := by
  have hfollow : (Augmented.automaton ⟨.namesakes, "S"⟩).follow? 0
      [.terminal "S", .terminal "S", .nonterminal "S"] = some 4 := by decide +kernel
  obtain ⟨s, hs⟩ := (Augmented.subset_construction ⟨.namesakes, "S"⟩ _).2 4 hfollow
  exact ⟨s, hfollow, hs⟩

end Reformat
