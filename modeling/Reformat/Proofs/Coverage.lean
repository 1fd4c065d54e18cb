import Reformat.Pattern.Engine
import Reformat.Proofs.BreadthFirst
import Reformat.Proofs.Compilation
import Reformat.Proofs.Rearrangement

/-! What the automaton and the table of a start symbol cover. Whatever references lead to is there:
its patterns are terminals of the table, and each of its rules is complete in some state. Nothing
else is there. -/

namespace Reformat

namespace Augmented

variable {g : Augmented} {q : StateId} {i : Item} {id : RuleId} {rule : Rule} {name : String}
  {symbol : Symbol}

/-- Once the dot of a rule is at the beginning in some state, it comes to all other places. -/
theorem Holds.exists_dot (h : g.Holds q ⟨id, 0⟩) (hrule : g.rule? id = some rule) {dot : Nat}
    (hdot : dot ≤ rule.arity) : ∃ p, g.Holds p ⟨id, dot⟩ := by
  induction dot with
  | zero => exact ⟨q, h⟩
  | succ dot ih =>
    obtain ⟨p, hp⟩ := ih (Nat.le_of_succ_le hdot)
    have hlt : dot < rule.symbols.length := by
      rw [Rule.symbols, List.length_map, Array.length_toList]
      exact hdot
    have hnext : g.next? ⟨id, dot⟩ = some rule.symbols[dot] := by
      rw [next?_eq hrule, List.getElem?_eq_getElem hlt]
    obtain ⟨r, hr⟩ := hp.exists_next? hnext
    exact ⟨r, hp.advance hnext hr⟩

/-- Every symbol of such a rule stands after the dot in some state. -/
theorem Holds.exists_before (h : g.Holds q ⟨id, 0⟩) (hrule : g.rule? id = some rule)
    (hsymbol : symbol ∈ rule.symbols) : ∃ p i, g.Holds p i ∧ g.next? i = some symbol := by
  obtain ⟨dot, hdot, rfl⟩ := List.mem_iff_getElem.mp hsymbol
  have hle : dot ≤ rule.arity := by
    rw [Rule.symbols, List.length_map, Array.length_toList] at hdot
    exact Nat.le_of_lt hdot
  obtain ⟨p, hp⟩ := h.exists_dot hrule hle
  refine ⟨p, ⟨id, dot⟩, hp, ?_⟩
  rw [next?_eq hrule, List.getElem?_eq_getElem hdot]

theorem rule?_of_grammar (hrule : g.grammar.rule? id = some rule) : g.rule? id = some rule := by
  have hid : id ≠ 0 := by
    rintro rfl
    simp [Grammar.rule?] at hrule
  rw [rule?, if_neg hid, hrule]

/-- Nonterminals that can be reached stand after the dot in some state. -/
theorem exists_holds_of_isReachable (h : g.grammar.IsReachable g.start name) :
    ∃ p i, g.Holds p i ∧ g.next? i = some (.nonterminal name) := by
  -- induction on the references that lead to the nonterminal
  induction h with
  | start => exact ⟨0, ⟨0, 0⟩, g.holds_initial, rfl⟩
  | @reference rule name hrule _ hrefers ih =>
    obtain ⟨p, i, hi, hnext⟩ := ih
    obtain ⟨id, hid⟩ := Grammar.exists_rule?_of_mem hrule
    have hbegin := hi.alternative hnext (Grammar.mem_alternatives_iff.mpr ⟨rule, hid, rfl⟩)
    exact hbegin.exists_before (rule?_of_grammar hid) (Rule.refersTo_iff.mp hrefers)

theorem exists_holds_zero (hrule : g.grammar.rule? id = some rule)
    (h : g.grammar.IsReachable g.start rule.name) : ∃ p, g.Holds p ⟨id, 0⟩ := by
  obtain ⟨p, i, hi, hnext⟩ := exists_holds_of_isReachable h
  exact ⟨p, hi.alternative hnext (Grammar.mem_alternatives_iff.mpr ⟨rule, hrule, rfl⟩)⟩

/-- States hold only items of rules that can be reached. -/
theorem Holds.mem_itemsFrom (h : g.Holds q i) : i ∈ g.itemsFrom := by
  have hclosed : i ∈ g.close (g.kernelSet q) := mem_close_kernelSet.mpr h
  obtain ⟨s, hs, -⟩ := h
  have hreached : g.IsReached (g.kernelSet q) := isReached_iff.mpr ⟨q, s, hs, rfl⟩
  exact close_subset_itemsFrom hreached.subset hclosed

/-- Of the rules of the grammar, those of the items in a state can be reached. -/
theorem Holds.isReachable (h : g.Holds q i) (hrule : g.grammar.rule? i.rule = some rule) :
    g.grammar.IsReachable g.start rule.name := by
  rcases h.mem_itemsFrom with hzero | ⟨other, hother, hreachable⟩
  · rw [hzero] at hrule
    simp [Grammar.rule?] at hrule
  · obtain rfl := Option.some.inj (hrule.symm.trans hother)
    exact hreachable

/-- A pattern is shifted somewhere if and only if it stands in a rule that can be reached. -/
theorem shifts_iff {pattern : String} : g.automaton.shifts pattern = true ↔
    ∃ rule ∈ g.grammar.rules, g.grammar.IsReachable g.start rule.name ∧
      .terminal pattern ∈ rule.symbols := by
  constructor
  · intro hshifts
    rw [Automaton.shifts, Array.any_eq_true'] at hshifts
    obtain ⟨s, hs, hany⟩ := hshifts
    obtain ⟨⟨other, next⟩, hmem, heq⟩ := List.any_eq_true.mp hany
    obtain rfl : other = pattern := of_decide_eq_true heq
    obtain ⟨⟨symbol, target⟩, htransition, hterminal⟩ := List.mem_filterMap.mp hmem
    cases symbol with
    | nonterminal name => simp at hterminal
    | terminal pattern =>
      obtain ⟨rfl, rfl⟩ := Prod.mk.inj (Option.some.inj hterminal)
      obtain ⟨p, hp⟩ := Array.mem_iff_getElem?.mp hs
      obtain ⟨i, hi, hnext⟩ := exists_holds_of_next? (leads_iff.mp ⟨s, hp, htransition⟩)
      rcases next?_cases hi.mem_itemsFrom hnext with hstart | ⟨id, hid, rule, hrule, hsymbol⟩
      · simp at hstart
      · obtain ⟨other, hother, hreachable⟩ := hid
        obtain rfl := Option.some.inj (hrule.symm.trans hother)
        exact ⟨rule, Grammar.mem_rules_of_rule? hrule, hreachable, hsymbol⟩
  · rintro ⟨rule, hmem, hreachable, hsymbol⟩
    obtain ⟨id, hid⟩ := Grammar.exists_rule?_of_mem hmem
    obtain ⟨p, hp⟩ := exists_holds_zero hid hreachable
    obtain ⟨r, i, hi, hnext⟩ := hp.exists_before (rule?_of_grammar hid) hsymbol
    obtain ⟨next, hnext⟩ := hi.exists_next? hnext
    exact Automaton.shifts_of_next? hnext

/-- Rules that can be reached are complete in some state. -/
theorem exists_reduces (hrule : g.grammar.rule? id = some rule)
    (h : g.grammar.IsReachable g.start rule.name) : ∃ s ∈ g.automaton.states,
      (∃ t ∈ g.closure s.kernel, t.item = ⟨id, rule.arity⟩ ∧ t.isReduceReady = true) ∧
      id ∈ s.reduces := by
  have hrule' := rule?_of_grammar hrule
  obtain ⟨p, hp⟩ := exists_holds_zero hrule h
  obtain ⟨r, hr⟩ := hp.exists_dot hrule' (Nat.le_refl rule.arity)
  obtain ⟨s, hs, hin⟩ := hr
  refine ⟨s, Array.mem_of_getElem? hs, ⟨g.titled ⟨id, rule.arity⟩, ?_, rfl, ?_⟩, ?_⟩
  · exact mem_closure_iff.mpr ⟨hin, rfl⟩
  · rw [TitledItem.isReduceReady, titled, next?_eq hrule']
    simp [Rule.symbols, Rule.arity]
  · exact (mem_reduces_iff hs).mpr ⟨rule, hrule', s, hs, hin⟩

/-- No item of a state belongs to a rule that cannot be reached. -/
theorem ne_of_not_isReachable {s : AutomatonState} (hs : s ∈ g.automaton.states)
    (hrule : g.grammar.rule? id = some rule) (h : ¬ g.grammar.IsReachable g.start rule.name) :
    (∀ i ∈ s.kernel, i.rule ≠ id) ∧ (∀ t ∈ g.closure s.kernel, t.item.rule ≠ id) ∧
      id ∉ s.reduces := by
  obtain ⟨p, hp⟩ := Array.mem_iff_getElem?.mp hs
  have hitem : ∀ i, g.Holds p i → i.rule ≠ id := by
    rintro i hi rfl
    exact h (hi.isReachable hrule)
  refine ⟨fun i hi => hitem i ⟨s, hp, .kernel hi⟩, fun t ht => ?_, fun hid => ?_⟩
  · exact hitem t.item ⟨s, hp, (mem_closure_iff.mp ht).1⟩
  · obtain ⟨rule', -, hholds⟩ := (mem_reduces_iff hp).mp hid
    exact hitem _ hholds rfl

end Augmented

namespace Grammar

variable {engine : Engine} {g : Grammar} {start : String}

/-- Where all patterns are valid, there is a terminal for each of them. -/
theorem terminals_map_pattern (h : g.invalidPatterns engine = []) :
    (g.terminals engine).map (·.pattern) = g.patterns.map (·.1) := by
  rw [terminals, List.map_filterMap, ← List.filterMap_eq_map]
  apply List.filterMap_congr
  rintro ⟨pattern, position⟩ hmem
  have hvalid := List.filterMap_eq_nil_iff.mp h _ hmem
  cases hcompile : Terminal.compile engine pattern with
  | error message => simp [hcompile] at hvalid
  | ok t =>
    have ht := Terminal.ofPattern?_eq_some.mpr hcompile
    rw [ht, Option.map_some, Terminal.pattern_of_ofPattern? ht]
    rfl

/-- There is a table unless it would have too many terminals. Its terminals are the patterns of the
grammar that are shifted. -/
theorem generate_cases (herrors : (g.analyze engine).errors = [])
    (hdefined : g.isDefined start = true) {patterns : List String}
    (hpatterns : patterns =
      (g.patterns.map (·.1)).filter (Augmented.automaton ⟨g, start⟩).shifts) :
    (patterns.length ≤ maxTerminals ∧ ∃ t, g.generate (g.analyze engine) start = .ok t ∧
      t.terminals.toList.map (·.pattern) = patterns) ∨
    (maxTerminals < patterns.length ∧
      g.generate (g.analyze engine) start = .error .tooManyTerminals) := by
  have hinvalid : g.invalidPatterns engine = [] := by
    simp only [analyze, List.append_eq_nil_iff] at herrors
    exact herrors.1.2
  have hshifted : ((g.terminals engine).filter
      ((Augmented.automaton ⟨g, start⟩).shifts ·.pattern)).map (·.pattern) = patterns := by
    rw [hpatterns, ← terminals_map_pattern hinvalid, List.filter_map]
    rfl
  have hlength := congrArg List.length hshifted
  rw [List.length_map] at hlength
  have hgenerate := generate_eq herrors start
  rw [if_pos hdefined] at hgenerate
  rcases g.tableOf_cases (g.terminals engine) start with ⟨hmany, herror⟩ | ⟨t, ht⟩
  · exact Or.inr ⟨hlength ▸ hmany, hgenerate.trans herror⟩
  · refine Or.inl ⟨?_, t, hgenerate.trans ht, ?_⟩
    · -- too many terminals would have been refused
      by_contra hmany
      rw [tableOf, if_pos (by omega)] at ht
      simp at ht
    · rw [(tableOf_of_generate (hgenerate.trans ht)).terminals]
      exact hshifted

/-- The automaton of a start symbol covers what can be reached from it, and so does the table. -/
structure Covers (engine : Engine) (g : Grammar) (start : String) : Prop where
  /-- Alternatives of nonterminals that can be reached may be reduced in some state. -/
  complete : ∀ id rule, g.rule? id = some rule → g.IsReachable start rule.name →
    ∃ s ∈ (Augmented.automaton ⟨g, start⟩).states,
      (∃ t ∈ Augmented.closure ⟨g, start⟩ s.kernel,
        t.item = ⟨id, rule.arity⟩ ∧ t.isReduceReady = true) ∧ id ∈ s.reduces
  /-- Other alternatives are in no state. -/
  absent : ∀ id rule, g.rule? id = some rule → ¬ g.IsReachable start rule.name →
    ∀ s ∈ (Augmented.automaton ⟨g, start⟩).states, (∀ i ∈ s.kernel, i.rule ≠ id) ∧
      (∀ t ∈ Augmented.closure ⟨g, start⟩ s.kernel, t.item.rule ≠ id) ∧ id ∉ s.reduces
  /-- The terminals are the patterns of these nonterminals, each once, in the order in which they
  first appear in the grammar. Only if there are too many of them is there no table. -/
  terminals : ∃ patterns : List String,
    patterns.Sublist ((g.elements.map (·.symbol)).filterMap Symbol.pattern?).eraseDups ∧
    patterns.Nodup ∧
    (∀ pattern, pattern ∈ patterns ↔ ∃ rule ∈ g.rules, g.IsReachable start rule.name ∧
      .terminal pattern ∈ rule.symbols) ∧
    ((patterns.length ≤ maxTerminals ∧ ∃ t, g.generate (g.analyze engine) start = .ok t ∧
        t.terminals.toList.map (·.pattern) = patterns) ∨
      (maxTerminals < patterns.length ∧
        g.generate (g.analyze engine) start = .error .tooManyTerminals))

end Grammar

/-- For a grammar without errors and a start symbol that is defined in it, the automaton and the
table have what can be reached from the start symbol through references, and nothing else. -/
theorem covers_reachable {engine : Engine} {g : Grammar} {start : String}
    (herrors : (g.analyze engine).errors = []) (hdefined : g.isDefined start = true) :
    g.Covers engine start := by
  constructor
  case complete =>
    intro id rule hrule hreachable
    exact Augmented.exists_reduces (g := ⟨g, start⟩) hrule hreachable
  case absent =>
    intro id rule hrule hreachable s hs
    exact Augmented.ne_of_not_isReachable hs hrule hreachable
  case terminals =>
    refine ⟨(g.patterns.map (·.1)).filter (Augmented.automaton ⟨g, start⟩).shifts, ?_, ?_, ?_,
      Grammar.generate_cases herrors hdefined rfl⟩
    · rw [Grammar.patterns_map_fst]
      exact List.filter_sublist
    · rw [Grammar.patterns_map_fst]
      exact (nodup_eraseDups _).filter _
    · intro pattern
      rw [List.mem_filter, Augmented.shifts_iff, and_iff_right_iff_imp]
      rintro ⟨rule, hrule, -, hsymbol⟩
      exact Grammar.mem_patterns_map_fst.mpr ⟨rule, hrule, hsymbol⟩

/-- Letters that are read from the left, with a nonterminal that derives nothing and one that
nothing refers to. -/
def Grammar.aside : Grammar where
  rules := #[
    ⟨"T", #[⟨.terminal "y", {}⟩, ⟨.terminal "x", {}⟩], [], {}⟩,
    ⟨"S", #[⟨.nonterminal "S", {}⟩, ⟨.terminal "x", {}⟩], [], {}⟩,
    ⟨"S", #[⟨.nonterminal "U", {}⟩], [], {}⟩,
    ⟨"U", #[⟨.terminal "z", {}⟩, ⟨.nonterminal "U", {}⟩], [], {}⟩]

theorem aside_covers_reachable : (Grammar.aside.analyze Pattern.engine).errors = [] ∧
    Grammar.aside.isDefined "S" = true ∧ Grammar.aside.Covers Pattern.engine "S" := by
  have herrors : (Grammar.aside.analyze Pattern.engine).errors = [] := by decide +kernel
  have hdefined : Grammar.aside.isDefined "S" = true := by decide +kernel
  exact ⟨herrors, hdefined, covers_reachable herrors hdefined⟩

end Reformat
