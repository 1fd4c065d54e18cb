import Reformat.Pattern.Engine
import Reformat.Proofs.Consistency
import Reformat.Proofs.References
import Reformat.Proofs.Shapes
import Reformat.Proofs.Transitions

/-! What becomes of a grammar. The references of generated rows are always valid, so that a grammar
without errors has a table for each of its nonterminals, and there are only two reasons why it may
have no formatter. -/

namespace Reformat

namespace AutomatonState

variable {s : AutomatonState} {next : StateId}

theorem mem_gotos {name : String} :
    (name, next) ∈ s.gotos ↔ (.nonterminal name, next) ∈ s.transitions := by
  rw [gotos, List.mem_filterMap]
  constructor
  · rintro ⟨⟨symbol, target⟩, hmem, h⟩
    cases symbol with
    | terminal pattern => simp at h
    | nonterminal other =>
      obtain ⟨rfl, rfl⟩ := Prod.mk.inj (Option.some.inj h)
      exact hmem
  · intro hmem
    exact ⟨_, hmem, rfl⟩

theorem mem_actions {terminals : List Terminal} {id : TerminalId} {action : Action}
    (h : (id, action) ∈ (s.row terminals).actions) :
    id < terminals.length ∧ ∃ pattern, s.action? pattern = some action := by
  obtain ⟨⟨terminal, number⟩, hmem, hmap⟩ := List.mem_filterMap.mp h
  obtain ⟨action', haction, heq⟩ := Option.map_eq_some_iff.mp hmap
  obtain ⟨rfl, rfl⟩ := Prod.mk.inj heq
  rw [List.mk_mem_zipIdx_iff_getElem?] at hmem
  exact ⟨(List.getElem?_eq_some_iff.mp hmem).1, terminal.pattern, haction⟩

end AutomatonState

namespace Augmented

variable {g : Augmented} {s : AutomatonState}

theorem lt_of_mem_transitions (hs : s ∈ g.automaton.states) {symbol : Symbol} {next : StateId}
    (h : (symbol, next) ∈ s.transitions) : next < g.automaton.states.size := by
  obtain ⟨q, hq⟩ := Array.mem_iff_getElem?.mp hs
  exact lt_size_of_leads ⟨s, hq, h⟩

theorem lt_of_winner? (hs : s ∈ g.automaton.states) {id : RuleId} (h : s.winner? = some id) :
    id < g.grammar.reductions.size := by
  obtain ⟨q, hq⟩ := Array.mem_iff_getElem?.mp hs
  obtain ⟨rule, hrule, -⟩ := (mem_reduces_iff hq).mp (List.mem_of_head? h)
  rw [Grammar.reductions, Array.size_append, Array.size_map]
  cases id with
  | zero => exact Nat.lt_add_right _ Nat.one_pos
  | succ n =>
    have hget : g.grammar.rules[n]? = some rule := by
      simpa [rule?, Grammar.rule?] using hrule
    have hlt := (Array.getElem?_eq_some_iff.mp hget).1
    change n + 1 < 1 + g.grammar.rules.size
    omega

/-- Whatever the terminals are, the references of a row lie within the table. -/
theorem within_row (hs : s ∈ g.automaton.states) (terminals : List Terminal) :
    (s.row terminals).Within
      ⟨terminals.length, g.grammar.reductions.size, g.automaton.states.size⟩ where
  terminal id action h := (AutomatonState.mem_actions h).1
  shift id next h := by
    obtain ⟨-, pattern, haction⟩ := AutomatonState.mem_actions h
    rw [AutomatonState.action?_eq_shift] at haction
    exact lt_of_mem_transitions hs (Association.mem_of_get? haction)
  reduce id reduction h := by
    obtain ⟨-, pattern, haction⟩ := AutomatonState.mem_actions h
    exact lt_of_winner? hs (AutomatonState.action?_eq_reduce haction)
  goto name next h := lt_of_mem_transitions hs (AutomatonState.mem_gotos.mp h)
  otherwise reduction h := lt_of_winner? hs h

end Augmented

namespace Grammar

variable {engine : Engine} {g : Grammar} {start : String}

/-- The check of a generated table finds nothing. -/
theorem definitionErrors_eq_nil (g : Grammar) (start : String) (terminals : List Terminal) :
    definitionErrors terminals.toArray g.reductions
      ((Augmented.automaton ⟨g, start⟩).states.map (·.row terminals)) = [] := by
  have hstates : ¬ ((Augmented.automaton ⟨g, start⟩).states.map (·.row terminals)).isEmpty := by
    obtain ⟨s, hs, -⟩ := Augmented.state_zero ⟨g, start⟩
    have hlt := (Array.getElem?_eq_some_iff.mp hs).1
    rw [Array.isEmpty_iff_size_eq_zero, Array.size_map]
    exact Nat.ne_of_gt hlt
  rw [definitionErrors, if_neg hstates, reductions_zero]
  rw [List.append_eq_nil_iff, List.flatMap_eq_nil_iff]
  refine ⟨rfl, ?_⟩
  rintro ⟨row, source⟩ hrow
  rw [Extent.rowErrors_eq_nil]
  have hmem := Array.mem_toList_iff.mp (List.fst_mem_of_mem_zipIdx hrow)
  obtain ⟨s, hs, rfl⟩ := Array.mem_map.mp hmem
  rw [List.size_toArray, Array.size_map]
  exact Augmented.within_row hs terminals

theorem nonterminals_eq (g : Grammar) :
    g.nonterminals = (g.rules.toList.map (·.name)).eraseDups := by
  rw [nonterminals, g.table_eq, ← NameTable.names_ofRules, Array.toArray_toList]

/-- Names that are listed have alternatives. -/
theorem isDefined_of_mem_nonterminals {name : String} (h : name ∈ g.nonterminals) :
    g.isDefined name = true := by
  rw [nonterminals_eq, List.mem_eraseDups, List.mem_map] at h
  obtain ⟨rule, hrule, rfl⟩ := h
  obtain ⟨id, hid⟩ := exists_rule?_of_mem (Array.mem_toList_iff.mp hrule)
  have hmem : id ∈ g.alternatives rule.name := mem_alternatives_iff.mpr ⟨rule, hid, rfl⟩
  rw [isDefined, Bool.not_eq_true', List.isEmpty_eq_false_iff]
  exact List.ne_nil_of_mem hmem

theorem isDefined_of_mem_startSymbols (h : start ∈ g.startSymbols) : g.isDefined start = true :=
  isDefined_of_mem_nonterminals (List.mem_of_mem_filter h)

/-- Only too many terminals prevent a table. -/
theorem tableOf_cases (g : Grammar) (terminals : List Terminal) (start : String) :
    (maxTerminals <
        (terminals.filter ((Augmented.automaton ⟨g, start⟩).shifts ·.pattern)).length ∧
      g.tableOf terminals start (Augmented.automaton ⟨g, start⟩) = .error .tooManyTerminals) ∨
    ∃ t, g.tableOf terminals start (Augmented.automaton ⟨g, start⟩) = .ok t := by
  have hnil := definitionErrors_eq_nil g start
    (terminals.filter ((Augmented.automaton ⟨g, start⟩).shifts ·.pattern))
  simp only [tableOf]
  split
  · next hmany => exact Or.inl ⟨hmany, rfl⟩
  · rcases ParseTable.assemble_cases start _ _ _ with ⟨t, -, ht⟩ | ⟨error, errors, hcons, -⟩
    · rw [ht]
      exact Or.inr ⟨t, rfl⟩
    · -- the check would have found an error
      rw [hnil] at hcons
      simp at hcons

/-- The terminals of a table are patterns of the grammar. -/
theorem length_shifted_le (engine : Engine) (g : Grammar) (automaton : Automaton) :
    ((g.terminals engine).filter (automaton.shifts ·.pattern)).length ≤ g.patterns.length := by
  apply Nat.le_trans (List.length_filter_le _ _)
  exact List.length_filterMap_le _ _

/-- A grammar without errors has a table for each name that is defined. -/
theorem exists_generate (herrors : (g.analyze engine).errors = [])
    (hpatterns : g.patterns.length ≤ maxTerminals) (hdefined : g.isDefined start = true) :
    ∃ t, g.generate (g.analyze engine) start = .ok t := by
  rw [generate_eq herrors, if_pos hdefined]
  rcases g.tableOf_cases (g.terminals engine) start with ⟨hmany, -⟩ | htable
  · have hfew := g.length_shifted_le engine (Augmented.automaton ⟨g, start⟩)
    omega
  · exact htable

/-- Whatever the analysis said, the check of a generated table finds nothing. -/
theorem generate_ne_definition (analysis : Analysis) (error : DefinitionError) :
    g.generate analysis start ≠ .error (.definition error) := by
  intro hgenerate
  rw [generate, Except.bind_eq_error] at hgenerate
  simp only [Except.throw_bind] at hgenerate
  rcases hgenerate with hcheck | ⟨-, -, htable⟩
  · simp [Except.mapError_eq_error] at hcheck
  · split at htable
    · simp at htable
    · rcases g.tableOf_cases analysis.terminals start with ⟨-, hmany⟩ | ⟨t, ht⟩
      · simp [hmany] at htable
      · simp [ht] at htable

theorem startSymbols_sublist (g : Grammar) :
    g.startSymbols.Sublist (g.rules.toList.map (·.name)).eraseDups := by
  rw [← nonterminals_eq]
  exact List.filter_sublist

/-- A grammar has errors, or nothing to start with, or a formatter with a table for each start
symbol. -/
theorem formatter_cases (engine : Engine) (hpatterns : g.patterns.length ≤ maxTerminals) :
    ((g.analyze engine).errors ≠ [] ∧
      g.formatter engine = .error (.analysis (g.analyze engine).errors)) ∨
    ((g.analyze engine).errors = [] ∧ g.startSymbols = [] ∧
      g.formatter engine = .error .noStartSymbol) ∨
    ((g.analyze engine).errors = [] ∧ g.startSymbols ≠ [] ∧ ∃ f, g.formatter engine = .ok f ∧
      List.Forall₂ (fun start t => g.generate (g.analyze engine) start = .ok t) g.startSymbols
        f.tables) := by
  by_cases herrors : (g.analyze engine).errors = []
  · have hformatter : g.formatter engine = g.formatterFor engine g.startSymbols := rfl
    rw [hformatter, formatterFor_eq herrors]
    by_cases hstarts : g.startSymbols = []
    · refine Or.inr (Or.inl ⟨herrors, hstarts, ?_⟩)
      rw [hstarts]
      rfl
    · -- start symbols are defined, so that each of them has a table
      obtain ⟨tables, htables⟩ := exists_mapM_eq_ok fun start hstart =>
        exists_generate herrors hpatterns (isDefined_of_mem_startSymbols hstart)
      refine Or.inr (Or.inr ⟨herrors, hstarts,
        { tables, config := { searchMode := g.searchMode } }, ?_, mapM_eq_ok_iff.mp htables⟩)
      rw [← List.isEmpty_iff] at hstarts
      rw [if_neg hstarts, htables]
      rfl
  · -- errors are reported before start symbols are looked for
    refine Or.inl ⟨herrors, ?_⟩
    have hcheck : (g.analyze engine).check = .error (g.analyze engine).errors := by
      rw [← List.isEmpty_iff] at herrors
      rw [Analysis.check, if_neg herrors]
    rw [formatter, formatterWith, hcheck]
    rfl

section

variable (hpatterns : g.patterns.length ≤ maxTerminals)

include hpatterns

theorem formatter_eq_analysis_iff {errors : List AnalysisError} :
    g.formatter engine = .error (.analysis errors) ↔
      (g.analyze engine).errors = errors ∧ errors ≠ [] := by
  rcases g.formatter_cases engine hpatterns with ⟨herrors, hformatter⟩ | ⟨herrors, -, hformatter⟩ |
    ⟨herrors, -, f, hformatter, -⟩
  · rw [hformatter, Except.error.injEq, CompileError.analysis.injEq]
    exact ⟨fun heq => ⟨heq, heq ▸ herrors⟩, And.left⟩
  · simp [hformatter, herrors, eq_comm]
  · simp [hformatter, herrors, eq_comm]

theorem formatter_eq_noStartSymbol_iff :
    g.formatter engine = .error .noStartSymbol ↔
      (g.analyze engine).errors = [] ∧ g.startSymbols = [] := by
  rcases g.formatter_cases engine hpatterns with ⟨herrors, hformatter⟩ |
    ⟨herrors, hstarts, hformatter⟩ | ⟨herrors, hstarts, f, hformatter, -⟩
  · simp [hformatter, herrors]
  · simp [hformatter, herrors, hstarts]
  · simp [hformatter, herrors, hstarts]

theorem exists_formatter_iff :
    (∃ f, g.formatter engine = .ok f) ↔ (g.analyze engine).errors = [] ∧ g.startSymbols ≠ [] := by
  rcases g.formatter_cases engine hpatterns with ⟨herrors, hformatter⟩ |
    ⟨herrors, hstarts, hformatter⟩ | ⟨herrors, hstarts, f, hformatter, -⟩
  · simp [hformatter, herrors]
  · simp [hformatter, herrors, hstarts]
  · simp [hformatter, herrors, hstarts]

theorem formatter_ne_table {error : TableError} : g.formatter engine ≠ .error (.table error) := by
  rcases g.formatter_cases engine hpatterns with ⟨-, hformatter⟩ | ⟨-, -, hformatter⟩ |
    ⟨-, -, f, hformatter, -⟩
  · simp [hformatter]
  · simp [hformatter]
  · simp [hformatter]

theorem generates_of_formatter {f : Formatter} (hf : g.formatter engine = .ok f) :
    List.Forall₂ (fun start t => g.generate (g.analyze engine) start = .ok t) g.startSymbols
      f.tables := by
  rcases g.formatter_cases engine hpatterns with ⟨-, hformatter⟩ | ⟨-, -, hformatter⟩ |
    ⟨-, -, f', hformatter, htables⟩
  · simp [hf] at hformatter
  · simp [hf] at hformatter
  · obtain rfl : f = f' := Except.ok.inj (hf.symm.trans hformatter)
    exact htables

end

/-- A table keeps the name that it was asked for with. -/
theorem map_startSymbol {starts : List String} {tables : List ParseTable}
    (h : List.Forall₂ (fun start t => g.generate (g.analyze engine) start = .ok t) starts tables) :
    tables.map (·.startSymbol) = starts := by
  rw [← List.forall₂_eq_eq_eq, List.forall₂_map_left_iff]
  exact h.flip.imp fun t start ht => (tableOf_of_generate ht).startSymbol

end Grammar

/-- The rule in each place of a grammar has the number of the place, counted from 1. -/
theorem Draft.Agrees.order_eq {alphabet : Alphabet} {d : Draft} {added : List Rule}
    (h : d.Agrees alphabet added) {i : Nat} {entry : RuleId × Declared}
    (hentry : d.rules.toList[i]? = some entry) :
    entry.2.order = i + 1 ∧ d.grammar.rules[i]? = some entry.2.rule := by
  rw [h.rules, List.getElem?_map, List.getElem?_zipIdx, Option.map_map, Option.map_eq_some_iff]
    at hentry
  obtain ⟨rule, hrule, rfl⟩ := hentry
  rw [← Array.getElem?_toList, h.grammar_rules]
  exact ⟨Nat.add_comm 1 i, hrule⟩

/-- The state in each place of an automaton has the number of the place. -/
theorem Worklist.number_eq {as : List AutomatonState} {i : Nat} {entry : StateId × AutomatonState}
    (hentry : (as.zipIdx.map Prod.swap)[i]? = some entry) : entry.1 = i := by
  rw [List.getElem?_map, List.getElem?_zipIdx, Option.map_map, Option.map_eq_some_iff] at hentry
  obtain ⟨state, -, rfl⟩ := hentry
  exact Nat.zero_add i

/-- What becomes of a grammar whose patterns an engine compiles. -/
structure Grammar.Compiles (engine : Engine) (g : Grammar) : Prop where
  /-- Errors are reported before anything else, all of them at once. -/
  analysis_iff : ∀ errors, g.formatter engine = .error (.analysis errors) ↔
    (g.analyze engine).errors = errors ∧ errors ≠ []
  noStartSymbol_iff : g.formatter engine = .error .noStartSymbol ↔
    (g.analyze engine).errors = [] ∧ g.startSymbols = []
  ok_iff : (∃ f, g.formatter engine = .ok f) ↔ (g.analyze engine).errors = [] ∧ g.startSymbols ≠ []
  not_table : ∀ error, g.formatter engine ≠ .error (.table error)
  /-- There is one table for each start symbol that is found, in the order of declaration. -/
  tables : ∀ f, g.formatter engine = .ok f → f.tables.map (·.startSymbol) = g.startSymbols ∧
    List.Forall₂ (fun start t => g.generate (g.analyze engine) start = .ok t) g.startSymbols
      f.tables
  declared : g.startSymbols.Sublist (g.rules.toList.map (·.name)).eraseDups
  /-- A table may be asked for with any name that is defined. -/
  generate : (g.analyze engine).errors = [] → ∀ start, g.isDefined start = true →
    ∃ t, g.generate (g.analyze engine) start = .ok t
  /-- The check of the references finds nothing, whatever terminals the table has. -/
  references : ∀ start terminals, definitionErrors terminals.toArray g.reductions
    ((Augmented.automaton ⟨g, start⟩).states.map (·.row terminals)) = []
  not_definition : ∀ analysis start error,
    g.generate analysis start ≠ .error (.definition error)
  /-- Rules and states have the numbers of their places, the rules counted from 1. -/
  order : ∀ alphabet calls, (Draft.Filling.ofCalls alphabet calls).draft.grammar = g →
    ∀ i entry, (Draft.Filling.ofCalls alphabet calls).draft.rules.toList[i]? = some entry →
      entry.2.order = i + 1 ∧ g.rules[i]? = some entry.2.rule
  numbers : ∀ start, ∃ run states, Step.IsRun (Worklist.step ⟨g, start⟩) .initial run states ∧
    states.map (·.2) = (Augmented.automaton ⟨g, start⟩).states.toList ∧
    ∀ (i : Nat) entry, states[i]? = some entry → entry.1 = i

/-- For a grammar that does not have too many patterns there are two reasons why it may have no
formatter: it has errors, or no start symbol. The tables of its start symbols and of all other
defined names are always made, since their references are valid. -/
theorem compilation_outcome (engine : Engine) (g : Grammar)
    (hpatterns : g.patterns.length ≤ Grammar.maxTerminals) : g.Compiles engine := by
  constructor
  case analysis_iff => exact fun errors => Grammar.formatter_eq_analysis_iff hpatterns
  case noStartSymbol_iff => exact Grammar.formatter_eq_noStartSymbol_iff hpatterns
  case ok_iff => exact Grammar.exists_formatter_iff hpatterns
  case not_table => exact fun error => Grammar.formatter_ne_table hpatterns
  case tables =>
    intro f hf
    have htables := Grammar.generates_of_formatter hpatterns hf
    exact ⟨Grammar.map_startSymbol htables, htables⟩
  case declared => exact g.startSymbols_sublist
  case generate => exact fun herrors start => Grammar.exists_generate herrors hpatterns
  case references => exact g.definitionErrors_eq_nil
  case not_definition => exact fun analysis start => g.generate_ne_definition analysis
  case order =>
    rintro alphabet calls rfl i entry hentry
    exact (Draft.Filling.agrees_ofCalls alphabet calls).order_eq hentry
  case numbers =>
    intro start
    refine ⟨_, _, Worklist.isRun_visited ⟨g, start⟩, ?_, fun i entry => Worklist.number_eq⟩
    rw [List.map_map]
    exact List.zipIdx_map_fst 0 _

/-- Two letters that may stand for themselves. -/
def Grammar.twoLetters : Grammar where
  rules := #[
    ⟨"B", #[⟨.terminal "x", {}⟩], [], {}⟩,
    ⟨"A", #[⟨.terminal "y", {}⟩], [], {}⟩]

theorem two_letters_compile : Grammar.twoLetters.patterns.length ≤ Grammar.maxTerminals ∧
    ∃ f, Grammar.twoLetters.formatter Pattern.engine = .ok f ∧
      f.tables.map (·.startSymbol) = ["B", "A"] := by
  have hpatterns : Grammar.twoLetters.patterns.length ≤ Grammar.maxTerminals := by decide +kernel
  have hcompiles := compilation_outcome Pattern.engine Grammar.twoLetters hpatterns
  have herrors : (Grammar.twoLetters.analyze Pattern.engine).errors = [] := by decide +kernel
  have hstarts : Grammar.twoLetters.startSymbols = ["B", "A"] := by decide +kernel
  obtain ⟨f, hf⟩ := hcompiles.ok_iff.mpr ⟨herrors, by simp [hstarts]⟩
  refine ⟨hpatterns, f, hf, ?_⟩
  rw [(hcompiles.tables f hf).1, hstarts]

end Reformat
