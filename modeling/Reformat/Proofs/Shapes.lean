import Reformat.Formatter
import Reformat.Proofs.Items
import Reformat.Proofs.Runs
import Reformat.Proofs.Tables

/-! Grammars that differ in nothing but templates and positions. Their automata and terminals are
equal, so that their tables differ in nothing but the templates of the reductions. -/

namespace Reformat

namespace Except

/-- Both fail with the same error, or both succeed with results that agree. -/
inductive Alike {ε α β : Type} (agrees : α → β → Prop) : Except ε α → Except ε β → Prop
  | error (e : ε) : Alike agrees (.error e) (.error e)
  | ok {a : α} {b : β} (h : agrees a b) : Alike agrees (.ok a) (.ok b)

variable {ε δ α β γ κ : Type} {agrees : α → β → Prop} {agrees' : γ → κ → Prop} {x : Except ε α}
  {y : Except ε β}

namespace Alike

theorem of_ok {a : α} {b : β} (h : Alike agrees (.ok a : Except ε α) (.ok b)) : agrees a b := by
  cases h with
  | ok h => exact h

theorem map (h : Alike agrees x y) {f : α → γ} {k : β → κ}
    (hf : ∀ a b, x = .ok a → y = .ok b → agrees a b → agrees' (f a) (k b)) :
    Alike agrees' (x.map f) (y.map k) := by
  cases h with
  | error e => exact .error e
  | ok h => exact .ok (hf _ _ rfl rfl h)

theorem mono {agrees' : α → β → Prop} (h : Alike agrees x y)
    (hf : ∀ a b, x = .ok a → y = .ok b → agrees a b → agrees' a b) : Alike agrees' x y := by
  cases h with
  | error e => exact .error e
  | ok h => exact .ok (hf _ _ rfl rfl h)

theorem mapError (h : Alike agrees x y) (f : ε → δ) :
    Alike agrees (x.mapError f) (y.mapError f) := by
  cases h with
  | error e => exact .error (f e)
  | ok h => exact .ok h

theorem mapM {f : γ → Except ε α} {k : γ → Except ε β} {cs : List γ}
    (h : ∀ c ∈ cs, Alike agrees (f c) (k c)) :
    Alike (List.Forall₂ agrees) (cs.mapM f) (cs.mapM k) := by
  induction cs with
  | nil => exact .ok .nil
  | cons c cs ih =>
    have hfirst := h c List.mem_cons_self
    have hothers := ih fun c hc => h c (List.mem_cons_of_mem _ hc)
    rw [List.mapM_cons, List.mapM_cons]
    revert hfirst hothers
    generalize f c = x, k c = y, cs.mapM f = xs, cs.mapM k = ys
    intro hfirst hothers
    -- the first that fails decides
    cases hfirst with
    | error e => exact .error e
    | ok hab =>
      cases hothers with
      | error e => exact .error e
      | ok hothers => exact .ok (.cons hab hothers)

end Alike

end Except

/-- What a rule says apart from its template and its positions. -/
def Rule.shape (r : Rule) : String × List Symbol := (r.name, r.symbols)

theorem Rule.arity_eq_of_shape {r r' : Rule} (h : r.shape = r'.shape) : r.arity = r'.arity := by
  have hlength : ∀ r : Rule, r.arity = r.symbols.length := by simp [arity, symbols]
  rw [hlength, hlength]
  exact congrArg (·.2.length) h

/-- Grammars of the same mode whose rules have the same names and symbols in the same order. -/
structure Grammar.SameShape (g g' : Grammar) : Prop where
  rules : g.rules.toList.map Rule.shape = g'.rules.toList.map Rule.shape
  searchMode : g.searchMode = g'.searchMode

theorem Augmented.next?_eq_bind_shape (g : Augmented) (i : Item) :
    g.next? i = ((g.rule? i.rule).map Rule.shape).bind (·.2[i.dot]?) := by
  cases hrule : g.rule? i.rule with
  | none => rw [next?, hrule]; rfl
  | some rule => exact next?_eq hrule

/-- The pattern of a terminal. -/
def Symbol.pattern? : Symbol → Option String
  | .terminal pattern => some pattern
  | .nonterminal _ => none

/-- Where values count as repeated if a function says the same of them, what it says is kept without
repetitions. -/
theorem map_eraseDupsBy {α β : Type} [BEq β] (f : α → β) (as : List α) :
    (as.eraseDupsBy (f · == f ·)).map f = (as.map f).eraseDups := by
  match as with
  | [] => rfl
  | a :: as =>
    rw [List.eraseDupsBy_cons, List.map_cons, List.map_cons, List.eraseDups_cons,
      map_eraseDupsBy, List.filter_map]
    congr 3
    apply List.filter_congr
    intro b _
    simp [Function.comp_apply]
termination_by as.length
decreasing_by exact Nat.lt_succ_of_le (List.length_filter_le _ _)

theorem Grammar.patterns_map_fst (g : Grammar) : g.patterns.map (·.1) =
    ((g.elements.map (·.symbol)).filterMap Symbol.pattern?).eraseDups := by
  rw [patterns, map_eraseDupsBy, List.map_filterMap, List.filterMap_map]
  congr 2
  ext1 e
  cases h : e.symbol <;> simp [h, Symbol.pattern?]

theorem Grammar.mem_elements {g : Grammar} {e : Element} :
    e ∈ g.elements ↔ ∃ rule ∈ g.rules, e ∈ rule.elements := by
  simp only [elements, List.mem_flatMap, Array.mem_toList_iff]

theorem Symbol.pattern?_eq_some {symbol : Symbol} {pattern : String} :
    symbol.pattern? = some pattern ↔ symbol = .terminal pattern := by
  cases symbol <;> simp [pattern?]

theorem Grammar.mem_patterns_map_fst {g : Grammar} {pattern : String} :
    pattern ∈ g.patterns.map (·.1) ↔ ∃ rule ∈ g.rules, .terminal pattern ∈ rule.symbols := by
  simp only [patterns_map_fst, List.mem_eraseDups, List.mem_filterMap, List.mem_map, mem_elements,
    Rule.symbols, Array.mem_toList_iff, Symbol.pattern?_eq_some]
  constructor
  · rintro ⟨symbol, ⟨e, ⟨rule, hrule, he⟩, hsymbol⟩, rfl⟩
    exact ⟨rule, hrule, e, he, hsymbol⟩
  · rintro ⟨rule, hrule, e, he, hsymbol⟩
    exact ⟨_, ⟨e, ⟨rule, hrule, he⟩, hsymbol⟩, rfl⟩

theorem Grammar.terminals_eq (engine : Engine) (g : Grammar) : g.terminals engine =
    ((g.elements.map (·.symbol)).filterMap Symbol.pattern?).eraseDups.filterMap
      (Terminal.ofPattern? engine) := by
  rw [← patterns_map_fst, List.filterMap_map]
  rfl

theorem Grammar.map_symbol_elements (g : Grammar) : g.elements.map (·.symbol) =
    (g.rules.toList.map Rule.shape).flatMap (·.2) := by
  rw [elements, List.map_flatMap, List.flatMap_map]
  rfl

theorem Grammar.reductions_zero (g : Grammar) : g.reductions[0]? = some .accept := by
  rw [reductions, Array.getElem?_append_left Nat.one_pos]
  rfl

namespace Grammar.SameShape

variable {g g' : Grammar} (h : g.SameShape g')

include h

theorem rule? (id : RuleId) : (g.rule? id).map Rule.shape = (g'.rule? id).map Rule.shape := by
  cases id with
  | zero => rfl
  | succ n =>
    have hget := congrArg (·[n]?) h.rules
    simpa [Grammar.rule?] using hget

theorem size_rules : g.rules.size = g'.rules.size := by
  simpa using congrArg List.length h.rules

theorem alternatives (name : String) : g.alternatives name = g'.alternatives name := by
  -- only the names of the rules count
  have hnames : ∀ rules : List Rule, ((rules.zipIdx 1).filter (·.1.name = name)).map (·.2) =
      (((rules.map Rule.shape).zipIdx 1).filter (·.1.1 = name)).map (·.2) := by
    intro rules
    rw [List.zipIdx_map, List.filter_map, List.map_map]
    rfl
  rw [Grammar.alternatives, Grammar.alternatives, g.table_eq, g'.table_eq, NameTable.get_ofRules,
    NameTable.get_ofRules, hnames, hnames, h.rules]

theorem isDefined (name : String) : g.isDefined name = g'.isDefined name := by
  rw [Grammar.isDefined, Grammar.isDefined, h.alternatives]

theorem next? (start : String) (i : Item) :
    Augmented.next? ⟨g, start⟩ i = Augmented.next? ⟨g', start⟩ i := by
  rw [Augmented.next?_eq_bind_shape, Augmented.next?_eq_bind_shape]
  congr 1
  rw [Augmented.rule?, Augmented.rule?]
  split
  · rfl
  · exact h.rule? i.rule

theorem closure (start : String) (kernel : List Item) :
    Augmented.closure ⟨g, start⟩ kernel = Augmented.closure ⟨g', start⟩ kernel := by
  refine Machine.run_eq_of_corresponds Eq (fun s s' hs => ?_) rfl
  have hsame : Closing.step ⟨g, start⟩ s = Closing.step ⟨g', start⟩ s' := by
    subst hs
    have htitled : Augmented.titled ⟨g, start⟩ = Augmented.titled ⟨g', start⟩ := by
      funext i
      rw [Augmented.titled, Augmented.titled, h.next?]
    simp only [Closing.step, h.next?, h.alternatives, htitled]
  change (∃ t t', Closing.step ⟨g, start⟩ s = .next t ∧ _) ∨
    ∃ r, Closing.step ⟨g, start⟩ s = .done r ∧ Closing.step ⟨g', start⟩ s' = .done r
  rw [hsame]
  cases hstep : Closing.step ⟨g', start⟩ s' with
  | next t => exact Or.inl ⟨t, t, rfl, hstep, rfl⟩
  | done r => exact Or.inr ⟨r, rfl, rfl⟩

/-- The automata are made in step. -/
theorem automaton (start : String) :
    Augmented.automaton ⟨g, start⟩ = Augmented.automaton ⟨g', start⟩ := by
  refine Machine.run_eq_of_corresponds
    (fun s s' => s.kernels = s'.kernels ∧ s.states = s'.states) ?_ ⟨rfl, rfl⟩
  rintro s s' ⟨hkernels, hstates⟩
  change (∃ t t', s.step = .next t ∧ s'.step = .next t' ∧ _) ∨
    ∃ r, s.step = .done r ∧ s'.step = .done r
  -- a step is the last for both, or it makes the state of the same kernel
  cases hstep : s.step with
  | next t =>
    obtain ⟨kernel, hkernel, htk, hts⟩ := Frontier.step_next hstep
    rw [hkernels, hstates] at hkernel
    cases hstep' : s'.step with
    | next t' =>
      obtain ⟨kernel', hkernel', htk', hts'⟩ := Frontier.step_next hstep'
      obtain rfl := Option.some.inj (hkernel.symm.trans hkernel')
      have hsame : t.kernels = t'.kernels := by rw [htk, htk', h.closure, hkernels]
      exact Or.inl ⟨t, t', rfl, rfl, hsame, by rw [hts, hts', h.closure, hstates, hsame]⟩
    | done r' =>
      rw [(Frontier.step_done hstep').1] at hkernel
      simp at hkernel
  | done r =>
    obtain ⟨hnone, hr⟩ := Frontier.step_done hstep
    rw [hkernels, hstates] at hnone
    cases hstep' : s'.step with
    | next t' =>
      obtain ⟨kernel', hkernel', -⟩ := Frontier.step_next hstep'
      rw [hnone] at hkernel'
      simp at hkernel'
    | done r' =>
      obtain ⟨-, hr'⟩ := Frontier.step_done hstep'
      have hsame : r = r' := by
        cases r
        cases r'
        exact congrArg Automaton.mk (hr.trans (hstates.trans hr'.symm))
      exact Or.inr ⟨r, rfl, congrArg Step.done hsame.symm⟩

theorem terminals (engine : Engine) : g.terminals engine = g'.terminals engine := by
  rw [terminals_eq, terminals_eq, map_symbol_elements, map_symbol_elements, h.rules]

/-- The same references are valid, as there are equally many reductions. -/
theorem definitionErrors (terminals : Array Terminal) (rows : Array Row) :
    definitionErrors terminals g.reductions rows =
      Reformat.definitionErrors terminals g'.reductions rows := by
  have hsize : g.reductions.size = g'.reductions.size := by
    simp [reductions, h.size_rules]
  rw [Reformat.definitionErrors, Reformat.definitionErrors, hsize, reductions_zero, reductions_zero]

end Grammar.SameShape

/-- Tables that differ in nothing but their reductions. -/
structure ParseTable.SameMoves (t t' : ParseTable) : Prop where
  startSymbol : t.startSymbol = t'.startSymbol
  terminals : t.terminals = t'.terminals
  rows : t.rows = t'.rows

/-- There is a table if there is nothing wrong with its parts. -/
theorem ParseTable.assemble_cases (start : String) (terminals : Array Terminal)
    (reductions : Array Reduction) (rows : Array Row) :
    (∃ t, definitionErrors terminals reductions rows = [] ∧
      assemble start terminals reductions rows = .ok t) ∨
    ∃ error errors, definitionErrors terminals reductions rows = error :: errors ∧
      assemble start terminals reductions rows = .error error := by
  unfold assemble
  split
  · next hnil => exact Or.inl ⟨_, hnil, rfl⟩
  · next error errors hcons => exact Or.inr ⟨error, errors, hcons, rfl⟩

/-- The table of a grammar without errors. -/
theorem Grammar.generate_eq {engine : Engine} {g : Grammar}
    (herrors : (g.analyze engine).errors = []) (start : String) :
    g.generate (g.analyze engine) start =
      if g.isDefined start then
        g.tableOf (g.terminals engine) start (Augmented.automaton ⟨g, start⟩)
      else .error (.unknownStartSymbol start) := by
  rw [generate, Analysis.check, herrors]
  cases g.isDefined start <;> rfl

theorem Grammar.formatterFor_eq {engine : Engine} {g : Grammar}
    (herrors : (g.analyze engine).errors = []) (starts : List String) :
    g.formatterFor engine starts =
      if starts.isEmpty then .error .noStartSymbol
      else ((starts.mapM (g.generate (g.analyze engine))).mapError .table).map fun tables =>
        { tables, config := { searchMode := g.searchMode } } := by
  rw [formatterFor, formatterWith, Analysis.check, herrors]
  cases starts.isEmpty <;> rfl

namespace Grammar.SameShape

variable {engine : Engine} {g g' : Grammar} (h : g.SameShape g')
  (herrors : (g.analyze engine).errors = []) (herrors' : (g'.analyze engine).errors = [])

include h

theorem tableOf (terminals : List Terminal) (start : String) (automaton : Automaton) :
    Except.Alike ParseTable.SameMoves (g.tableOf terminals start automaton)
      (g'.tableOf terminals start automaton) := by
  rw [Grammar.tableOf, Grammar.tableOf]
  split
  · exact .error _
  · apply Except.Alike.mapError
    generalize (terminals.filter (automaton.shifts ·.pattern)).toArray = shifted
    generalize automaton.states.map _ = rows
    have herrors := h.definitionErrors shifted rows
    rcases ParseTable.assemble_cases start shifted g.reductions rows with
      ⟨t, hnil, ht⟩ | ⟨error, errors, hcons, ht⟩
    · rcases ParseTable.assemble_cases start shifted g'.reductions rows with
        ⟨t', -, ht'⟩ | ⟨error', errors', hcons', -⟩
      · obtain ⟨hstart, hterminals, -, hrows⟩ := parts_of_assemble ht
        obtain ⟨hstart', hterminals', -, hrows'⟩ := parts_of_assemble ht'
        rw [ht, ht']
        exact .ok ⟨hstart.trans hstart'.symm, hterminals.trans hterminals'.symm,
          hrows.trans hrows'.symm⟩
      · simp [herrors, hcons'] at hnil
    · rcases ParseTable.assemble_cases start shifted g'.reductions rows with
        ⟨t', hnil', -⟩ | ⟨error', errors', hcons', ht'⟩
      · simp [herrors, hnil'] at hcons
      · rw [herrors, hcons', List.cons.injEq] at hcons
        rw [ht, ht', hcons.1]
        exact .error error

include herrors herrors'

/-- Both grammars have a table for a start symbol, or neither has, for the same reason. -/
theorem generate (start : String) : Except.Alike ParseTable.SameMoves
    (g.generate (g.analyze engine) start) (g'.generate (g'.analyze engine) start) := by
  rw [generate_eq herrors, generate_eq herrors', h.isDefined, h.terminals, h.automaton]
  split
  · exact h.tableOf _ _ _
  · exact .error _

end Grammar.SameShape

end Reformat
