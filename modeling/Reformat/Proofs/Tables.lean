import Reformat.Generation
import Reformat.Attempt
import Reformat.Proofs.Items

/-! What the table of a start symbol does in each state of its automaton: the moves of an attempt
are the transitions of the state, and the reductions of its complete items. -/

namespace Reformat

/-- A table made for the start symbol of a grammar without errors. -/
structure TableOf (engine : Engine) (g : Augmented) (t : ParseTable) : Prop where
  errors : (g.grammar.analyze engine).errors = []
  defined : g.grammar.isDefined g.start = true
  startSymbol : t.startSymbol = g.start
  terminals : t.terminals.toList =
    (g.grammar.terminals engine).filter (g.automaton.shifts ·.pattern)
  size_terminals : t.terminals.size ≤ Grammar.maxTerminals
  reductions : t.reductions = g.grammar.reductions
  rows : t.rows = g.automaton.states.map (·.row t.terminals.toList)

theorem parts_of_assemble {start : String} {terminals : Array Terminal}
    {reductions : Array Reduction} {rows : Array Row} {t : ParseTable}
    (h : ParseTable.assemble start terminals reductions rows = .ok t) :
    t.startSymbol = start ∧ t.terminals = terminals ∧ t.reductions = reductions ∧
      t.rows = rows := by
  unfold ParseTable.assemble at h
  split at h
  · obtain rfl := Except.ok.inj h
    exact ⟨rfl, rfl, rfl, rfl⟩
  · simp at h

theorem ParseTable.pattern_eq {t : ParseTable} {id : TerminalId} {u : Terminal}
    (h : t.terminals[id]? = some u) : t.pattern id = u.pattern := by
  rw [pattern, h]
  rfl

theorem Grammar.ofPattern?_of_mem_terminals {engine : Engine} {g : Grammar} {u : Terminal}
    (h : u ∈ g.terminals engine) : Terminal.ofPattern? engine u.pattern = some u := by
  obtain ⟨⟨pattern, position⟩, -, hu⟩ := List.mem_filterMap.mp h
  rwa [Terminal.pattern_of_ofPattern? hu]

theorem ParseTable.exists_of_nextAction? {t : ParseTable} {q : StateId} {text : List Char}
    {terminal : TerminalId} {action : Action} {n : Nat}
    (h : t.nextAction? q text = some (terminal, action, n)) :
    ∃ u, (u, terminal) ∈ t.numbered ∧ (t.row q).action? terminal = some action ∧
      u.matchLength? text = some n := by
  rcases Option.or_eq_some_iff.mp h with h | ⟨-, h⟩ <;>
    obtain ⟨u, hu, haction, -, hn⟩ := Attempt.matchLength?_of_firstMatch? h <;>
    exact ⟨u, hu, haction, hn⟩

theorem Analysis.check_eq_ok {a : Analysis} {u : Unit} : a.check = .ok u ↔ a.errors = [] := by
  rw [check, ← List.isEmpty_iff]
  split <;> simp_all

/-- What has to hold for a table to be put together. -/
theorem Grammar.generate_eq_ok {g : Grammar} {analysis : Analysis} {start : String}
    {t : ParseTable} : g.generate analysis start = .ok t ↔ analysis.errors = [] ∧
      g.isDefined start = true ∧
      g.tableOf analysis.terminals start (Augmented.automaton ⟨g, start⟩) = .ok t := by
  rw [generate, Except.bind_eq_ok]
  simp only [Except.mapError_eq_ok, Analysis.check_eq_ok, exists_and_left, exists_const,
    Except.throw_bind]
  refine and_congr_right fun _ => ?_
  cases g.isDefined start <;> simp

theorem Grammar.tableOf_eq_ok {g : Grammar} {terminals : List Terminal} {start : String}
    {automaton : Automaton} {t : ParseTable} : g.tableOf terminals start automaton = .ok t ↔
      (terminals.filter (automaton.shifts ·.pattern)).length ≤ maxTerminals ∧
      ParseTable.assemble start (terminals.filter (automaton.shifts ·.pattern)).toArray
        g.reductions (automaton.states.map
          (·.row (terminals.filter (automaton.shifts ·.pattern)))) = .ok t := by
  rw [tableOf]
  split
  · next hmany => simp [Nat.not_le.mpr hmany]
  · next hfew => rw [Except.mapError_eq_ok, and_iff_right (Nat.le_of_not_lt hfew)]

theorem tableOf_of_generate {engine : Engine} {g : Grammar} {start : String} {t : ParseTable}
    (h : g.generate (g.analyze engine) start = .ok t) : TableOf engine ⟨g, start⟩ t := by
  obtain ⟨herrors, hdefined, htable⟩ := Grammar.generate_eq_ok.mp h
  obtain ⟨hfew, hassemble⟩ := Grammar.tableOf_eq_ok.mp htable
  obtain ⟨hstart, hterminals, hreductions, hrows⟩ := parts_of_assemble hassemble
  have hlist : t.terminals.toList =
      (g.terminals engine).filter ((Augmented.automaton ⟨g, start⟩).shifts ·.pattern) := by
    rw [hterminals]
    rfl
  refine ⟨herrors, hdefined, hstart, hlist, ?_, hreductions, ?_⟩
  · rw [← Array.length_toList, hlist]
    exact hfew
  · rw [hrows, hlist]
    rfl

/-- Round brackets are made square. -/
def Rule.bracketed : Rule where
  name := "S"
  elements := #[⟨.terminal "\\(", {}⟩, ⟨.nonterminal "S", {}⟩, ⟨.terminal "\\)", {}⟩]
  template := [.literal "[", .capture 1, .literal "]"]

def Rule.letter : Rule where
  name := "S"
  elements := #[⟨.terminal "x", {}⟩]
  template := [.capture 0]

/-- A letter in any number of brackets. -/
def Grammar.brackets : Grammar where
  rules := #[.bracketed, .letter]

/-- A letter in any number of brackets, which all stay there. -/
def Grammar.keptBrackets : Grammar where
  rules := #[
    ⟨"S", #[⟨.terminal "\\(", {}⟩, ⟨.nonterminal "S", {}⟩, ⟨.terminal "\\)", {}⟩],
      [.capture 0, .capture 1, .literal "", .capture 2], {}⟩,
    ⟨"S", #[⟨.terminal "x", {}⟩], [], {}⟩]

theorem Association.get?_filterMap_zipIdx {α ν : Type} (f : α → Option ν) (as : List α)
    (k n : Nat) :
    Association.get? (k + n) ((as.zipIdx n).filterMap fun (a, id) => (f a).map (id, ·)) =
      (as[k]?).bind f := by
  -- the numbers have to start anywhere for the induction on the list
  induction as generalizing k n with
  | nil => rfl
  | cons a as ih =>
    -- the keys after the first one are larger than `n`
    have hlater : ∀ m, m ≤ n → Association.get? m
        ((as.zipIdx (n + 1)).filterMap fun (a, id) => (f a).map (id, ·)) = none := by
      clear ih
      induction as generalizing n with
      | nil => exact fun _ _ => rfl
      | cons b as ih =>
        intro m hm
        rw [List.zipIdx_cons, List.filterMap_cons]
        have hrest := ih (n + 1) m (by omega)
        cases hb : f b with
        | none => simpa [hb] using hrest
        | some v =>
          have hne : n + 1 ≠ m := by omega
          simpa [hb, Association.get?, hne] using hrest
    rw [List.zipIdx_cons, List.filterMap_cons]
    cases k with
    | zero =>
      cases ha : f a with
      | none => simpa [ha] using hlater n (Nat.le_refl n)
      | some v => simp [ha, Association.get?]
    | succ k =>
      have hrest := ih k (n + 1)
      rw [show k + (n + 1) = k + 1 + n by omega] at hrest
      cases ha : f a with
      | none => simpa [ha] using hrest
      | some v =>
        have hne : n ≠ k + 1 + n := by omega
        simpa [ha, Association.get?, hne] using hrest

theorem AutomatonState.action?_row (s : AutomatonState) (terminals : List Terminal)
    (id : TerminalId) :
    (s.row terminals).action? id = (terminals[id]?).bind fun u => s.action? u.pattern :=
  Association.get?_filterMap_zipIdx (fun u : Terminal => s.action? u.pattern) terminals id 0

theorem AutomatonState.action?_eq_shift {s : AutomatonState} {pattern : String} {next : StateId} :
    s.action? pattern = some (.shift next) ↔
      Association.get? (.terminal pattern) s.transitions = some next := by
  rw [action?, get?_shifts]
  split
  · next r hr => simp [hr]
  · next hr => simp [hr]

theorem AutomatonState.action?_eq_reduce {s : AutomatonState} {pattern : String} {id : RuleId}
    (h : s.action? pattern = some (.reduce id)) : s.winner? = some id := by
  rw [action?] at h
  split at h
  · simp at h
  · simpa using h

namespace TableOf

variable {engine : Engine} {g : Augmented} {t : ParseTable} {q next : StateId}
  {s : AutomatonState} {text : List Char} {terminal : TerminalId} {id : ReductionId} {n : Nat}

theorem row_eq (h : TableOf engine g t) (q : StateId) :
    t.row q = ((g.automaton.states[q]?).map (·.row t.terminals.toList)).getD {} := by
  rw [ParseTable.row, h.rows, Array.getElem?_map]

theorem numStates_eq (h : TableOf engine g t) : t.numStates = g.automaton.states.size := by
  rw [ParseTable.numStates, h.rows, Array.size_map]

/-- The terminals are few enough for each of them to have its place as its number. -/
theorem numbered_eq (h : TableOf engine g t) : t.numbered = t.terminals.toList.zipIdx :=
  ParseTable.numbered_eq h.size_terminals

theorem mem_numbered (h : TableOf engine g t) {u : Terminal} (hu : (u, terminal) ∈ t.numbered) :
    t.terminals[terminal]? = some u := by
  rwa [h.numbered_eq, List.mk_mem_zipIdx_iff_getElem?, Array.getElem?_toList] at hu

theorem ofPattern?_eq (h : TableOf engine g t) {u : Terminal}
    (hu : t.terminals[terminal]? = some u) : Terminal.ofPattern? engine u.pattern = some u := by
  have hmem : u ∈ t.terminals.toList := Array.mem_toList_iff.mpr (Array.mem_of_getElem? hu)
  rw [h.terminals] at hmem
  exact Grammar.ofPattern?_of_mem_terminals (List.mem_filter.mp hmem).1

/-- The gotos of a row are the transitions on names. -/
theorem goto?_eq (h : TableOf engine g t) (q : StateId) (name : String) :
    (t.row q).goto? name = g.automaton.next? q (.nonterminal name) := by
  rw [h.row_eq, Automaton.next?]
  cases g.automaton.states[q]? with
  | none => rfl
  | some s => exact s.get?_gotos name

theorem action?_eq (h : TableOf engine g t) (q : StateId) (id : TerminalId) :
    (t.row q).action? id = (g.automaton.states[q]?).bind fun s =>
      (t.terminals[id]?).bind fun u => s.action? u.pattern := by
  rw [h.row_eq]
  cases g.automaton.states[q]? with
  | none => rfl
  | some s =>
    rw [← Array.getElem?_toList]
    exact s.action?_row t.terminals.toList id

theorem otherwise_eq (h : TableOf engine g t) (q : StateId) :
    (t.row q).otherwise = (g.automaton.states[q]?).bind AutomatonState.winner? := by
  rw [h.row_eq]
  cases g.automaton.states[q]? <;> rfl

/-- What a table knows of a rule is what the grammar says of it. -/
theorem reduction_eq (h : TableOf engine g t) {rule : Rule} (hrule : g.rule? id = some rule) :
    t.reduction id = ⟨rule.name, rule.arity, rule.template⟩ := by
  rw [ParseTable.reduction, h.reductions, Grammar.reductions]
  -- the accepting rule comes before all others
  cases id with
  | zero =>
    obtain rfl := Option.some.inj hrule
    rw [Array.getElem?_append_left Nat.one_pos]
    rfl
  | succ id =>
    have hget : g.grammar.rules[id]? = some rule := by
      simpa [Augmented.rule?, Grammar.rule?] using hrule
    simp [Array.getElem?_append, hget]

theorem action?_of_nextAction? (h : TableOf engine g t) {action : Action}
    (ht : t.nextAction? q text = some (terminal, action, n)) :
    ∃ u, t.terminals[terminal]? = some u ∧ (t.row q).action? terminal = some action ∧
      u.matchLength? text = some n := by
  obtain ⟨u, hu, haction, hn⟩ := ParseTable.exists_of_nextAction? ht
  exact ⟨u, h.mem_numbered hu, haction, hn⟩

/-- A shift reads a terminal that leads on. -/
theorem shift_of_move? (h : TableOf engine g t)
    (hm : t.move? q text = some (.shift terminal next n)) :
    ∃ u, t.terminals[terminal]? = some u ∧ u.matchLength? text = some n ∧
      g.automaton.next? q (.terminal u.pattern) = some next := by
  unfold ParseTable.move? at hm
  split at hm
  · next hnext =>
    simp only [Option.some.injEq, Move.shift.injEq] at hm
    obtain ⟨rfl, rfl, rfl⟩ := hm
    obtain ⟨u, hu, haction, hn⟩ := h.action?_of_nextAction? hnext
    rw [h.action?_eq] at haction
    obtain ⟨s, hs, haction⟩ := Option.bind_eq_some_iff.mp haction
    rw [hu, Option.bind_some, AutomatonState.action?_eq_shift] at haction
    exact ⟨u, hu, hn, by rw [Automaton.next?, hs, Option.bind_some, haction]⟩
  · simp at hm
  · simp at hm

/-- A reduction is that of the winner among the complete items. -/
theorem reduce_of_move? (h : TableOf engine g t) (hm : t.move? q text = some (.reduce id)) :
    ∃ s, g.automaton.states[q]? = some s ∧ s.winner? = some id := by
  unfold ParseTable.move? at hm
  split at hm
  · simp at hm
  · -- a terminal asks for the reduction
    next hnext =>
    simp only [Option.some.injEq, Move.reduce.injEq] at hm
    subst hm
    obtain ⟨u, hu, haction, -⟩ := h.action?_of_nextAction? hnext
    rw [h.action?_eq] at haction
    obtain ⟨s, hs, haction⟩ := Option.bind_eq_some_iff.mp haction
    rw [hu, Option.bind_some] at haction
    exact ⟨s, hs, AutomatonState.action?_eq_reduce haction⟩
  · -- no terminal is of use
    rw [h.otherwise_eq] at hm
    simpa [Option.bind_eq_some_iff] using hm

/-- A rule that is reduced is complete in the state. -/
theorem holds_of_move? (h : TableOf engine g t) (hm : t.move? q text = some (.reduce id)) :
    ∃ rule, g.rule? id = some rule ∧ g.Holds q ⟨id, rule.arity⟩ := by
  obtain ⟨s, hs, hwinner⟩ := h.reduce_of_move? hm
  exact (Augmented.mem_reduces_iff hs).mp (List.mem_of_mem_head? hwinner)

end TableOf

end Reformat
