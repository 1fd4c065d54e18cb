import Reformat.Analysis
import Reformat.ParseTable

/-!
Tables of grammars. A terminal that can be shifted is shifted, and of several rules that can be
reduced the one declared first is.
-/

namespace Reformat

/-- Why there is no table. -/
inductive TableError where
  | analysis (errors : List AnalysisError)
  | unknownStartSymbol (name : String)
  | tooManyTerminals
  | definition (error : DefinitionError)
  deriving DecidableEq

namespace TableError

def text : TableError → String
  | analysis errors => s!"the grammar has errors:\n{AnalysisError.textOfList errors}"
  | unknownStartSymbol name => s!"unknown start symbol `{name}'"
  | tooManyTerminals => "too many terminal symbols"
  | definition _ => "inconsistent parse table"

/-- The texts of the errors behind an error. -/
def causes : TableError → List String
  | analysis errors => [AnalysisError.textOfList errors]
  | definition error => [error.text]
  | _ => []

end TableError

namespace AutomatonState

/-- The rule that wins where several can be reduced: the one declared first. -/
def winner? (s : AutomatonState) : Option RuleId := s.reduces.head?

/-- Whether the state could also do something else than reduce the winner. -/
def hasConflict (s : AutomatonState) : Bool := s.reduces.length > 1 || !s.shifts.isEmpty

/-- The action of the state on a terminal. -/
def action? (s : AutomatonState) (pattern : String) : Option Action :=
  match Association.get? pattern s.shifts with
  | some next => some (.shift next)
  | none => s.winner?.map .reduce

/-- The row of the state in a table with the given terminals. -/
def row (s : AutomatonState) (terminals : List Terminal) : Row where
  actions := terminals.zipIdx.filterMap fun (terminal, id) =>
    (s.action? terminal.pattern).map (id, ·)
  gotos := s.gotos
  otherwise := s.winner?

end AutomatonState

/-- Whether some state shifts a terminal. -/
def Automaton.shifts (a : Automaton) (pattern : String) : Bool :=
  a.states.any fun s => s.shifts.any (·.1 = pattern)

namespace Grammar

/-- The reductions of all rules, after the accepting one. -/
def reductions (g : Grammar) : Array Reduction :=
  #[Reduction.accept] ++ g.rules.map fun rule => ⟨rule.name, rule.arity, rule.template⟩

/-- The number of terminals that a table may have at most. -/
def maxTerminals : Nat := 65536

/-- The table of an automaton. Of the terminals it has those that some state shifts. -/
def tableOf (g : Grammar) (terminals : List Terminal) (start : String) (automaton : Automaton) :
    Except TableError ParseTable :=
  let shifted := terminals.filter (automaton.shifts ·.pattern)
  if shifted.length > maxTerminals then .error .tooManyTerminals
  else
    (ParseTable.assemble start shifted.toArray g.reductions
      (automaton.states.map (·.row shifted))).mapError .definition

/-- The table of a start symbol, for a grammar with the given analysis. -/
def generate (g : Grammar) (analysis : Analysis) (start : String) :
    Except TableError ParseTable := do
  analysis.check.mapError .analysis
  if !g.isDefined start then throw (.unknownStartSymbol start)
  g.tableOf analysis.terminals start (Augmented.automaton ⟨g, start⟩)

end Grammar

end Reformat
