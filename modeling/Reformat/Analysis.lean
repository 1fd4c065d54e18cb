import Reformat.Grammar
import Reformat.Terminal

/-!
What can be told of a grammar before any table is made: its start symbols and its errors.
-/

namespace Reformat

/-- What is wrong with a grammar. -/
inductive AnalysisError where
  | undefinedVariable (position : Position) (name : String)
  | invalidPattern (position : Position) (pattern message : String)
  | captureOutOfRange (position : Position) (rule : String) (index arity : Nat)
  deriving DecidableEq

def AnalysisError.text : AnalysisError → String
  | undefinedVariable position name => s!"{position.text}: undefined variable `{name}'"
  | invalidPattern position pattern message =>
    s!"{position.text}: invalid regular expression /{pattern}/: {message}"
  | captureOutOfRange position rule index arity =>
    s!"{position.text}: capture group ${index} of `{rule}' is out of range " ++
      s!"(the rule matches {arity} element(s))"

/-- The text of several errors, one on a line. -/
def AnalysisError.textOfList (errors : List AnalysisError) : String :=
  "\n".intercalate (errors.map (·.text))

namespace Grammar

/-- The nonterminals that no alternative of another nonterminal refers to. -/
def startSymbols (g : Grammar) : List String :=
  g.nonterminals.filter fun name => !g.rules.any fun rule => rule.name ≠ name && rule.refersTo name

/-- All elements of all rules. -/
def elements (g : Grammar) : List Element := g.rules.toList.flatMap (·.elements.toList)

/-- Every reference to a nonterminal without alternatives. -/
def undefinedVariables (g : Grammar) : List AnalysisError :=
  g.elements.filterMap fun e =>
    match e.symbol with
    | .terminal _ => none
    | .nonterminal name =>
      if g.isDefined name then none else some (.undefinedVariable e.position name)

/-- The first element of each pattern. -/
def patterns (g : Grammar) : List (String × Position) :=
  (g.elements.filterMap fun e =>
    match e.symbol with
    | .terminal pattern => some (pattern, e.position)
    | .nonterminal _ => none).eraseDupsBy (·.1 == ·.1)

/-- The terminals with well-formed patterns; those that come first are tried first. -/
def terminals (g : Grammar) (engine : Engine) : List Terminal :=
  g.patterns.filterMap (Terminal.ofPattern? engine ·.1)

/-- The patterns that are not well-formed, with what the engine says of them. -/
def invalidPatterns (g : Grammar) (engine : Engine) : List AnalysisError :=
  g.patterns.filterMap fun (pattern, position) =>
    match Terminal.compile engine pattern with
    | .ok _ => none
    | .error message => some (.invalidPattern position pattern message)

/-- The pieces of templates that mention a part which their rule does not have. -/
def captureErrors (g : Grammar) : List AnalysisError :=
  g.rules.toList.flatMap fun rule => rule.template.filterMap fun piece =>
    match piece.maxCapture? with
    | none => none
    | some index =>
      if index < rule.arity then none
      else some (.captureOutOfRange rule.position rule.name index rule.arity)

end Grammar

/-- The results of analysing a grammar. -/
structure Analysis where
  startSymbols : List String
  terminals : List Terminal
  errors : List AnalysisError

/-- Analyses a grammar: undefined variables come first among the errors, then patterns, then
templates. -/
def Grammar.analyze (g : Grammar) (engine : Engine) : Analysis where
  startSymbols := g.startSymbols
  terminals := g.terminals engine
  errors := g.undefinedVariables ++ g.invalidPatterns engine ++ g.captureErrors

/-- All errors of the grammar, if there are any. -/
def Analysis.check (a : Analysis) : Except (List AnalysisError) Unit :=
  if a.errors.isEmpty then .ok () else .error a.errors

end Reformat
