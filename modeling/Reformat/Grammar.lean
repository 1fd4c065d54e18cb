import Reformat.Numbering
import Reformat.Position
import Reformat.Template

/-!
Grammars: the alternatives of each nonterminal, with a template for each alternative.
-/

namespace Reformat

/-- A terminal is named by its pattern. -/
inductive Symbol where
  | terminal (pattern : String)
  | nonterminal (name : String)
  deriving DecidableEq, Inhabited

def Symbol.text : Symbol → String
  | terminal pattern => s!"/{pattern}/"
  | nonterminal name => name

/-- A symbol where it stands in a rule. -/
structure Element where
  symbol : Symbol
  position : Position := {}
  deriving DecidableEq

/-- One alternative of the nonterminal `name`. -/
structure Rule where
  name : String
  elements : Array Element
  template : Template
  position : Position := {}
  deriving DecidableEq

/-- Rules are numbered from 1 in the order of their declaration; 0 stands for the accepting rule,
which a grammar gets for each start symbol. -/
abbrev RuleId := Nat

namespace Rule

def arity (r : Rule) : Nat := r.elements.size

def symbols (r : Rule) : List Symbol := r.elements.toList.map (·.symbol)

/-- Whether the rule refers to a nonterminal. -/
def refersTo (r : Rule) (name : String) : Bool :=
  r.elements.any fun e => e.symbol = .nonterminal name

/-- A rule is shown with its elements, and with its template if that has any pieces. -/
def text (r : Rule) : String :=
  let elements := if r.elements.isEmpty then ["@empty"] else r.symbols.map (·.text)
  let template := if r.template.isEmpty then [] else "=>" :: r.template.map (·.text)
  " ".intercalate (r.name :: ":=" :: elements ++ template)

end Rule

/-- The names of nonterminals in the order of their first definition, each with its alternatives in
the order of their declaration. -/
structure NameTable where
  names : Numbering String := ∅
  alternatives : Array (List RuleId) := #[]

namespace NameTable

/-- The alternatives of a name; none if it is not defined. -/
def get (t : NameTable) (name : String) : List RuleId :=
  match t.names.number? name with
  | some i => (t.alternatives[i]?).getD []
  | none => []

/-- Adds an alternative to a name. -/
def add (t : NameTable) (name : String) (id : RuleId) : NameTable :=
  match t.names.number? name with
  | some i => { t with alternatives := t.alternatives.modify i (· ++ [id]) }
  | none => ⟨t.names.insert name, t.alternatives.push [id]⟩

/-- The names with their alternatives. -/
def toList (t : NameTable) : List (String × List RuleId) :=
  t.names.toList.zip t.alternatives.toList

/-- The table of rules that are numbered from 1. -/
def ofRules (rules : Array Rule) : NameTable :=
  (rules.toList.zipIdx 1).foldl (fun t (rule, id) => t.add rule.name id) {}

theorem get_eq_nil {t : NameTable} {name : String} (h : name ∉ t.names.toList) :
    t.get name = [] := by
  simp [get, Numbering.number?_eq_none.2 h]

end NameTable

/-- Rules in the order of their declaration, and whether documents are searched for matches instead
of being parsed as a whole. -/
structure Grammar where
  rules : Array Rule
  searchMode : Bool := false
  table : NameTable := .ofRules rules
  table_eq : table = .ofRules rules := by rfl

namespace Grammar

/-- The rule with a number. -/
def rule? (g : Grammar) : RuleId → Option Rule
  | 0 => none
  | n + 1 => g.rules[n]?

/-- The nonterminals in the order of their first definition. -/
def nonterminals (g : Grammar) : List String := g.table.names.toList

/-- The alternatives of a nonterminal in the order of their declaration. -/
def alternatives (g : Grammar) (name : String) : List RuleId := g.table.get name

def isDefined (g : Grammar) (name : String) : Bool := !(g.alternatives name).isEmpty

def text (g : Grammar) : String :=
  let rules := g.rules.toList.map fun rule => s!"- {rule.text}\n"
  "## rules:\n" ++ String.join rules ++ if g.searchMode then "\n## search mode\n" else ""

end Grammar

end Reformat
