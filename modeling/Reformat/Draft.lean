import Reformat.Alphabet
import Reformat.Grammar

/-!
Grammars in the making: rules are added one by one, and a rule that is refused changes nothing.
-/

namespace Reformat

/-- Why a grammar cannot be defined. -/
inductive GrammarError where
  | invalidName (position : Position) (name : String)
  | duplicateRule (position : Position) (name : String)
  | tooManyRules
  | ruleTooLong (position : Position) (name : String)
  | other (message : String)
  deriving DecidableEq

def GrammarError.text : GrammarError → String
  | invalidName position name => s!"{position.text}: invalid symbol name `{name}'"
  | duplicateRule position name => s!"{position.text}: duplicate alternative of `{name}'"
  | tooManyRules => "too many rules"
  | ruleTooLong position name =>
    s!"{position.text}: too many elements in an alternative of `{name}'"
  | other message => s!"Other error: {message}"

/-- A rule with the number that it was given. -/
structure Declared where
  id : RuleId
  rule : Rule
  deriving DecidableEq

/-- Rules are ordered by their numbers. -/
def Declared.order (d : Declared) : Nat := d.id

/-- Rules by their numbers, in the order of their insertion. -/
structure RuleTable where
  ids : Numbering RuleId := ∅
  declared : Array Declared := #[]
  size_eq : ids.size = declared.size := by rfl

namespace RuleTable

def size (t : RuleTable) : Nat := t.declared.size

/-- The numbers with their rules. -/
def toList (t : RuleTable) : List (RuleId × Declared) := t.ids.toList.zip t.declared.toList

/-- The rule with a number. -/
def get? (t : RuleTable) (id : RuleId) : Option Declared :=
  (t.ids.number? id).bind (t.declared[·]?)

/-- Puts a rule under a number; a number that is there keeps its place. -/
def insert (t : RuleTable) (id : RuleId) (d : Declared) : RuleTable :=
  match h : t.ids.number? id with
  | some i =>
    { t with
      declared := t.declared.setIfInBounds i d
      size_eq := by rw [Array.size_setIfInBounds, t.size_eq] }
  | none =>
    { ids := t.ids.insert id
      declared := t.declared.push d
      size_eq := by
        rw [Numbering.size, Numbering.values_insert h, Array.size_push, Array.size_push,
          ← t.size_eq]
        rfl }

end RuleTable

/-- The rules added so far, with a table of their names and the number that comes next. -/
structure Draft where
  rules : RuleTable := {}
  table : NameTable := {}
  searchMode : Bool := false
  nextId : RuleId := 1

namespace Draft

/-- A draft without rules. -/
def empty : Draft := {}

/-- The number of elements that a rule may have at most. -/
def maxElements : Nat := 65535

/-- The largest number that a rule may have, and so the number of rules that there may be. -/
def maxRules : Nat := 65534

/-- What is wrong with an element by itself. -/
def elementError? (alphabet : Alphabet) (e : Element) : Option GrammarError :=
  match e.symbol with
  | .terminal _ => none
  | .nonterminal name =>
    if alphabet.isIdentifier name then none else some (.invalidName e.position name)

/-- Whether a rule with the same name and the same symbols is there. -/
def hasDuplicate (d : Draft) (rule : Rule) : Bool :=
  (d.table.get rule.name).any fun id =>
    match d.rules.get? id with
    | some other =>
      other.rule.elements.size = rule.elements.size && other.rule.symbols = rule.symbols
    | none => false

/-- The first reason to refuse a rule. -/
def refusal? (alphabet : Alphabet) (d : Draft) (rule : Rule) : Option GrammarError :=
  if !alphabet.isIdentifier rule.name then some (.invalidName rule.position rule.name)
  else if rule.elements.size > maxElements then some (.ruleTooLong rule.position rule.name)
  else match rule.elements.findSome? (elementError? alphabet) with
    | some error => some error
    | none =>
      if d.hasDuplicate rule then some (.duplicateRule rule.position rule.name)
      else if d.nextId > maxRules then some .tooManyRules
      else none

/-- Gives a rule the next number. -/
def push (d : Draft) (rule : Rule) : Draft :=
  { d with
    rules := d.rules.insert d.nextId ⟨d.nextId, rule⟩
    table := d.table.add rule.name d.nextId
    nextId := d.nextId + 1 }

/-- Adds a rule, unless it is refused, and tells its number. -/
def addRule (alphabet : Alphabet) (d : Draft) (rule : Rule) :
    Except GrammarError (RuleId × Draft) :=
  match d.refusal? alphabet rule with
  | some error => .error error
  | none => .ok (d.nextId, d.push rule)

def setSearchMode (d : Draft) (enabled : Bool) : Draft := { d with searchMode := enabled }

/-- The grammar of the rules added so far. -/
def grammar (d : Draft) : Grammar where
  rules := d.rules.declared.map (·.rule)
  searchMode := d.searchMode

end Draft

/-- Defines a grammar from an empty draft. -/
def Grammar.define (fill : Draft → Except GrammarError Draft) : Except GrammarError Grammar :=
  (fill .empty).map Draft.grammar

end Reformat
