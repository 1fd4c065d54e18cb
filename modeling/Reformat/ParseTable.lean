import Reformat.Association
import Reformat.Automaton
import Reformat.Template
import Reformat.Terminal

/-!
Parse tables: what to do in each state of an automaton. A table exists only if all references
between its parts are valid.
-/

namespace Reformat

/-- The number of a terminal in a table. -/
abbrev TerminalId := Nat

/-- The number of the terminal in some place, in 16 bits. -/
def TerminalId.ofIndex (i : Nat) : TerminalId := (UInt16.ofNat i).toNat

theorem TerminalId.ofIndex_of_lt {i : Nat} (h : i < UInt16.size) : ofIndex i = i := by
  rw [ofIndex, UInt16.toNat_ofNat', Nat.mod_eq_of_lt h]

/-- The number of a reduction; 0 is the accepting one. -/
abbrev ReductionId := Nat

/-- What it takes to reduce a rule. -/
structure Reduction where
  name : String
  arity : Nat
  template : Template
  deriving DecidableEq

/-- The accepting reduction passes on its only part. -/
def Reduction.accept : Reduction := ⟨"$accept", 1, [.capture 0]⟩

/-- What a state does where a terminal matches: consume it, or reduce before it. -/
inductive Action where
  | shift (next : StateId)
  | reduce (id : ReductionId)
  deriving DecidableEq

/-- The row of a state: actions on terminals, states that nonterminals lead to, and the reduction
for when no terminal is of use. Keys come in the order of their insertion. -/
structure Row where
  actions : List (TerminalId × Action) := []
  gotos : List (String × StateId) := []
  otherwise : Option ReductionId := none
  deriving DecidableEq

namespace Row

def action? (row : Row) (terminal : TerminalId) : Option Action :=
  Association.get? terminal row.actions

def goto? (row : Row) (name : String) : Option StateId := Association.get? name row.gotos

end Row

/-- What is wrong with the references of a table. -/
inductive DefinitionError where
  | emptyStates
  | missingAccept
  | unknownState (source target : StateId)
  | unknownReduction (source : StateId) (reduction : ReductionId)
  | unknownTerminal (source : StateId) (terminal : TerminalId)
  deriving DecidableEq

def DefinitionError.text : DefinitionError → String
  | emptyStates => "the parse table has no states"
  | missingAccept => "the first reduction must be the accepting one"
  | unknownState source target =>
    s!"{stateText source} refers to the unknown state {stateText target}"
  | unknownReduction source reduction =>
    s!"{stateText source} refers to the unknown reduction #{reduction}"
  | unknownTerminal source terminal =>
    s!"{stateText source} refers to the unknown terminal #{terminal}"

/-- How many terminals, reductions and states there are to refer to. -/
structure Extent where
  terminals : Nat
  reductions : Nat
  states : Nat

namespace Extent

def stateErrors (e : Extent) (source target : StateId) : List DefinitionError :=
  if target < e.states then [] else [.unknownState source target]

def reductionErrors (e : Extent) (source : StateId) (id : ReductionId) : List DefinitionError :=
  if id < e.reductions then [] else [.unknownReduction source id]

def terminalErrors (e : Extent) (source : StateId) (id : TerminalId) : List DefinitionError :=
  if id < e.terminals then [] else [.unknownTerminal source id]

def actionErrors (e : Extent) (source : StateId) : Action → List DefinitionError
  | .shift next => e.stateErrors source next
  | .reduce id => e.reductionErrors source id

/-- What is wrong with a row: first the actions, each terminal before its target, then the gotos,
and last the reduction without a terminal. -/
def rowErrors (e : Extent) (source : StateId) (row : Row) : List DefinitionError :=
  row.actions.flatMap (fun (terminal, action) =>
      e.terminalErrors source terminal ++ e.actionErrors source action) ++
    row.gotos.flatMap (fun (_, next) => e.stateErrors source next) ++
    row.otherwise.toList.flatMap (e.reductionErrors source)

end Extent

/-- All that is wrong with the parts of a table, in the order of discovery. -/
def definitionErrors (terminals : Array Terminal) (reductions : Array Reduction)
    (rows : Array Row) : List DefinitionError :=
  let extent : Extent := ⟨terminals.size, reductions.size, rows.size⟩
  (if rows.isEmpty then [.emptyStates] else []) ++
    (if (reductions[0]?).any (·.arity = 1) then [] else [.missingAccept]) ++
    rows.toList.zipIdx.flatMap fun (row, source) => extent.rowErrors source row

/-- The table of one start symbol. -/
structure ParseTable where
  startSymbol : String
  terminals : Array Terminal
  reductions : Array Reduction
  rows : Array Row
  valid : definitionErrors terminals reductions rows = []

namespace ParseTable

/-- Puts a table together, unless something is wrong with it. -/
def assemble (startSymbol : String) (terminals : Array Terminal) (reductions : Array Reduction)
    (rows : Array Row) : Except DefinitionError ParseTable :=
  match h : definitionErrors terminals reductions rows with
  | [] => .ok ⟨startSymbol, terminals, reductions, rows, h⟩
  | error :: _ => .error error

def numStates (t : ParseTable) : Nat := t.rows.size

/-- The row of a state. -/
def row (t : ParseTable) (id : StateId) : Row := (t.rows[id]?).getD {}

/-- The reduction with a number. -/
def reduction (t : ParseTable) (id : ReductionId) : Reduction := (t.reductions[id]?).getD .accept

/-- The terminals with their numbers, in the order of their priority. -/
def numbered (t : ParseTable) : List (Terminal × TerminalId) :=
  t.terminals.toList.zipIdx.map fun (terminal, i) => (terminal, TerminalId.ofIndex i)

/-- In 16 bits, each of up to 65536 terminals gets a number of its own. -/
theorem numbered_eq {t : ParseTable} (h : t.terminals.size ≤ UInt16.size) :
    t.numbered = t.terminals.toList.zipIdx := by
  have hmap : t.numbered = t.terminals.toList.zipIdx.map id := by
    apply List.map_congr_left
    rintro ⟨u, i⟩ hmem
    have hlt : i < t.terminals.size := by
      have := List.snd_lt_of_mem_zipIdx hmem
      simpa using this
    exact congrArg (u, ·) (TerminalId.ofIndex_of_lt (Nat.lt_of_lt_of_le hlt h))
  rw [hmap, List.map_id]

/-- The pattern of a terminal. -/
def pattern (t : ParseTable) (id : TerminalId) : String :=
  ((t.terminals[id]?).map (·.pattern)).getD ""

def reductionText (t : ParseTable) (id : ReductionId) : String :=
  s!"reduce({(t.reduction id).name}/{(t.reduction id).arity})"

def actionText (t : ParseTable) : Action → String
  | .shift next => s!"shift({stateText next})"
  | .reduce id => t.reductionText id

def rowText (t : ParseTable) (row : Row) : String :=
  let actions := row.actions.map fun (terminal, action) =>
    s!"- /{t.pattern terminal}/ => {t.actionText action}\n"
  let gotos := row.gotos.map fun (name, next) => s!"- {name} => goto({stateText next})\n"
  let otherwise := row.otherwise.map fun id => s!"## otherwise => {t.reductionText id}\n"
  (if actions.isEmpty then "" else "## actions\n" ++ String.join actions) ++
    (if gotos.isEmpty then "" else "## gotos\n" ++ String.join gotos) ++ otherwise.getD ""

def text (t : ParseTable) : String :=
  s!"## start symbol: {t.startSymbol}\n" ++ String.join (t.rows.toList.zipIdx.map fun (row, id) =>
    s!"\n#### State {stateText id}\n{t.rowText row}")

end ParseTable

end Reformat
