import Reformat.Formatter

/-!
The events of analysing, generating, parsing and scanning, in the order in which they happen.
-/

namespace Reformat

/-- How much an event matters. -/
inductive Level where
  | trace
  | debug
  | warn
  deriving DecidableEq

/-- What can be told while the work goes on. -/
inductive Event where
  | startSymbols (names : List String)
  | statesFound (count : Nat)
  | automatonMade (grammar : Augmented) (automaton : Automaton)
  | conflictResolved (state : StateId) (winner : Rule)
  | tableMade (states : Nat)
  | stuck (state : StateId)
  | shifted (pattern text : String) (source target : StateId)
  | reduced (name : String) (captures : List String) (text : String)
  | gaveUp (limit offset : Nat)
  | matched (start stop : Nat) (symbol : String)
  | matchedNothing (symbol : String) (offset : Nat)
  | failed (symbol : String) (error : AttemptError)

namespace Event

def level : Event → Level
  | startSymbols .. | conflictResolved .. | tableMade .. => .debug
  | gaveUp .. => .warn
  | _ => .trace

def text : Event → String
  | startSymbols names => s!"start symbols: {Quoted.quoteList names}"
  | statesFound count => s!"{count} states"
  | automatonMade grammar automaton => s!"automaton:\n{automaton.text grammar}"
  | conflictResolved state winner =>
    s!"{stateText state}: conflict resolved in favor of `{winner.text}'"
  | tableMade states => s!"{states} states"
  | stuck state => s!"no usable terminal in {stateText state}"
  | shifted pattern text source target =>
    s!"shift /{pattern}/ {Quoted.quote text}: {stateText source} -> {stateText target}"
  | reduced name captures text =>
    s!"reduce {name} {Quoted.quoteList captures} => {Quoted.quote text}"
  | gaveUp limit offset =>
    s!"giving up after {limit} reductions without consuming input at byte {offset}"
  | matched start stop symbol => s!"matched {start}..{stop} with `{symbol}'"
  | matchedNothing symbol offset => s!"`{symbol}' matched nothing at {offset}"
  | failed symbol error => s!"`{symbol}' failed: {error.text}"

end Event

namespace Grammar

/-- The events of an analysis. -/
def analyzeEvents (g : Grammar) : List Event := [.startSymbols g.startSymbols]

/-- The conflicts in the states of an automaton. -/
def conflictEvents (g : Augmented) (automaton : Automaton) : List Event :=
  automaton.states.toList.zipIdx.filterMap fun (state, id) =>
    if state.hasConflict then
      (state.winner?.bind g.rule?).map (.conflictResolved id ·)
    else none

/-- The events of making an automaton. -/
def automatonEvents (automaton : Automaton) : List Event := [.statesFound automaton.states.size]

/-- The events of making a table. -/
def generateEvents (g : Grammar) (analysis : Analysis) (start : String) : List Event :=
  if !analysis.errors.isEmpty || !g.isDefined start then []
  else
    let augmented : Augmented := ⟨g, start⟩
    let automaton := augmented.automaton
    automatonEvents automaton ++ [.automatonMade augmented automaton] ++
      match g.tableOf analysis.terminals start automaton with
      | .error .tooManyTerminals => []
      | .error _ => conflictEvents augmented automaton
      | .ok t => conflictEvents augmented automaton ++ [.tableMade t.numStates]

/-- The events of making the tables of several start symbols, up to the first that fails. -/
def generateAllEvents (g : Grammar) (analysis : Analysis) : List String → List Event
  | [] => []
  | start :: starts =>
    g.generateEvents analysis start ++
      match g.generate analysis start with
      | .ok _ => g.generateAllEvents analysis starts
      | .error _ => []

/-- The events of making a formatter with given start symbols. -/
def formatterEvents (g : Grammar) (engine : Engine) (starts : List String) : List Event :=
  let analysis := g.analyze engine
  g.analyzeEvents ++ if analysis.errors.isEmpty then g.generateAllEvents analysis starts else []

end Grammar

/-- The events of one step of an attempt. -/
def Attempt.events (t : ParseTable) (a : Attempt) : List Event :=
  match t.move? a.state a.rest with
  | none => [.stuck a.state]
  | some (.shift terminal next n) =>
    [.shifted (t.pattern terminal) (String.ofList (a.rest.take n)) a.state next]
  | some (.reduce id) =>
    if a.limit ≤ a.idle then [.gaveUp a.limit a.offset]
    else
      let reduction := t.reduction id
      match takeFrames? reduction.arity a.stack [] with
      | none => []
      | some (parts, _) =>
        let captures := parts.map (·.text)
        match reduction.template.render captures with
        | .error _ => []
        | .ok text => [.reduced reduction.name captures text]

namespace ParseTable

/-- The events of parsing the start of a text. -/
def attemptEvents (t : ParseTable) (rest : List Char) (offset : Nat) : List Event :=
  ((Attempt.machine t).visited (.initial t rest offset)).flatMap (Attempt.events t)

/-- The events of parsing a prefix of the input from byte `start` on. -/
def parseEvents (t : ParseTable) (input : String) (start : Nat) : List Event :=
  match Text.dropBytes? start input.toList with
  | none => []
  | some rest => t.attemptEvents rest start

end ParseTable

/-- The events of trying tables in order at one place of a document. -/
def trialEvents (rest : List Char) (offset : Nat) : List ParseTable → List Event
  | [] => []
  | t :: tables =>
    t.attemptEvents rest offset ++
      match t.attempt rest offset with
      | .ok parse =>
        if parse.rest.length < rest.length then [.matched offset parse.stop t.startSymbol]
        else .matchedNothing t.startSymbol offset :: trialEvents rest offset tables
      | .error (.internal _) => []
      | .error error => .failed t.startSymbol error :: trialEvents rest offset tables

/-- The events of a scan. -/
def scanEvents (tables : List ParseTable) (config : ScanConfig) (input : String) : List Event :=
  ((Scan.machine tables config input).visited { rest := input.toList }).flatMap fun s =>
    if s.rest.isEmpty then [] else trialEvents s.rest s.offset tables

end Reformat
