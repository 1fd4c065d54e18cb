import Reformat.ParseTable

/-!
Attempts to parse the start of a text with a table. An attempt shifts terminals onto a stack and
reduces rules on top of it; it gives up when it has reduced too often without consuming anything.
-/

namespace Reformat

/-- An inconsistency of a table, as opposed to an error in the text. -/
inductive InternalError where
  | missingGoto (state : StateId) (symbol : String)
  | stackUnderflow (symbol : String)
  | template (symbol : String) (error : TemplateError)
  | unbalancedAccept (remaining : Nat)
  deriving DecidableEq

namespace InternalError

def text : InternalError → String
  | missingGoto state symbol => s!"no goto on `{symbol}' from {stateText state}"
  | stackUnderflow symbol => s!"the parse stack underflowed while reducing `{symbol}'"
  | template symbol _ => s!"failed to render `{symbol}'"
  | unbalancedAccept remaining => s!"accepted with {remaining} element(s) left on the stack"

/-- The texts of the errors behind an error. -/
def causes : InternalError → List String
  | template _ error => [error.text]
  | _ => []

end InternalError

/-- Why an attempt fails. -/
inductive AttemptError where
  | syntaxError (offset : Nat)
  | stalled (offset : Nat)
  | internal (error : InternalError)
  deriving DecidableEq

namespace AttemptError

def text : AttemptError → String
  | syntaxError offset => s!"syntax error at byte {offset}"
  | stalled offset => s!"reductions at byte {offset} do not make progress"
  | internal error => error.text

def causes : AttemptError → List String
  | internal error => error.causes
  | _ => []

end AttemptError

/-- What a parse consumed, from byte `start` up to byte `stop`, and the text made of it. -/
structure Match where
  start : Nat
  stop : Nat
  output : String
  deriving DecidableEq

namespace Match

def length (m : Match) : Nat := m.stop - m.start

def isEmpty (m : Match) : Bool := m.start = m.stop

end Match

/-- A symbol on the stack with its text, and the state that it was pushed in. -/
structure Frame where
  state : StateId
  symbol : Symbol
  text : String
  deriving DecidableEq

/-- What an attempt does next. -/
inductive Move where
  | shift (terminal : TerminalId) (next : StateId) (length : Nat)
  | reduce (id : ReductionId)
  deriving DecidableEq

namespace ParseTable

/-- The first terminal that matches and has a wanted action in a row, with the action and the
number of characters that match. -/
def firstMatch? (t : ParseTable) (row : Row) (text : List Char) (wanted : Action → Bool) :
    Option (TerminalId × Action × Nat) :=
  t.numbered.findSome? fun (terminal, id) =>
    match row.action? id with
    | none => none
    | some action =>
      if wanted action then (terminal.matchLength? text).map fun n => (id, action, n) else none

/-- The action for a text: the first terminal that matches and can be shifted wins, and one that
asks for a reduction counts only if there is none. -/
def nextAction? (t : ParseTable) (state : StateId) (text : List Char) :
    Option (TerminalId × Action × Nat) :=
  let row := t.row state
  (t.firstMatch? row text (· matches .shift _)).or (t.firstMatch? row text (· matches .reduce _))

/-- The move for a text. Where no terminal is of use, the row may still have a reduction. -/
def move? (t : ParseTable) (state : StateId) (text : List Char) : Option Move :=
  match t.nextAction? state text with
  | some (terminal, .shift next, n) => some (.shift terminal next n)
  | some (_, .reduce id, _) => some (.reduce id)
  | none => (t.row state).otherwise.map .reduce

end ParseTable

/-- An attempt at some step: the state and the stack with its top first, the text from byte
`offset` on, the reductions since the last shift, and how many of these are allowed. -/
structure Attempt where
  state : StateId
  stack : List Frame
  rest : List Char
  offset : Nat
  idle : Nat
  limit : Nat

/-- A parse that was accepted: its text, where it ended and what is left of the input. -/
structure Parse where
  output : String
  stop : Nat
  rest : List Char

namespace Attempt

/-- The number of reductions that are allowed on a stack of some depth before the next shift. -/
def idleLimit (t : ParseTable) (depth : Nat) : Nat := (depth + 1) * (t.numStates + 1)

/-- The attempt before its first step. -/
def initial (t : ParseTable) (rest : List Char) (offset : Nat) : Attempt where
  state := 0
  stack := []
  rest
  offset
  idle := 0
  limit := idleLimit t 0

/-- Consumes `length` characters as a terminal. -/
def shift (t : ParseTable) (a : Attempt) (terminal : TerminalId) (next : StateId)
    (length : Nat) : Attempt where
  state := next
  stack := ⟨a.state, .terminal (t.pattern terminal), String.ofList (a.rest.take length)⟩ :: a.stack
  rest := a.rest.drop length
  offset := a.offset + Text.byteLength (a.rest.take length)
  idle := 0
  limit := idleLimit t (a.stack.length + 1)

/-- Takes `n` frames off the stack, and puts the lowest of them first. -/
def takeFrames? : (n : Nat) → (stack taken : List Frame) → Option (List Frame × List Frame)
  | 0, stack, taken => some (taken, stack)
  | _ + 1, [], _ => none
  | n + 1, frame :: stack, taken => takeFrames? n stack (frame :: taken)

/-- Replaces the parts of a rule on the stack by the nonterminal that they make up. -/
def reduce (t : ParseTable) (a : Attempt) (id : ReductionId) :
    Step Attempt (Except AttemptError Parse) :=
  let reduction := t.reduction id
  match takeFrames? reduction.arity a.stack [] with
  | none => .done (.error (.internal (.stackUnderflow reduction.name)))
  | some (parts, stack) =>
    let exposed := (parts.head?.map (·.state)).getD a.state
    match reduction.template.render (parts.map (·.text)) with
    | .error error => .done (.error (.internal (.template reduction.name error)))
    | .ok text =>
      if id = 0 then
        if stack.isEmpty then .done (.ok ⟨text, a.offset, a.rest⟩)
        else .done (.error (.internal (.unbalancedAccept stack.length)))
      else
        match (t.row exposed).goto? reduction.name with
        | none => .done (.error (.internal (.missingGoto exposed reduction.name)))
        | some next =>
          .next { a with
            state := next
            stack := ⟨exposed, .nonterminal reduction.name, text⟩ :: stack
            idle := a.idle + 1 }

/-- A step that pays no regard to the number of reductions. -/
def freeStep (t : ParseTable) (a : Attempt) : Step Attempt (Except AttemptError Parse) :=
  match t.move? a.state a.rest with
  | none => .done (.error (.syntaxError a.offset))
  | some (.shift terminal next n) => .next (a.shift t terminal next n)
  | some (.reduce id) => a.reduce t id

/-- Whether the next move is a reduction, and one too many. -/
def isSpent (t : ParseTable) (a : Attempt) : Bool :=
  a.limit ≤ a.idle && t.move? a.state a.rest matches some (.reduce _)

/-- A step of an attempt, which gives up where it is spent. -/
def step (t : ParseTable) (a : Attempt) : Step Attempt (Except AttemptError Parse) :=
  if a.isSpent t then .done (.error (.stalled a.offset)) else a.freeStep t

/-- A bound on the steps of an attempt with `states` states on `length` characters, where the stack
has the given depth and so many reductions are left. -/
def stepBound (states : Nat) : (length depth left : Nat) → Nat
  | 0, _, left => left
  | length + 1, depth, left =>
    left + 1 + stepBound states length (depth + left + 1) ((depth + left + 2) * (states + 1))

theorem stepBound_mono (states : Nat) {m n d e k l : Nat} (hm : m ≤ n) (hd : d ≤ e) (hk : k ≤ l) :
    stepBound states m d k ≤ stepBound states n e l := by
  induction n generalizing m d e k l with
  | zero =>
    obtain rfl := Nat.le_zero.1 hm
    simpa [stepBound] using hk
  | succ n ih =>
    cases m with
    | zero =>
      simp only [stepBound]
      omega
    | succ m =>
      have := ih (by omega : m ≤ n) (by omega : d + k + 1 ≤ e + l + 1)
        (Nat.mul_le_mul_right (states + 1) (by omega : d + k + 2 ≤ e + l + 2))
      simp only [stepBound]
      omega

theorem stepBound_shift (states : Nat) {m n d l : Nat} (hm : m < n) :
    stepBound states m (d + 1) ((d + 2) * (states + 1)) < stepBound states n d l := by
  cases n with
  | zero => omega
  | succ n =>
    have := stepBound_mono states (by omega : m ≤ n) (by omega : d + 1 ≤ d + l + 1)
      (Nat.mul_le_mul_right (states + 1) (by omega : d + 2 ≤ d + l + 2))
    simp only [stepBound]
    omega

theorem stepBound_reduce (states : Nat) {n d e l : Nat} (he : e ≤ d + 1) :
    stepBound states n e l < stepBound states n d (l + 1) := by
  cases n with
  | zero => simp [stepBound]
  | succ n =>
    have := stepBound_mono states (Nat.le_refl n) (by omega : e + l + 1 ≤ d + (l + 1) + 1)
      (Nat.mul_le_mul_right (states + 1) (by omega : e + l + 2 ≤ d + (l + 1) + 2))
    simp only [stepBound]
    omega

theorem length_of_takeFrames? {n : Nat} {stack taken parts below : List Frame}
    (h : takeFrames? n stack taken = some (parts, below)) : below.length ≤ stack.length := by
  fun_induction takeFrames? n stack taken with
  | case1 => simp_all
  | case2 => simp at h
  | case3 n taken frame stack ih =>
    have := ih h
    simp only [List.length_cons]
    omega

/-- A reduction adds at most one frame and counts as one. -/
theorem next_of_reduce {t : ParseTable} {a b : Attempt} {id : ReductionId}
    (h : a.reduce t id = .next b) : b.rest = a.rest ∧ b.limit = a.limit ∧ b.idle = a.idle + 1 ∧
      b.stack.length ≤ a.stack.length + 1 := by
  unfold reduce at h
  simp only at h
  split at h
  · simp at h
  · next parts stack htake =>
    split at h
    · simp at h
    · split at h
      · split at h <;> simp at h
      · split at h
        · simp at h
        · obtain rfl := Step.next.inj h
          have := length_of_takeFrames? htake
          exact ⟨rfl, rfl, rfl, by simp only [List.length_cons]; omega⟩

theorem matchLength?_of_firstMatch? {t : ParseTable} {row : Row} {text : List Char}
    {wanted : Action → Bool} {terminal : TerminalId} {action : Action} {n : Nat}
    (h : t.firstMatch? row text wanted = some (terminal, action, n)) :
    ∃ u : Terminal, (u, terminal) ∈ t.numbered ∧ row.action? terminal = some action ∧
      wanted action = true ∧ u.matchLength? text = some n := by
  obtain ⟨⟨u, id⟩, hmem, hu⟩ := List.exists_of_findSome?_eq_some h
  simp only at hu
  split at hu
  · simp at hu
  · next action' hrow =>
    split at hu
    · next hw =>
      obtain ⟨k, hk, he⟩ := Option.map_eq_some_iff.1 hu
      simp only [Prod.mk.injEq] at he
      obtain ⟨rfl, rfl, rfl⟩ := he
      exact ⟨u, hmem, hrow, hw, hk⟩
    · simp at hu

/-- A shift consumes at least one character of the text. -/
theorem length_of_shift {t : ParseTable} {state next : StateId} {text : List Char}
    {terminal : TerminalId} {n : Nat} (h : t.move? state text = some (.shift terminal next n)) :
    0 < n ∧ n ≤ text.length := by
  unfold ParseTable.move? ParseTable.nextAction? at h
  split at h
  · next terminal' next' n' hnext =>
    simp only [Option.some.injEq, Move.shift.injEq] at h
    obtain ⟨rfl, rfl, rfl⟩ := h
    rcases Option.or_eq_some_iff.1 hnext with h | ⟨_, h⟩ <;>
      obtain ⟨u, _, _, _, hu⟩ := matchLength?_of_firstMatch? h <;>
      exact ⟨Terminal.matchLength?_pos hu, Terminal.matchLength?_le hu⟩
  · simp at h
  · simp at h

/-- The machine of attempts with a table. -/
def machine (t : ParseTable) : Machine Attempt (Except AttemptError Parse) where
  step := step t
  weight a := stepBound t.numStates a.rest.length a.stack.length (a.limit - a.idle)
  lighter := by
    intro a b h
    unfold step at h
    split at h
    · simp at h
    · next hspent =>
      unfold freeStep at h
      split at h
      · simp at h
      · next terminal next n hmove =>
        obtain rfl := Step.next.inj h
        have hn := length_of_shift hmove
        refine stepBound_shift t.numStates ?_
        simp only [shift, List.length_drop]
        omega
      · next id hmove =>
        obtain ⟨hrest, hlimit, hidle, hdepth⟩ := next_of_reduce h
        have hlt : a.idle < a.limit := by
          simp [isSpent, hmove] at hspent
          exact hspent
        rw [hrest, hlimit, hidle, show a.limit - a.idle = a.limit - (a.idle + 1) + 1 by omega]
        exact stepBound_reduce t.numStates hdepth

end Attempt

namespace ParseTable

/-- Parses the start of a text that begins at byte `offset` of the input. -/
def attempt (t : ParseTable) (rest : List Char) (offset : Nat) : Except AttemptError Parse :=
  (Attempt.machine t).run (.initial t rest offset)

/-- Parses a prefix of the input from byte `start` on, which must lie between two characters. -/
def parseAt (t : ParseTable) (input : String) (start : Nat) : Except AttemptError Match :=
  match Text.dropBytes? start input.toList with
  | none => .error (.syntaxError start)
  | some rest => (t.attempt rest start).map fun parse => ⟨start, parse.stop, parse.output⟩

end ParseTable

end Reformat
