import Reformat.Pattern.Parser
import Reformat.Pattern.Regex

/-!
Expressions as instructions, run on all preferences side by side. Of the matches at the start of a
text the preferred one wins: the earlier alternative, and the greedier repetition.
-/

namespace Reformat.Pattern

/-- An instruction names those that may follow it. -/
inductive Instruction where
  | char (set : CharSet) (next : Nat)
  | split (preferred other : Nat)
  | look (condition : Look) (next : Nat)
  | accept

/-- Instructions, of which one comes first. -/
structure Program where
  instructions : Array Instruction
  start : Nat

namespace Program

/-- Prefers to go on where a repetition is greedy. -/
def choice (greedy : Bool) (goOn stop : Nat) : Instruction :=
  if greedy then .split goOn stop else .split stop goOn

/-- Adds instructions `n` times over, each time in front of those that were added before. -/
def times (add : Nat → Array Instruction → Nat × Array Instruction) :
    Nat → Nat → Array Instruction → Nat × Array Instruction
  | 0, next, code => (next, code)
  | n + 1, next, code =>
    let (start, code) := add next code
    times add n start code

/-- Adds the instructions for an expression, to be followed by instruction `next`, and tells which
of them comes first. -/
def emit (next : Nat) (code : Array Instruction) : Regex → Nat × Array Instruction
  | .empty => (next, code)
  | .set s => (code.size, code.push (.char s next))
  | .look l => (code.size, code.push (.look l next))
  | .sequence a b =>
    let (start, code) := emit next code b
    emit start code a
  | .alternatives a b =>
    let (other, code) := emit next code b
    let (preferred, code) := emit next code a
    (code.size, code.push (.split preferred other))
  | .repetition body least (some most) greedy =>
    let optional (goOn : Nat) (code : Array Instruction) :=
      let (start, code) := emit goOn code body
      (code.size, code.push (choice greedy start next))
    let (start, code) := times optional (most - least) next code
    times (fun next code => emit next code body) least start code
  | .repetition body least none greedy =>
    let again := code.size
    let (start, code) := emit again (code.push .accept) body
    let code := code.setIfInBounds again (choice greedy start next)
    if least = 0 then (code.size, code.push (choice greedy start next))
    else times (fun next code => emit next code body) (least - 1) start code

/-- The program of an expression. -/
def ofRegex (r : Regex) : Program :=
  let (start, code) := emit 0 #[.accept] r
  ⟨code, start⟩

theorem count_set_lt (visited : Array Bool) (i : Nat) (h : i < visited.size)
    (hv : ¬ visited[i] = true) : (visited.set i true).count false < visited.count false := by
  have hf : visited[i] = false := by simpa using hv
  have hpos : 0 < visited.count false := Array.count_pos_iff.2 (hf ▸ Array.getElem_mem h)
  rw [Array.count_set, hf, if_pos (beq_self_eq_true false), if_neg (by decide)]
  omega

/-- The instructions that wait for a character or accept and are reached from those on the stack
without reading, preferred ones first. Each instruction is visited once. -/
def reach (p : Program) (before after : Option Char) (visited : Array Bool) (found : List Nat) :
    List Nat → List Nat
  | [] => found.reverse
  | i :: stack =>
    if h : i < visited.size then
      if hv : visited[i] = true then p.reach before after visited found stack
      else
        have := count_set_lt visited i h hv
        match p.instructions[i]? with
        | some (.split preferred other) =>
          p.reach before after (visited.set i true) found (preferred :: other :: stack)
        | some (.look condition next) =>
          if condition.holds before after then
            p.reach before after (visited.set i true) found (next :: stack)
          else p.reach before after (visited.set i true) found stack
        | some _ => p.reach before after (visited.set i true) (i :: found) stack
        | none => p.reach before after (visited.set i true) found stack
    else p.reach before after visited found stack
termination_by stack => 2 * visited.count false + stack.length
decreasing_by all_goals simp only [List.length_cons]; omega

def isAccept (p : Program) (i : Nat) : Bool := p.instructions[i]? matches some .accept

/-- Where an instruction goes on after a character that it waits for. -/
def advance? (p : Program) (c : Char) (i : Nat) : Option Nat :=
  match p.instructions[i]? with
  | some (.char set next) => if set.contains c then some next else none
  | _ => none

/-- Runs from the given instructions, preferred ones first, with the character before the text, the
number of characters read and the preferred match so far. Once an instruction accepts, the ones
after it are given up. -/
def run (p : Program) (before : Option Char) (count : Nat) (best : Option Nat)
    (starts : List Nat) (text : List Char) : Option Nat :=
  let live := p.reach before text.head? (Array.replicate p.instructions.size false) [] starts
  let best := if live.any p.isAccept then some count else best
  match text with
  | [] => best
  | c :: rest =>
    match (live.takeWhile (!p.isAccept ·)).filterMap (p.advance? c) with
    | [] => best
    | starts => p.run (some c) (count + 1) best starts rest

/-- The number of characters that the preferred match at the start of a text holds. -/
def matchLength? (p : Program) (text : List Char) : Option Nat := p.run none 0 none [p.start] text

end Program

end Reformat.Pattern
