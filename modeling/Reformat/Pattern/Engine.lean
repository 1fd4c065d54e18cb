import Reformat.Matcher
import Reformat.Pattern.Program

/-!
An engine that runs patterns as programs.
-/

namespace Reformat.Pattern

/-- The program matches at the start of a text. -/
def Program.matcher (p : Program) : Matcher where
  find? text := (p.matchLength? text).map fun n => Text.byteLength (text.take n)
  boundary := by
    intro text stop h
    obtain ⟨n, -, rfl⟩ := Option.map_eq_some_iff.mp h
    refine ⟨text.drop n, ?_⟩
    conv => enter [1, 2]; rw [← List.take_append_drop n text]
    exact Text.dropBytes?_byteLength_append (text.take n) (text.drop n)

/-- The number of bytes that a program may take at most. -/
def maxCost : Nat := 10485760

/-- The program of a pattern, unless the pattern is malformed or too large. -/
def compile? (pattern : String) : Option Program := do
  let (r, _) ← (← Expr.parse? pattern).regex? {}
  if r.cost ≤ maxCost then some (.ofRegex r) else none

/-- The engine of programs. It does not tell what is wrong with a pattern. -/
def engine : Engine where
  compile pattern :=
    match compile? pattern with
    | some program => .ok program.matcher
    | none => .error "<regex>"

end Reformat.Pattern
