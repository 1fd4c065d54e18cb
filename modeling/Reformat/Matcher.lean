import Reformat.Text

/-!
Engines for regular expressions. What a pattern means is left to the engine; all that is known of a
match is that it ends between two characters of the text.
-/

namespace Reformat

/-- A compiled pattern, which finds at most one match in a text. -/
structure Matcher where
  /-- The byte at which the match ends. -/
  find? : List Char → Option Nat
  boundary : ∀ {text stop}, find? text = some stop → ∃ rest, Text.dropBytes? stop text = some rest

/-- An engine compiles patterns, or tells what is wrong with them. -/
structure Engine where
  compile : String → Except String Matcher

end Reformat
