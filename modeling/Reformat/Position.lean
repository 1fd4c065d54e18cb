import Reformat.Text

/-!
Places in a text, for people (line and column) and for programs (byte offset).
-/

namespace Reformat

/-- Lines and columns count from one, and columns count characters; the offset counts bytes from
zero. -/
structure Position where
  line : Nat := 0
  column : Nat := 0
  offset : Nat := 0
  deriving DecidableEq, Inhabited

namespace Position

/-- The place right after the given characters, at byte `offset`. -/
def after (passed : List Char) (offset : Nat) : Position where
  line := 1 + passed.count '\n'
  column := 1 + (passed.reverse.takeWhile (· ≠ '\n')).length
  offset := offset

/-- The place of a byte; an offset past the end stands for the end. -/
def locate (text : String) (offset : Nat) : Position :=
  let stop := min offset (Text.byteLength text.toList)
  after (Text.startingBefore stop text.toList) stop

/-- A position is shown as its line and column. -/
def text (p : Position) : String := s!"{p.line}:{p.column}"

end Position

end Reformat
