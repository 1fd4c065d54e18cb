import Reformat.Alphabet
import Reformat.Unicode.Property

/-!
The characters of identifiers. Those of ASCII are told without a search.
-/

namespace Reformat.Unicode

/-- An underscore does not start an identifier by its properties, but it continues one. -/
def alphabet : Alphabet where
  isStart c := if c.toNat < 0x80 then c.isAlpha else identifierStart.contains c
  isContinue c := if c.toNat < 0x80 then c.isAlphanum || c = '_' else identifierContinue.contains c
  dollar := rfl

end Reformat.Unicode
