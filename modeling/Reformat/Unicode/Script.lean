import Reformat.CharSet
import Reformat.Unicode.ScriptTable

/-!
The characters of each script, found by one of its names.
-/

namespace Reformat.Unicode

/-- A name without spaces, hyphens, underscores and the prefix `is`, in lower case. -/
def looseName (name : List Char) : List Char :=
  let name := match name with
    | c :: d :: rest => if c.toLower = 'i' && d.toLower = 's' then rest else name
    | _ => name
  (name.filter fun c => c.toNat < 0x80 && c ∉ [' ', '-', '_']).map Char.toLower

/-- The characters of the script of the given loose name. -/
def script? (name : List Char) : Option CharSet :=
  (scriptTexts.find? fun s => (CharSet.words s.1.toList).any fun n => looseName n = name).map
    fun s => .ofNotation s.2

end Reformat.Unicode
