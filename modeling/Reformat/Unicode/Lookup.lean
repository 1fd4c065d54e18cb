import Reformat.Unicode.Property
import Reformat.Unicode.Script

/-!
Sets of characters by the names of their properties.
-/

namespace Reformat.Unicode

/-- Loose names of categories and of groups of categories. -/
def categoryNames : List (List String × List Category) := [
  (["l", "letter"], [.lu, .ll, .lt, .lm, .lo]),
  (["lc", "casedletter"], [.lu, .ll, .lt]),
  (["lu", "uppercaseletter"], [.lu]),
  (["ll", "lowercaseletter"], [.ll]),
  (["lt", "titlecaseletter"], [.lt]),
  (["lm", "modifierletter"], [.lm]),
  (["lo", "otherletter"], [.lo]),
  (["m", "mark", "combiningmark"], [.mn, .mc, .me]),
  (["mn", "nonspacingmark"], [.mn]),
  (["mc", "spacingmark"], [.mc]),
  (["me", "enclosingmark"], [.me]),
  (["n", "number"], [.nd, .nl, .no]),
  (["nd", "decimalnumber", "digit"], [.nd]),
  (["nl", "letternumber"], [.nl]),
  (["no", "othernumber"], [.no]),
  (["p", "punctuation", "punct"], [.pc, .pd, .ps, .pe, .pi, .pf, .po]),
  (["pc", "connectorpunctuation"], [.pc]),
  (["pd", "dashpunctuation"], [.pd]),
  (["ps", "openpunctuation"], [.ps]),
  (["pe", "closepunctuation"], [.pe]),
  (["pi", "initialpunctuation"], [.pi]),
  (["pf", "finalpunctuation"], [.pf]),
  (["po", "otherpunctuation"], [.po]),
  (["s", "symbol"], [.sm, .sc, .sk, .so]),
  (["sm", "mathsymbol"], [.sm]),
  (["sc", "currencysymbol"], [.sc]),
  (["sk", "modifiersymbol"], [.sk]),
  (["so", "othersymbol"], [.so]),
  (["z", "separator"], [.zs, .zl, .zp]),
  (["zs", "spaceseparator"], [.zs]),
  (["zl", "lineseparator"], [.zl]),
  (["zp", "paragraphseparator"], [.zp]),
  (["c", "other"], [.cc, .cf, .cs, .co, .cn]),
  (["cc", "control", "cntrl"], [.cc]),
  (["cf", "format"], [.cf]),
  (["cs", "surrogate"], [.cs]),
  (["co", "privateuse"], [.co]),
  (["cn", "unassigned"], [.cn])]

/-- The characters of a category or group of categories. -/
def categorySet? (name : List Char) : Option CharSet :=
  match String.ofList name with
  | "any" => some .all
  | "ascii" => some (.ofNotation "0-7f")
  | "assigned" => some (Category.charSet (· ≠ .cn))
  | name => (categoryNames.find? fun entry => name ∈ entry.1).map fun entry =>
    Category.charSet (· ∈ entry.2)

/-- The characters that have a property. -/
def binarySet? (name : List Char) : Option CharSet :=
  match String.ofList name with
  | "alphabetic" | "alpha" => some alphabetic
  | "asciihexdigit" | "ahex" => some (.ofNotation "30-39 41-46 61-66")
  | "hexdigit" | "hex" => some (.ofNotation "30-39 41-46 61-66 ff10-ff19 ff21-ff26 ff41-ff46")
  | "joincontrol" | "joinc" => some (.ofNotation "200c-200d")
  | "lowercase" | "lower" => some lowercase
  | "uppercase" | "upper" => some uppercase
  | "whitespace" | "wspace" | "space" => some whiteSpace
  | "xidcontinue" | "xidc" => some identifierContinue
  | "xidstart" | "xids" => some identifierStart
  | _ => none

/-- The characters that a name stands for: a property, a category or a script. -/
def namedSet? (name : List Char) : Option CharSet :=
  let name := if name.map Char.toLower = ['i', 's', 'c'] then ['i', 's', 'c'] else looseName name
  binarySet? name <|> categorySet? name <|> script? name

/-- The characters for which a property has a value. -/
def valuedSet? (property value : List Char) : Option CharSet :=
  match String.ofList (looseName property) with
  | "generalcategory" | "gc" => categorySet? (looseName value)
  | "script" | "sc" => script? (looseName value)
  | _ => none

end Reformat.Unicode
