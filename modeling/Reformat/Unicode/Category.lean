import Reformat.CharSet
import Reformat.Unicode.CategoryTable

/-!
General categories of characters: the category of each, and the characters of each.
-/

namespace Reformat.Unicode

/-- The general categories, under their usual two letters. -/
inductive Category where
  | lu | ll | lt | lm | lo
  | mn | mc | me
  | nd | nl | no
  | pc | pd | ps | pe | pi | pf | po
  | sm | sc | sk | so
  | zs | zl | zp
  | cc | cf | cs | co | cn
  deriving DecidableEq, Inhabited

namespace Category

/-- The category with the given two letters. -/
def ofCode : List Char → Category
  | ['L', 'u'] => lu | ['L', 'l'] => ll | ['L', 't'] => lt | ['L', 'm'] => lm | ['L', 'o'] => lo
  | ['M', 'n'] => mn | ['M', 'c'] => mc | ['M', 'e'] => me
  | ['N', 'd'] => nd | ['N', 'l'] => nl | ['N', 'o'] => no
  | ['P', 'c'] => pc | ['P', 'd'] => pd | ['P', 's'] => ps | ['P', 'e'] => pe
  | ['P', 'i'] => pi | ['P', 'f'] => pf | ['P', 'o'] => po
  | ['S', 'm'] => sm | ['S', 'c'] => sc | ['S', 'k'] => sk | ['S', 'o'] => so
  | ['Z', 's'] => zs | ['Z', 'l'] => zl | ['Z', 'p'] => zp
  | ['C', 'c'] => cc | ['C', 'f'] => cf | ['C', 's'] => cs | ['C', 'o'] => co
  | _ => cn

def isLetter (k : Category) : Bool := k ∈ [lu, ll, lt, lm, lo]

def isMark (k : Category) : Bool := k ∈ [mn, mc, me]

/-- The runs of characters of one category, in ascending order, each with its first code point. -/
@[irreducible] def runs : Array (Nat × Category) :=
  ((CharSet.words categoryText.toList).map fun word =>
    let digits := word.takeWhile fun c => !c.isUpper
    (CharSet.hexValue digits, ofCode (word.drop digits.length))).toArray

/-- The last run between positions `lo` and `hi` that starts at or before `n`. -/
def search (runs : Array (Nat × Category)) (n lo hi : Nat) : Nat :=
  if lo + 1 < hi then
    let mid := (lo + hi) / 2
    if ((runs[mid]?).map (·.1)).getD 0 ≤ n then search runs n mid hi else search runs n lo mid
  else lo
termination_by hi - lo

/-- The category of code point `n`, where the runs of the categories are given. -/
def lookup (runs : Array (Nat × Category)) (n : Nat) : Category :=
  ((runs[search runs n 0 runs.size]?).map (·.2)).getD cn

/-- The category of a character. -/
def of (c : Char) : Category := lookup runs c.toNat

/-- The characters whose category satisfies `p`. -/
def charSet (p : Category → Bool) : CharSet :=
  let bounds := runs.toList
  let ends := (bounds.drop 1).map (·.1 - 1) ++ [CharSet.last]
  CharSet.join ((bounds.zip ends).filterMap fun (run, hi) =>
    if p run.2 then some (run.1, hi) else none)

end Category

end Reformat.Unicode
