/-!
Sets of characters as ranges of code points, closed under the Boolean operations.
-/

namespace Reformat

/-- Ranges of code points with both ends included, ascending and with gaps between them. -/
structure CharSet where
  ranges : List (Nat × Nat)
  deriving DecidableEq, Inhabited

namespace CharSet

/-- The largest code point. -/
def last : Nat := 0x10FFFF

/-- Joins a range with the ranges after it that touch or overlap it. -/
def absorb : Nat × Nat → List (Nat × Nat) → List (Nat × Nat)
  | range, [] => [range]
  | (lo, hi), (a, b) :: rest =>
    if a ≤ hi + 1 then absorb (lo, max hi b) rest else (lo, hi) :: absorb (a, b) rest

/-- Joins ranges that come in ascending order of their lower ends. -/
def join : List (Nat × Nat) → CharSet
  | [] => ⟨[]⟩
  | range :: rest => ⟨absorb range rest⟩

/-- The set of all characters in any of the ranges, given in any order. -/
def ofRanges (ranges : List (Nat × Nat)) : CharSet :=
  join (ranges.mergeSort fun x y => x.1 ≤ y.1)

def empty : CharSet := ⟨[]⟩

def all : CharSet := ⟨[(0, last)]⟩

/-- The characters from `lo` to `hi`. -/
def range (lo hi : Char) : CharSet := if lo ≤ hi then ⟨[(lo.toNat, hi.toNat)]⟩ else empty

def singleton (c : Char) : CharSet := range c c

/-- The characters of a text. -/
def ofString (s : String) : CharSet := ofRanges (s.toList.map fun c => (c.toNat, c.toNat))

def containsCode : List (Nat × Nat) → Nat → Bool
  | [], _ => false
  | (lo, hi) :: rest, n => if n < lo then false else n ≤ hi || containsCode rest n

def contains (s : CharSet) (c : Char) : Bool := containsCode s.ranges c.toNat

/-- The code points from `start` on that lie between the given ranges. -/
def gaps (start : Nat) : List (Nat × Nat) → List (Nat × Nat)
  | [] => if start ≤ last then [(start, last)] else []
  | (lo, hi) :: rest =>
    if start < lo then (start, lo - 1) :: gaps (hi + 1) rest else gaps (hi + 1) rest

def complement (s : CharSet) : CharSet := ⟨gaps 0 s.ranges⟩

def union (s t : CharSet) : CharSet := join (s.ranges.merge t.ranges fun x y => x.1 ≤ y.1)

def inter (s t : CharSet) : CharSet := (s.complement.union t.complement).complement

def diff (s t : CharSet) : CharSet := s.inter t.complement

def symmDiff (s t : CharSet) : CharSet := (s.union t).diff (s.inter t)

/-- The value of a hexadecimal digit. -/
def hexDigit? (c : Char) : Option Nat :=
  if '0' ≤ c ∧ c ≤ '9' then some (c.toNat - '0'.toNat)
  else if 'a' ≤ c ∧ c ≤ 'f' then some (c.toNat - 'a'.toNat + 10)
  else if 'A' ≤ c ∧ c ≤ 'F' then some (c.toNat - 'A'.toNat + 10)
  else none

/-- The value of a text of hexadecimal digits; other characters are passed over. -/
def hexValue (digits : List Char) : Nat :=
  (digits.filterMap hexDigit?).foldl (fun n d => 16 * n + d) 0

/-- The parts of a text between the places where a character stands. -/
def fields (mark : Char) (text : List Char) : List (List Char) :=
  text.foldr (fun c parts =>
    if c = mark then [] :: parts
    else match parts with
      | [] => [[c]]
      | part :: parts => (c :: part) :: parts) [[]]

/-- The words of a text, which blanks and ends of lines keep apart. -/
def words (text : List Char) : List (List Char) :=
  (fields ' ' (text.map fun c => if c = '\n' then ' ' else c)).filter (!·.isEmpty)

/-- Reads ranges in hexadecimal notation, such as `41-5a 5f 61-7a`. -/
def ofNotation (text : String) : CharSet :=
  ofRanges <| (words text.toList).filterMap fun word =>
    match fields '-' word with
    | [a] => some (hexValue a, hexValue a)
    | [a, b] => some (hexValue a, hexValue b)
    | _ => none

end CharSet

end Reformat
