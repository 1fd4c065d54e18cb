import Reformat.Pattern.Syntax
import Reformat.Unicode.Folding
import Reformat.Unicode.Lookup

/-!
Patterns with their flags worked in: sets of characters, places, and what joins them.
-/

namespace Reformat.Pattern

/-- Conditions on a place; `unicode` tells which characters make up words. -/
inductive Look where
  | textStart
  | textEnd
  | lineStart (crlf : Bool)
  | lineEnd (crlf : Bool)
  | wordBoundary (unicode : Bool)
  | notWordBoundary (unicode : Bool)
  | wordStart (unicode : Bool)
  | wordEnd (unicode : Bool)
  | wordStartHalf (unicode : Bool)
  | wordEndHalf (unicode : Bool)
  deriving DecidableEq

/-- Whether a character is there and belongs to a word. -/
def inWord (unicode : Bool) : Option Char → Bool
  | none => false
  | some c =>
    if c.toNat < 0x80 then c.isAlphanum || c = '_'
    else unicode && Unicode.wordCharacters.contains c

/-- Whether a condition holds between two characters; at the ends of the text one is missing. -/
def Look.holds (before after : Option Char) : Look → Bool
  | textStart => before.isNone
  | textEnd => after.isNone
  | lineStart false => before.isNone || before = some '\n'
  | lineEnd false => after.isNone || after = some '\n'
  | lineStart true =>
    before.isNone || before = some '\n' || (before = some '\r' && after ≠ some '\n')
  | lineEnd true =>
    after.isNone || after = some '\r' || (after = some '\n' && before ≠ some '\r')
  | wordBoundary u => inWord u before ≠ inWord u after
  | notWordBoundary u => inWord u before = inWord u after
  | wordStart u => !inWord u before && inWord u after
  | wordEnd u => inWord u before && !inWord u after
  | wordStartHalf u => !inWord u before
  | wordEndHalf u => !inWord u after

/-- Regular expressions. Of two alternatives the first is preferred, and a greedy repetition prefers
to go on. -/
inductive Regex where
  | empty
  | set (s : CharSet)
  | look (l : Look)
  | sequence (a b : Regex)
  | alternatives (a b : Regex)
  | repetition (body : Regex) (least : Nat) (most : Option Nat) (greedy : Bool)

namespace Regex

/-- Whether only the empty text can match. -/
def consumesNothing : Regex → Bool
  | empty | look _ => true
  | set _ => false
  | sequence a b => a.consumesNothing && b.consumesNothing
  | alternatives a b => a.consumesNothing && b.consumesNothing
  | repetition body _ most _ => body.consumesNothing || most = some 0

/-- A repetition; more than one round is pointless where nothing is consumed. -/
def repeated (body : Regex) (least : Nat) (most : Option Nat) (greedy : Bool) : Regex :=
  if body.consumesNothing then repetition body (min least 1) (some (min (most.getD 1) 1)) greedy
  else repetition body least most greedy

/-- An estimate of the memory that an expression takes with its repetitions written out. -/
def cost : Regex → Nat
  | empty => 0
  | set s => 32 * max 1 s.ranges.length
  | look _ => 32
  | sequence a b => a.cost + b.cost
  | alternatives a b => a.cost + b.cost + 32
  | repetition body least most _ => (body.cost + 32) * max 1 (most.getD least)

end Regex

/-- The flags in force at a place of a pattern. -/
structure Flags where
  caseInsensitive : Bool := false
  multiLine : Bool := false
  dotAll : Bool := false
  lazyFirst : Bool := false
  unicode : Bool := true
  crlf : Bool := false

namespace Flags

def set (f : Flags) : Flag × Bool → Flags
  | (.caseInsensitive, b) => { f with caseInsensitive := b }
  | (.multiLine, b) => { f with multiLine := b }
  | (.dotAll, b) => { f with dotAll := b }
  | (.lazyFirst, b) => { f with lazyFirst := b }
  | (.unicode, b) => { f with unicode := b }
  | (.crlf, b) => { f with crlf := b }
  | (.verbose, _) => f

def change (f : Flags) (changes : FlagChange) : Flags := changes.foldl set f

/-- A set with the characters that the flags take for the same, or its complement. Without
`unicode` a complement would hold parts of characters, and is refused. -/
def close (f : Flags) (negated : Bool) (s : CharSet) : Option CharSet :=
  let s := if !f.caseInsensitive then s else if f.unicode then s.foldCase else s.foldAsciiCase
  if !negated then some s else if f.unicode then some s.complement else none

/-- The character of a literal; without `unicode` a byte must be one of ASCII. -/
def char? (f : Flags) (l : Literal) : Option Char :=
  if !f.unicode && l.isByte && l.char.toNat ≥ 0x80 then none else some l.char

/-- The character of a literal in brackets; without `unicode` it must be one of ASCII. -/
def classChar? (f : Flags) (l : Literal) : Option Char :=
  if !f.unicode && l.char.toNat ≥ 0x80 then none else some l.char

def shorthandSet (f : Flags) : Shorthand → CharSet
  | .digit => if f.unicode then Unicode.decimalDigits else .ofNotation "30-39"
  | .space => if f.unicode then Unicode.whiteSpace else .ofNotation "9-d 20"
  | .word => if f.unicode then Unicode.wordCharacters else .ofNotation "30-39 41-5a 5f 61-7a"

def shorthandSet? (f : Flags) (kind : Shorthand) (negated : Bool) : Option CharSet :=
  if !negated then some (f.shorthandSet kind)
  else if f.unicode then some (f.shorthandSet kind).complement else none

def propertySet? (f : Flags) (negated : Bool) (query : Query) : Option CharSet :=
  if !f.unicode then none
  else match query with
    | .named name => do f.close negated (← Unicode.namedSet? name)
    | .valued differs property value => do
      f.close (negated != differs) (← Unicode.valuedSet? property value)

def dotSet? (f : Flags) : Option CharSet :=
  if !f.unicode then none
  else if f.dotAll then some .all
  else if f.crlf then some (CharSet.ofString "\n\r").complement
  else some (CharSet.ofString "\n").complement

def look (f : Flags) : Assertion → Look
  | .lineStart => if f.multiLine then .lineStart f.crlf else .textStart
  | .lineEnd => if f.multiLine then .lineEnd f.crlf else .textEnd
  | .textStart => .textStart
  | .textEnd => .textEnd
  | .wordBoundary => .wordBoundary f.unicode
  | .notWordBoundary => .notWordBoundary f.unicode
  | .wordStart => .wordStart f.unicode
  | .wordEnd => .wordEnd f.unicode
  | .wordStartHalf => .wordStartHalf f.unicode
  | .wordEndHalf => .wordEndHalf f.unicode

end Flags

/-- The characters of a class. -/
def ClassSet.charSet? (f : Flags) : ClassSet → Option CharSet
  | empty => some .empty
  | literal l => (f.classChar? l).map .singleton
  | range a b => do return .range (← f.classChar? a) (← f.classChar? b)
  | posix set negated => f.close negated set
  | shorthand kind negated => f.shorthandSet? kind negated
  | property negated query => f.propertySet? negated query
  | union a b => do return (← a.charSet? f).union (← b.charSet? f)
  | operation op a b => do
    let left ← f.close false (← a.charSet? f)
    let right ← f.close false (← b.charSet? f)
    return match op with
      | .intersection => left.inter right
      | .difference => left.diff right
      | .symmetricDifference => left.symmDiff right
  | bracketed negated inner => do f.close negated (← inner.charSet? f)

/-- The expression of a pattern under given flags, with the flags that are in force after it. -/
def Expr.regex? (f : Flags) : Expr → Option (Regex × Flags)
  | empty => some (.empty, f)
  | flags changes => some (.empty, f.change changes)
  | literal l => do
    let c ← f.char? l
    let s ←
      if f.unicode || c.toNat < 0x80 then f.close false (.singleton c) else some (.singleton c)
    return (.set s, f)
  | dot => f.dotSet?.map fun s => (.set s, f)
  | assertion kind => some (.look (f.look kind), f)
  | shorthand kind negated => (f.shorthandSet? kind negated).map fun s => (.set s, f)
  | property negated query => (f.propertySet? negated query).map fun s => (.set s, f)
  | bracketed negated inner => do
    let s ← inner.charSet? f
    return (.set (← f.close negated s), f)
  | repetition body least most greedy => do
    let (r, f) ← body.regex? f
    return (.repeated r least most (greedy != f.lazyFirst), f)
  | group changes body => do
    let (r, _) ← body.regex? (f.change changes)
    return (r, f)
  | sequence a b => do
    let (r, f) ← a.regex? f
    let (s, f) ← b.regex? f
    return (.sequence r s, f)
  | alternatives a b => do
    let (r, f) ← a.regex? f
    let (s, f) ← b.regex? f
    return (.alternatives r s, f)

end Reformat.Pattern
