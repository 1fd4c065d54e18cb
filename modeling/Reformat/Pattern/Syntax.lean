import Reformat.CharSet

/-!
Patterns as written: literals, classes, assertions, repetitions, groups and flags.
-/

namespace Reformat.Pattern

/-- The switches of a pattern. -/
inductive Flag where
  | caseInsensitive
  | multiLine
  | dotAll
  | lazyFirst
  | unicode
  | crlf
  | verbose
  deriving DecidableEq

/-- A list of flags to set or clear. -/
abbrev FlagChange := List (Flag × Bool)

/-- What a list of changes does to a flag, if it mentions it. -/
def FlagChange.state? (changes : FlagChange) (flag : Flag) : Option Bool :=
  (changes.find? (·.1 = flag)).map (·.2)

/-- A character, and whether it was written as the value of a byte. -/
structure Literal where
  char : Char
  isByte : Bool := false

/-- Classes with a letter of their own. -/
inductive Shorthand where
  | digit
  | space
  | word
  deriving DecidableEq

/-- How a property of characters is named. -/
inductive Query where
  | named (name : List Char)
  | valued (negated : Bool) (name value : List Char)

/-- The operations on sets of characters inside brackets. -/
inductive SetOperator where
  | intersection
  | difference
  | symmetricDifference
  deriving DecidableEq

/-- What stands between brackets. -/
inductive ClassSet where
  | empty
  | literal (l : Literal)
  | range (first last : Literal)
  | posix (set : CharSet) (negated : Bool)
  | shorthand (kind : Shorthand) (negated : Bool)
  | property (negated : Bool) (query : Query)
  | union (a b : ClassSet)
  | operation (op : SetOperator) (a b : ClassSet)
  | bracketed (negated : Bool) (inner : ClassSet)

/-- Conditions on a place between two characters. -/
inductive Assertion where
  | lineStart
  | lineEnd
  | textStart
  | textEnd
  | wordBoundary
  | notWordBoundary
  | wordStart
  | wordEnd
  | wordStartHalf
  | wordEndHalf
  deriving DecidableEq

/-- Patterns. Sequences and alternatives of more than two parts nest to the left. -/
inductive Expr where
  | empty
  | flags (changes : FlagChange)
  | literal (l : Literal)
  | dot
  | assertion (kind : Assertion)
  | shorthand (kind : Shorthand) (negated : Bool)
  | property (negated : Bool) (query : Query)
  | bracketed (negated : Bool) (inner : ClassSet)
  | repetition (body : Expr) (least : Nat) (most : Option Nat) (greedy : Bool)
  | group (changes : FlagChange) (body : Expr)
  | sequence (a b : Expr)
  | alternatives (a b : Expr)

namespace ClassSet

/-- Puts one more part between the brackets. -/
def add : ClassSet → ClassSet → ClassSet
  | empty, part => part
  | items, part => union items part

/-- How deep brackets and operations nest; a union of any number of parts is one level. -/
def depth : ClassSet → Nat
  | union a b => max (match a with | union .. => a.depth | _ => a.depth + 1) (b.depth + 1)
  | operation _ a b => max a.depth b.depth + 1
  | bracketed _ inner => inner.depth + 1
  | _ => 0

end ClassSet

namespace Expr

/-- The parts one after the other; the last comes first in the list. -/
def ofReversed : List Expr → Expr
  | [] => empty
  | [e] => e
  | e :: es => sequence (ofReversed es) e

/-- One branch after earlier ones; the last of these comes first in the list. -/
def ofBranches (branch : Expr) : List Expr → Expr
  | [] => branch
  | e :: es => alternatives (ofBranches e es) branch

/-- How deep a pattern nests; a sequence or choice of any number of parts is one level. -/
def depth : Expr → Nat
  | bracketed _ inner => inner.depth + 1
  | repetition body .. => body.depth + 1
  | group _ body => body.depth + 1
  | sequence a b => max (match a with | sequence .. => a.depth | _ => a.depth + 1) (b.depth + 1)
  | alternatives a b =>
    max (match a with | alternatives .. => a.depth | _ => a.depth + 1) (b.depth + 1)
  | _ => 0

end Expr

end Reformat.Pattern
