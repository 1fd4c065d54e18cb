import Reformat.Pattern.Syntax
import Reformat.Unicode.Property

/-!
Reading patterns. Each reader takes the characters that are left and gives what it read with the
rest; it fails where the pattern is malformed. With `x` blanks and comments do not count.
-/

namespace Reformat.Pattern

/-- Drops blanks, and comments from a number sign to the end of the line. -/
def dropBlank : (inComment : Bool) → List Char → List Char
  | _, [] => []
  | true, c :: cs => dropBlank (c ≠ '\n') cs
  | false, c :: cs =>
    if Unicode.whiteSpace.contains c then dropBlank false cs
    else if c = '#' then dropBlank true cs
    else c :: cs

def skip (x : Bool) (cs : List Char) : List Char := if x then dropBlank false cs else cs

theorem dropBlank_length (b : Bool) (cs : List Char) : (dropBlank b cs).length ≤ cs.length := by
  fun_induction dropBlank b cs <;> simp_all <;> omega

theorem skip_length (x : Bool) (cs : List Char) : (skip x cs).length ≤ cs.length := by
  unfold skip
  split
  · exact dropBlank_length false cs
  · exact Nat.le_refl _

/-- What stands for itself or for a class, inside brackets or outside. -/
inductive Atom where
  | literal (l : Literal)
  | dot
  | assertion (kind : Assertion)
  | shorthand (kind : Shorthand) (negated : Bool)
  | property (negated : Bool) (query : Query)

def Atom.expr : Atom → Expr
  | literal l => .literal l
  | dot => .dot
  | assertion kind => .assertion kind
  | shorthand kind negated => .shorthand kind negated
  | property negated query => .property negated query

/-- Assertions and the dot mean nothing inside brackets. -/
def Atom.classSet? : Atom → Option ClassSet
  | literal l => some (.literal l)
  | shorthand kind negated => some (.shorthand kind negated)
  | property negated query => some (.property negated query)
  | dot | assertion _ => none

def charOfCode? (n : Nat) : Option Char := if n.isValidChar then some (Char.ofNat n) else none

/-- A given number of hexadecimal digits. -/
def readDigits (x : Bool) : (digits value : Nat) → List Char → Option (Nat × List Char)
  | 0, value, cs => some (value, cs)
  | _ + 1, _, [] => none
  | n + 1, value, c :: cs => do
    let digit ← CharSet.hexDigit? c
    readDigits x n (16 * value + digit) (skip x cs)

/-- Hexadecimal digits up to a closing brace. -/
def readBracedDigits (x : Bool) (value? : Option Nat) : List Char → Option (Nat × List Char)
  | [] => none
  | c :: cs =>
    if c = '}' then value?.map fun value => (value, skip x cs)
    else match CharSet.hexDigit? c with
      | none => none
      | some digit => readBracedDigits x (some (16 * value?.getD 0 + digit)) (skip x cs)
termination_by cs => cs.length
decreasing_by
  have := skip_length x cs
  simp only [List.length_cons]
  omega

/-- A code point in braces or in the given number of hexadecimal digits. -/
def readCode (x : Bool) (digits : Nat) (cs : List Char) : Option (Literal × List Char) := do
  match skip x cs with
  | [] => none
  | '{' :: rest =>
    let (n, rest) ← readBracedDigits x none (skip x rest)
    return (⟨← charOfCode? n, false⟩, rest)
  | rest =>
    let (n, rest) ← readDigits x digits 0 rest
    return (⟨← charOfCode? n, digits = 2⟩, rest)

/-- The characters up to a closing brace. -/
def readBraced (x : Bool) : List Char → Option (List Char × List Char)
  | [] => none
  | c :: cs =>
    if c = '}' then some ([], cs)
    else (readBraced x (skip x cs)).map fun (body, rest) => (c :: body, rest)
termination_by cs => cs.length
decreasing_by
  have := skip_length x cs
  simp only [List.length_cons]
  omega

/-- Splits a text at the first place where `mark` stands. -/
def splitAt? (mark : List Char) : List Char → Option (List Char × List Char)
  | [] => none
  | c :: cs =>
    if mark.isPrefixOf (c :: cs) then some ([], (c :: cs).drop mark.length)
    else (splitAt? mark cs).map fun (before, after) => (c :: before, after)

/-- A property by its name alone, or by a name and a value. -/
def Query.ofText (body : List Char) : Query :=
  match splitAt? ['!', '='] body, splitAt? [':'] body, splitAt? ['='] body with
  | some (name, value), _, _ => .valued true name value
  | none, some (name, value), _ => .valued false name value
  | none, none, some (name, value) => .valued false name value
  | none, none, none => .named body

def readProperty (x negated : Bool) (cs : List Char) : Option (Atom × List Char) := do
  match skip x cs with
  | [] => none
  | '\\' :: _ => none
  | '{' :: rest =>
    let (body, rest) ← readBraced x (skip x rest)
    return (.property negated (.ofText body), rest)
  | c :: rest => return (.property negated (.named [c]), skip x rest)

def isWordKindChar (c : Char) : Bool := c.isAlpha || c = '-'

/-- The letters and hyphens that come next. -/
def readWordKind (x : Bool) : List Char → List Char × List Char
  | [] => ([], [])
  | c :: cs =>
    if isWordKindChar c then
      let (kind, rest) := readWordKind x (skip x cs)
      (c :: kind, rest)
    else ([], c :: cs)
termination_by cs => cs.length
decreasing_by
  have := skip_length x cs
  simp only [List.length_cons]
  omega

/-- A word boundary, with its kind in braces if there is one. -/
def readBoundary (x : Bool) (cs : List Char) : Option (Atom × List Char) :=
  match cs with
  | '{' :: rest =>
    match skip x rest with
    | [] => none
    | c :: rest =>
      if !isWordKindChar c then some (.assertion .wordBoundary, cs)
      else match readWordKind x (c :: rest) with
        | (kind, '}' :: rest) =>
          match String.ofList kind with
          | "start" => some (.assertion .wordStart, rest)
          | "end" => some (.assertion .wordEnd, rest)
          | "start-half" => some (.assertion .wordStartHalf, rest)
          | "end-half" => some (.assertion .wordEndHalf, rest)
          | _ => none
        | _ => none
  | _ => some (.assertion .wordBoundary, cs)

/-- What follows a backslash. -/
def readEscape (x : Bool) : List Char → Option (Atom × List Char)
  | [] => none
  | c :: cs =>
    let literal (c : Char) := some (Atom.literal ⟨c, false⟩, cs)
    match c with
    | 'x' => (readCode x 2 cs).map fun (l, rest) => (.literal l, rest)
    | 'u' => (readCode x 4 cs).map fun (l, rest) => (.literal l, rest)
    | 'U' => (readCode x 8 cs).map fun (l, rest) => (.literal l, rest)
    | 'p' => readProperty x false cs
    | 'P' => readProperty x true cs
    | 'd' => some (.shorthand .digit false, cs)
    | 'D' => some (.shorthand .digit true, cs)
    | 's' => some (.shorthand .space false, cs)
    | 'S' => some (.shorthand .space true, cs)
    | 'w' => some (.shorthand .word false, cs)
    | 'W' => some (.shorthand .word true, cs)
    | 'a' => literal '\x07'
    | 'f' => literal '\x0c'
    | 't' => literal '\t'
    | 'n' => literal '\n'
    | 'r' => literal '\r'
    | 'v' => literal '\x0b'
    | 'A' => some (.assertion .textStart, cs)
    | 'z' => some (.assertion .textEnd, cs)
    | 'b' => readBoundary x cs
    | 'B' => some (.assertion .notWordBoundary, cs)
    | '<' => some (.assertion .wordStart, cs)
    | '>' => some (.assertion .wordEnd, cs)
    | c => if c.toNat < 0x80 && !c.isAlphanum then literal c else none

/-- The classes that are named between colons. -/
def posixSet? (name : String) : Option CharSet :=
  match name with
  | "alnum" => some (.ofNotation "30-39 41-5a 61-7a")
  | "alpha" => some (.ofNotation "41-5a 61-7a")
  | "ascii" => some (.ofNotation "0-7f")
  | "blank" => some (.ofNotation "9 20")
  | "cntrl" => some (.ofNotation "0-1f 7f")
  | "digit" => some (.ofNotation "30-39")
  | "graph" => some (.ofNotation "21-7e")
  | "lower" => some (.ofNotation "61-7a")
  | "print" => some (.ofNotation "20-7e")
  | "punct" => some (.ofNotation "21-2f 3a-40 5b-60 7b-7e")
  | "space" => some (.ofNotation "9-d 20")
  | "upper" => some (.ofNotation "41-5a")
  | "word" => some (.ofNotation "30-39 41-5a 5f 61-7a")
  | "xdigit" => some (.ofNotation "30-39 41-46 61-66")
  | _ => none

/-- A named class; the rest after its brackets and colons is given back with it. -/
def readPosix? : List Char → Option (ClassSet × List Char)
  | '[' :: ':' :: cs => do
    let (negated, cs) := match cs with
      | '^' :: rest => (true, rest)
      | _ => (false, cs)
    let (name, rest) ← splitAt? [':'] cs
    let set ← posixSet? (String.ofList name)
    match rest with
    | ']' :: rest => return (.posix set negated, rest)
    | _ => none
  | _ => none

/-- An open bracket: the set so far, with an operation that waits for its right side. -/
structure Bracket where
  negated : Bool
  pending : Option (SetOperator × ClassSet) := none
  items : ClassSet := .empty

namespace Bracket

/-- The set between the brackets so far. -/
def set (b : Bracket) : ClassSet :=
  match b.pending with
  | none => b.items
  | some (op, left) => .operation op left b.items

def add (b : Bracket) (part : ClassSet) : Bracket := { b with items := b.items.add part }

/-- Starts the right side of an operation. -/
def operate (b : Bracket) (op : SetOperator) : Bracket :=
  { b with pending := some (op, b.set), items := .empty }

end Bracket

/-- Hyphens right after an opening bracket are literal. -/
def readHyphens (x : Bool) (b : Bracket) : List Char → Bracket × List Char
  | '-' :: cs => readHyphens x (b.add (.literal ⟨'-', false⟩)) (skip x cs)
  | cs => (b, cs)
termination_by cs => cs.length
decreasing_by
  have := skip_length x cs
  simp only [List.length_cons]
  omega

/-- What follows an opening bracket: a caret that negates, literal hyphens, and a closing bracket
that is literal because it comes first. -/
def readOpening (x : Bool) (cs : List Char) : Option (Bracket × List Char) :=
  let cs := skip x cs
  let (negated, cs) := match cs with
    | '^' :: rest => (true, skip x rest)
    | _ => (false, cs)
  let (b, cs) := readHyphens x { negated } cs
  match b.items, cs with
  | _, [] => none
  | .empty, ']' :: rest =>
    match skip x rest with
    | [] => none
    | rest => some (b.add (.literal ⟨']', false⟩), rest)
  | _, cs => some (b, cs)

/-- The next character that counts after a hyphen inside brackets. -/
def peekAfterHyphen (x : Bool) (cs : List Char) : Option Char :=
  if !x then cs.head?
  else match cs.dropWhile Unicode.whiteSpace.contains with
    | '#' :: rest => (rest.dropWhile Unicode.whiteSpace.contains).head?
    | rest => rest.head?

def readClassAtom (x : Bool) : List Char → Option (Atom × List Char)
  | [] => none
  | '\\' :: cs => readEscape x cs
  | c :: cs => some (.literal ⟨c, false⟩, cs)

/-- A range, or a single part of a class. -/
def readClassPart (x : Bool) (cs : List Char) : Option (ClassSet × List Char) := do
  let (first, rest) ← readClassAtom x cs
  match skip x rest with
  | [] => none
  | '-' :: rest =>
    let next := peekAfterHyphen x rest
    if next = some ']' || next = some '-' then
      return (← first.classSet?, '-' :: rest)
    let (last, rest) ← readClassAtom x (skip x rest)
    match first, last with
    | .literal a, .literal b => if a.char ≤ b.char then some (.range a b, rest) else none
    | _, _ => none
  | rest => return (← first.classSet?, rest)

/-- One step inside brackets, the innermost first: either brackets stay open or the outermost
closes. -/
def stepClass (x : Bool) (b : Bracket) (outer : List Bracket) (cs : List Char) :
    Option ((List Bracket ⊕ Bracket) × List Char) := do
  match cs with
  | [] => none
  | '[' :: rest =>
    match readPosix? cs with
    | some (part, rest) => return (.inl (b.add part :: outer), rest)
    | none =>
      let (inner, rest) ← readOpening x rest
      return (.inl (inner :: b :: outer), rest)
  | ']' :: rest =>
    match outer with
    | [] => return (.inr b, rest)
    | o :: outer => return (.inl (o.add (.bracketed b.negated b.set) :: outer), rest)
  | '&' :: '&' :: rest => return (.inl (b.operate .intersection :: outer), rest)
  | '-' :: '-' :: rest => return (.inl (b.operate .difference :: outer), rest)
  | '~' :: '~' :: rest => return (.inl (b.operate .symmetricDifference :: outer), rest)
  | _ =>
    let (part, rest) ← readClassPart x cs
    return (.inl (b.add part :: outer), rest)

/-- Reads on until the outermost bracket closes; every step has to read something. -/
def readClassLoop (x : Bool) (open? : List Bracket) (cs : List Char) : Option (Expr × List Char) :=
  match open? with
  | [] => none
  | b :: outer =>
    match stepClass x b outer (skip x cs) with
    | none => none
    | some (.inr b, rest) => some (.bracketed b.negated b.set, rest)
    | some (.inl open?, rest) =>
      if rest.length < cs.length then readClassLoop x open? rest else none
termination_by cs.length

/-- A class in brackets, after the opening one. -/
def readClass (x : Bool) (cs : List Char) : Option (Expr × List Char) := do
  let (b, rest) ← readOpening x cs
  readClassLoop x [b] rest

/-- A decimal number that fits in 32 bits, with white space around it. -/
def readDecimal (x : Bool) (cs : List Char) : Option (Nat × List Char) :=
  let rec digits (value? : Option Nat) (cs : List Char) : Option Nat × List Char :=
    match cs with
    | [] => (value?, [])
    | c :: rest =>
      if c.isDigit then digits (some (10 * value?.getD 0 + (c.toNat - '0'.toNat))) (skip x rest)
      else (value?, cs)
  termination_by cs.length
  decreasing_by
    have := skip_length x rest
    simp only [List.length_cons]
    omega
  match digits none (cs.dropWhile Unicode.whiteSpace.contains) with
  | (none, _) => none
  | (some n, rest) =>
    if n < 0x100000000 then some (n, skip x (rest.dropWhile Unicode.whiteSpace.contains)) else none

/-- The bounds of a repetition, after the opening brace and with the closing one. -/
def readBounds (x : Bool) (cs : List Char) : Option ((Nat × Option Nat) × List Char) := do
  let (least, rest) ← readDecimal x (skip x cs)
  let (bounds, rest) ← match rest with
    | ',' :: rest =>
      match skip x rest with
      | '}' :: rest => some ((least, none), '}' :: rest)
      | rest => do
        let (most, rest) ← readDecimal x rest
        if least ≤ most then some ((least, some most), rest) else none
    | _ => some ((least, some least), rest)
  match rest with
  | '}' :: rest => return (bounds, rest)
  | _ => none

/-- A question mark after a repetition makes it lazy. -/
def readGreed : List Char → Bool × List Char
  | '?' :: rest => (false, rest)
  | rest => (true, rest)

def flagOfLetter? : Char → Option Flag
  | 'i' => some .caseInsensitive
  | 'm' => some .multiLine
  | 's' => some .dotAll
  | 'U' => some .lazyFirst
  | 'u' => some .unicode
  | 'R' => some .crlf
  | 'x' => some .verbose
  | _ => none

/-- Flags up to a colon or a closing parenthesis. Each flag may come once, and so may the minus
sign, which clears the flags after it and may not come last. -/
def readFlags (changes : FlagChange) (clearing dangling : Bool) :
    List Char → Option (FlagChange × List Char)
  | [] => none
  | c :: cs =>
    if c = ':' || c = ')' then if dangling then none else some (changes, c :: cs)
    else if c = '-' then if clearing then none else readFlags changes true true cs
    else match flagOfLetter? c with
      | none => none
      | some flag =>
        if (changes.state? flag).isSome then none
        else readFlags (changes ++ [(flag, !clearing)]) clearing false cs

/-- The name of a group up to a closing angle bracket. -/
def readGroupName (cs : List Char) : Option (List Char × List Char) := do
  let (name, rest) ← splitAt? ['>'] cs
  let first (c : Char) := c = '_' || Unicode.alphabetic.contains c
  let later (c : Char) :=
    c ∈ ['_', '.', '[', ']'] || Unicode.alphabetic.contains c || Unicode.numeric.contains c
  match name with
  | [] => none
  | c :: cs => if first c && cs.all later then some (name, rest) else none

/-- What an opening parenthesis starts. -/
inductive Opening where
  | flags (changes : FlagChange)
  | group (changes : FlagChange) (name : Option (List Char))

/-- What follows an opening parenthesis; conditions on what surrounds a match are refused. -/
def readGroupOpening (x : Bool) (cs : List Char) : Option (Opening × List Char) := do
  match skip x cs with
  | '?' :: '=' :: _ | '?' :: '!' :: _ | '?' :: '<' :: '=' :: _ | '?' :: '<' :: '!' :: _ => none
  | '?' :: 'P' :: '<' :: rest | '?' :: '<' :: rest =>
    let (name, rest) ← readGroupName rest
    return (.group [] (some name), rest)
  | '?' :: rest =>
    match ← readFlags [] false false rest with
    | (changes, ':' :: rest) => return (.group changes none, rest)
    | (changes, _ :: rest) => if changes.isEmpty then none else return (.flags changes, rest)
    | _ => none
  | rest => return (.group [] none, rest)

/-- A group that is not closed: what came before it and the flags it started with. -/
structure OpenGroup where
  parts : List Expr
  branches : List Expr
  changes : FlagChange
  verbose : Bool

/-- A pattern read in part: the parts of the branch that is open and the branches before it, the
last one first, inside groups of which the innermost comes first. -/
structure Reading where
  parts : List Expr := []
  branches : List Expr := []
  groups : List OpenGroup := []
  verbose : Bool := false
  names : List (List Char) := []

namespace Reading

/-- What the innermost group holds so far. -/
def expr (r : Reading) : Expr := Expr.ofBranches (Expr.ofReversed r.parts) r.branches

def push (r : Reading) (e : Expr) : Reading := { r with parts := e :: r.parts }

/-- Repeats the last part; there must be one and it may not be a change of flags. -/
def repeatLast (r : Reading) (least : Nat) (most : Option Nat) (greedy : Bool) : Option Reading :=
  match r.parts with
  | [] | .flags _ :: _ => none
  | e :: parts => some { r with parts := .repetition e least most greedy :: parts }

def openGroup (r : Reading) : Opening → Option Reading
  | .flags changes =>
    some { r with
      parts := .flags changes :: r.parts
      verbose := (changes.state? .verbose).getD r.verbose }
  | .group changes name =>
    if r.names.any fun n => name = some n then none
    else some {
      groups := ⟨r.parts, r.branches, changes, r.verbose⟩ :: r.groups
      verbose := (changes.state? .verbose).getD r.verbose
      names := name.toList ++ r.names }

def closeGroup (r : Reading) : Option Reading :=
  match r.groups with
  | [] => none
  | g :: groups =>
    some {
      parts := .group g.changes r.expr :: g.parts
      branches := g.branches
      groups
      verbose := g.verbose
      names := r.names }

/-- One step of reading a pattern. -/
def step (r : Reading) (cs : List Char) : Option (Reading × List Char) := do
  match cs with
  | [] => none
  | '(' :: rest =>
    let (opening, rest) ← readGroupOpening r.verbose rest
    return (← r.openGroup opening, rest)
  | ')' :: rest => return (← r.closeGroup, rest)
  | '|' :: rest =>
    return ({ r with parts := [], branches := Expr.ofReversed r.parts :: r.branches }, rest)
  | '[' :: rest =>
    let (e, rest) ← readClass r.verbose rest
    return (r.push e, rest)
  | '?' :: rest =>
    let (greedy, rest) := readGreed rest
    return (← r.repeatLast 0 (some 1) greedy, rest)
  | '*' :: rest =>
    let (greedy, rest) := readGreed rest
    return (← r.repeatLast 0 none greedy, rest)
  | '+' :: rest =>
    let (greedy, rest) := readGreed rest
    return (← r.repeatLast 1 none greedy, rest)
  | '{' :: rest =>
    let ((least, most), rest) ← readBounds r.verbose rest
    let (greedy, rest) := readGreed (skip r.verbose rest)
    return (← r.repeatLast least most greedy, rest)
  | '\\' :: rest =>
    let (atom, rest) ← readEscape r.verbose rest
    return (r.push atom.expr, rest)
  | '.' :: rest => return (r.push .dot, rest)
  | '^' :: rest => return (r.push (.assertion .lineStart), rest)
  | '$' :: rest => return (r.push (.assertion .lineEnd), rest)
  | c :: rest => return (r.push (.literal ⟨c, false⟩), rest)

/-- Reads to the end of the pattern, where every group must be closed; every step has to read
something. -/
def loop (r : Reading) (cs : List Char) : Option Expr :=
  match skip r.verbose cs with
  | [] => if r.groups.isEmpty then some r.expr else none
  | c :: rest =>
    match r.step (c :: rest) with
    | none => none
    | some (r, rest) => if rest.length < cs.length then r.loop rest else none
termination_by cs.length

end Reading

/-- The deepest nesting that is accepted. -/
def maxDepth : Nat := 250

/-- Reads a pattern. -/
def Expr.parse? (pattern : String) : Option Expr :=
  (Reading.loop {} pattern.toList).filter (·.depth ≤ maxDepth)

end Reformat.Pattern
