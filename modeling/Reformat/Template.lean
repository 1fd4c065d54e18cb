import Reformat.Quoted

/-!
Templates: how the text of a match is put together from the texts of its parts.
-/

namespace Reformat

/-- A piece of a template. -/
inductive Piece where
  /-- The text itself. -/
  | literal (text : String)
  /-- The text of the part with the given number; the first part has number 0. -/
  | capture (index : Nat)
  /-- The text of `unit` once for every character of the text of `counted`. -/
  | repeated (unit counted : Piece)
  deriving DecidableEq

/-- A template; one without pieces joins the parts with spaces. -/
abbrev Template := List Piece

/-- A piece asks for a part that is not there. -/
inductive TemplateError where
  | captureOutOfRange (index arity : Nat)
  deriving DecidableEq

def TemplateError.text : TemplateError → String
  | captureOutOfRange index arity =>
    s!"capture group ${index} is out of range (the rule matches {arity} element(s))"

namespace Piece

/-- The text of a piece. What is counted comes first, and the unit counts for nothing where it would
be repeated zero times. -/
def render (captures : List String) : Piece → Except TemplateError String
  | literal text => .ok text
  | capture index =>
    match captures[index]? with
    | some text => .ok text
    | none => .error (.captureOutOfRange index captures.length)
  | repeated unit counted => do
    let counted ← counted.render captures
    if counted.length = 0 then return ""
    let unit ← unit.render captures
    return String.join (List.replicate counted.length unit)

/-- The largest number of a part that the piece mentions. -/
def maxCapture? : Piece → Option Nat
  | literal _ => none
  | capture index => some index
  | repeated unit counted => max unit.maxCapture? counted.maxCapture?

def text : Piece → String
  | literal text => Quoted.quote text
  | capture index => s!"${index}"
  | repeated unit counted => s!"len({unit.text}, {counted.text})"

end Piece

/-- The text of a template, piece by piece from the left. -/
def Template.render (template : Template) (captures : List String) :
    Except TemplateError String :=
  if template.isEmpty then .ok (" ".intercalate captures)
  else (template.mapM (Piece.render captures)).map String.join

end Reformat
