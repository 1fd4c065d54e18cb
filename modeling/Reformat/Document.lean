import Reformat.Attempt
import Reformat.Position

/-!
Documents: texts that tables are applied to from the start to the end, one parse after the other.
-/

namespace Reformat

/-- How documents are treated. -/
structure ScanConfig where
  /-- Look for matches anywhere, instead of requiring that all of the document is matched. -/
  searchMode : Bool := false
  /-- Copy what is not matched to the output, instead of leaving it out. -/
  keepUnmatched : Bool := false
  deriving DecidableEq

/-- A part of a document: matched by the table with the given place in the list, or passed over. -/
inductive Segment where
  | matched (table : Nat) (found : Match)
  | unmatched (start stop : Nat)
  deriving DecidableEq

/-- Why a document cannot be treated. -/
inductive FormatError where
  | unexpectedInput (position : Position)
  | internal (startSymbol : String) (error : InternalError)
  deriving DecidableEq

namespace FormatError

def text : FormatError → String
  | unexpectedInput position => s!"{position.text}: unexpected input"
  | internal startSymbol _ => s!"inconsistent parse table for `{startSymbol}'"

def causes : FormatError → List String
  | unexpectedInput _ => []
  | internal _ error => error.text :: error.causes

end FormatError

/-- The first table, with its place, that parses more than nothing at the start of a text. -/
def firstParse? (rest : List Char) (offset : Nat) :
    (place : Nat) → List ParseTable → Except FormatError (Option (Nat × Parse))
  | _, [] => .ok none
  | place, t :: tables =>
    match t.attempt rest offset with
    | .ok parse =>
      if parse.rest.length < rest.length then .ok (some (place, parse))
      else firstParse? rest offset (place + 1) tables
    | .error (.internal error) => .error (.internal t.startSymbol error)
    | .error _ => firstParse? rest offset (place + 1) tables

theorem length_of_firstParse? {rest : List Char} {offset place k : Nat} {tables : List ParseTable}
    {parse : Parse} (h : firstParse? rest offset place tables = .ok (some (k, parse))) :
    parse.rest.length < rest.length := by
  fun_induction firstParse? rest offset place tables with
  | case1 => simp at h
  | case2 place t tables parse' _ hlt =>
    simp only [Except.ok.injEq, Option.some.injEq, Prod.mk.injEq] at h
    exact h.2 ▸ hlt
  | case3 _ _ _ _ _ _ ih => exact ih h
  | case4 => simp at h
  | case5 _ _ _ _ _ _ ih => exact ih h

/-- A scan at some step: the text from byte `offset` on, and the segments before it, last first. -/
structure Scan where
  rest : List Char
  offset : Nat := 0
  segments : List Segment := []

namespace Scan

/-- Adds a character to the last segment if that is unmatched, else to a new one. -/
def pass (offset : Nat) (c : Char) : List Segment → List Segment
  | .unmatched start _ :: segments => .unmatched start (offset + c.utf8Size) :: segments
  | segments => .unmatched offset (offset + c.utf8Size) :: segments

/-- Takes the next match, or passes over a character. -/
def step (tables : List ParseTable) (config : ScanConfig) (input : String) (s : Scan) :
    Step Scan (Except FormatError (List Segment)) :=
  match s.rest with
  | [] => .done (.ok s.segments.reverse)
  | c :: rest =>
    match firstParse? s.rest s.offset 0 tables with
    | .error error => .done (.error error)
    | .ok (some (place, parse)) =>
      .next {
        rest := parse.rest
        offset := parse.stop
        segments := .matched place ⟨s.offset, parse.stop, parse.output⟩ :: s.segments }
    | .ok none =>
      if config.searchMode then
        .next { rest, offset := s.offset + c.utf8Size, segments := pass s.offset c s.segments }
      else .done (.error (.unexpectedInput (Position.locate input s.offset)))

/-- The machine of scans. -/
def machine (tables : List ParseTable) (config : ScanConfig) (input : String) :
    Machine Scan (Except FormatError (List Segment)) where
  step := step tables config input
  weight s := s.rest.length
  lighter := by
    intro s t h
    unfold step at h
    split at h
    · simp at h
    · next c rest hrest =>
      split at h
      · simp at h
      · next place parse hparse =>
        obtain rfl := Step.next.inj h
        exact length_of_firstParse? hparse
      · split at h
        · obtain rfl := Step.next.inj h
          simp [hrest]
        · simp at h

end Scan

/-- Splits a document into the parts that are matched and those that are not. -/
def scan (tables : List ParseTable) (config : ScanConfig) (input : String) :
    Except FormatError (List Segment) :=
  (Scan.machine tables config input).run { rest := input.toList }

/-- What a segment adds to the output. -/
def Segment.output (config : ScanConfig) (input : String) : Segment → String
  | matched _ found => found.output
  | unmatched start stop =>
    if config.keepUnmatched then String.ofList (Text.slice start stop input.toList) else ""

/-- Reformats a document. -/
def format (tables : List ParseTable) (config : ScanConfig) (input : String) :
    Except FormatError String :=
  (scan tables config input).map fun segments =>
    String.join (segments.map (·.output config input))

end Reformat
