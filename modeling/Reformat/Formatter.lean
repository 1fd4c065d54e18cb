import Reformat.Document
import Reformat.Generation

/-!
Formatters: grammars that are ready for use, with one table for each start symbol.
-/

namespace Reformat

/-- Why a grammar has no formatter. -/
inductive CompileError where
  | analysis (errors : List AnalysisError)
  | noStartSymbol
  | table (error : TableError)
  deriving DecidableEq

namespace CompileError

def text : CompileError → String
  | analysis errors => s!"the grammar has errors:\n{AnalysisError.textOfList errors}"
  | noStartSymbol => "the grammar has no start symbol"
  | table _ => "failed to generate the parse table"

/-- The texts of the errors behind an error. -/
def causes : CompileError → List String
  | analysis errors => [AnalysisError.textOfList errors]
  | noStartSymbol => []
  | table error => error.text :: error.causes

end CompileError

/-- Tables, tried in order, and how documents are treated. -/
structure Formatter where
  tables : List ParseTable
  config : ScanConfig := {}

namespace Grammar

/-- The formatter with the tables of the given start symbols. -/
def formatterWith (g : Grammar) (analysis : Analysis) (starts : List String) :
    Except CompileError Formatter := do
  analysis.check.mapError .analysis
  if starts.isEmpty then throw .noStartSymbol
  let tables ← (starts.mapM (g.generate analysis)).mapError .table
  return { tables, config := { searchMode := g.searchMode } }

/-- The formatter with the tables of the start symbols that the analysis finds. -/
def formatter (g : Grammar) (engine : Engine) : Except CompileError Formatter :=
  let analysis := g.analyze engine
  g.formatterWith analysis analysis.startSymbols

/-- The formatter with the tables of given start symbols, tried in the given order. -/
def formatterFor (g : Grammar) (engine : Engine) (starts : List String) :
    Except CompileError Formatter :=
  g.formatterWith (g.analyze engine) starts

end Grammar

namespace Formatter

def format (f : Formatter) (input : String) : Except FormatError String :=
  Reformat.format f.tables f.config input

def scan (f : Formatter) (input : String) : Except FormatError (List Segment) :=
  Reformat.scan f.tables f.config input

end Formatter

end Reformat
