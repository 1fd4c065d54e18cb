import Reformat.Alphabet
import Reformat.Analysis
import Reformat.Ascending
import Reformat.Association
import Reformat.Attempt
import Reformat.Automaton
import Reformat.CharSet
import Reformat.Document
import Reformat.Draft
import Reformat.Event
import Reformat.Formatter
import Reformat.Generation
import Reformat.Grammar
import Reformat.Item
import Reformat.Kernel
import Reformat.Machine
import Reformat.Matcher
import Reformat.Numbering
import Reformat.Outcome
import Reformat.ParseTable
import Reformat.Pattern.Engine
import Reformat.Pattern.Parser
import Reformat.Pattern.Program
import Reformat.Pattern.Regex
import Reformat.Pattern.Syntax
import Reformat.Position
import Reformat.Queue
import Reformat.Proofs.Alternatives
import Reformat.Proofs.Closure
import Reformat.Proofs.Construction
import Reformat.Proofs.Items
import Reformat.Proofs.States
import Reformat.Quoted
import Reformat.Template
import Reformat.Terminal
import Reformat.Text
import Reformat.Unicode.Category
import Reformat.Unicode.CategoryTable
import Reformat.Unicode.Folding
import Reformat.Unicode.Identifier
import Reformat.Unicode.Lookup
import Reformat.Unicode.Property
import Reformat.Unicode.Script
import Reformat.Unicode.ScriptTable
import Reformat.Proofs.Runs
import Reformat.Proofs.Tables
import Reformat.Proofs.ViablePrefix
import Reformat.Proofs.Consistency
import Reformat.Proofs.Tree
import Reformat.Proofs.Soundness
import Reformat.Proofs.Pushdown
import Reformat.Proofs.Stalls
import Reformat.Proofs.Moves
import Reformat.Proofs.Completeness
import Reformat.Proofs.SubsetConstruction
import Reformat.Proofs.ItemSets
import Reformat.Proofs.Choices
import Reformat.Proofs.SetAttempts
import Reformat.Proofs.Derivations
import Reformat.Proofs.Segments
import Reformat.Proofs.Scans
import Reformat.Proofs.References
import Reformat.Proofs.Safety
import Reformat.Proofs.Verbatim
import Reformat.Proofs.Shapes
import Reformat.Proofs.Noninterference
import Reformat.Proofs.Renumbering
import Reformat.Proofs.Rearrangement
import Reformat.Proofs.Searches
import Reformat.Proofs.Restarts
import Reformat.Proofs.Bounds
import Reformat.Proofs.Drafts
import Reformat.Proofs.Blanks
import Reformat.Proofs.Descents
import Reformat.Proofs.Divergence
import Reformat.Proofs.Worklist
import Reformat.Proofs.Transitions
import Reformat.Proofs.Compilation
import Reformat.Proofs.BreadthFirst
import Reformat.Proofs.Coverage
import Reformat.Proofs.Refusals
import Reformat.Proofs.Diagnostics
import Reformat.Proofs.StartSymbols
import Reformat.Proofs.Evaluation
import Reformat.Proofs.Selection
import Reformat.Proofs.Validation
import Reformat.Proofs.Positions
import Reformat.Proofs.Legibility
import Reformat.Proofs.Grouping
import Reformat.Proofs.Queues
