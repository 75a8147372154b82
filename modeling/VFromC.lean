import VFromC.Batch
import VFromC.Decl.Enum
import VFromC.Decl.Function
import VFromC.Decl.TopLevel
import VFromC.Decl.Types
import VFromC.Decl.Variable
import VFromC.Emit.Arms
import VFromC.Emit.Call
import VFromC.Emit.Expression
import VFromC.Emit.Literal
import VFromC.Emit.Loop
import VFromC.Emit.Match
import VFromC.Emit.Name
import VFromC.Emit.Operator
import VFromC.Emit.Script
import VFromC.Emit.Statement
import VFromC.Ident
import VFromC.Journal
import VFromC.Json.Document
import VFromC.Json.Number
import VFromC.Json.Quoted
import VFromC.Json.Record
import VFromC.Main
import VFromC.Output.Labels
import VFromC.Output.Page
import VFromC.Output.Script
import VFromC.Proofs.Batch.Blocks
import VFromC.Proofs.Batch.Braces
import VFromC.Proofs.Batch.Declarations
import VFromC.Proofs.Batch.Growth
import VFromC.Proofs.Batch.Jumps
import VFromC.Proofs.Batch.OpenFiles
import VFromC.Proofs.Batch.Types
import VFromC.Proofs.Control.Flow
import VFromC.Proofs.Control.Runs
import VFromC.Proofs.Control.Text
import VFromC.Proofs.Decl.Aliases
import VFromC.Proofs.Decl.Blocks
import VFromC.Proofs.Decl.Braces
import VFromC.Proofs.Decl.Changes
import VFromC.Proofs.Decl.Definitions
import VFromC.Proofs.Decl.Elsewhere
import VFromC.Proofs.Decl.Globals
import VFromC.Proofs.Decl.Headings
import VFromC.Proofs.Decl.Introduced
import VFromC.Proofs.Decl.Jumps
import VFromC.Proofs.Decl.Modes
import VFromC.Proofs.Decl.Names
import VFromC.Proofs.Decl.Nested
import VFromC.Proofs.Decl.Passages
import VFromC.Proofs.Decl.Places
import VFromC.Proofs.Decl.Related
import VFromC.Proofs.Decl.Rest
import VFromC.Proofs.Decl.RestState
import VFromC.Proofs.Decl.Visits
import VFromC.Proofs.Emit.ArmParts
import VFromC.Proofs.Emit.Braces
import VFromC.Proofs.Emit.Breaks
import VFromC.Proofs.Emit.Chains
import VFromC.Proofs.Emit.Conditions
import VFromC.Proofs.Emit.Congruence
import VFromC.Proofs.Emit.Frame
import VFromC.Proofs.Emit.Initializers
import VFromC.Proofs.Emit.Lines
import VFromC.Proofs.Emit.Names
import VFromC.Proofs.Emit.Nesting
import VFromC.Proofs.Emit.Places
import VFromC.Proofs.Emit.Related
import VFromC.Proofs.Emit.Returned
import VFromC.Proofs.Emit.Runes
import VFromC.Proofs.Emit.Where
import VFromC.Proofs.Emit.Whole
import VFromC.Proofs.Loop.Header
import VFromC.Proofs.Loop.Straying
import VFromC.Proofs.Output.Behind
import VFromC.Proofs.Output.Braces
import VFromC.Proofs.Output.Edits
import VFromC.Proofs.Output.Known
import VFromC.Proofs.Output.Level
import VFromC.Proofs.Output.Lines
import VFromC.Proofs.Output.Marks
import VFromC.Proofs.Output.Patch
import VFromC.Proofs.Run.Deliveries
import VFromC.Proofs.Run.Inputs
import VFromC.Proofs.Run.Paths
import VFromC.Proofs.Run.Retraced
import VFromC.Proofs.Run.Session
import VFromC.Proofs.Run.Stored
import VFromC.Proofs.Run.Units
import VFromC.Proofs.Spelling.Bases
import VFromC.Proofs.Spelling.Braces
import VFromC.Proofs.Spelling.Capitals
import VFromC.Proofs.Spelling.Declared
import VFromC.Proofs.Spelling.Denotation
import VFromC.Proofs.Spelling.Dropped
import VFromC.Proofs.Spelling.Grammar
import VFromC.Proofs.Spelling.Growth
import VFromC.Proofs.Spelling.Joints
import VFromC.Proofs.Spelling.OwnNames
import VFromC.Proofs.Spelling.Params
import VFromC.Proofs.Spelling.Parts
import VFromC.Proofs.Spelling.Pointers
import VFromC.Proofs.Spelling.Settled
import VFromC.Proofs.Spelling.Stable
import VFromC.Proofs.Spelling.Starred
import VFromC.Proofs.Spelling.Stripped
import VFromC.Proofs.Switch.Entries
import VFromC.Proofs.Switch.Paths
import VFromC.Proofs.Switch.Selection
import VFromC.Proofs.Switch.Split
import VFromC.Proofs.Switch.Text
import VFromC.Proofs.Symbols.History
import VFromC.Proofs.Symbols.Verdicts
import VFromC.Proofs.Syntax.Below
import VFromC.Proofs.Syntax.Files
import VFromC.Proofs.Syntax.Prepare
import VFromC.Proofs.Text.Braces
import VFromC.Proofs.Text.Cut
import VFromC.Proofs.Text.Replace
import VFromC.Run.FileStore
import VFromC.Run.FrontEnd
import VFromC.Run.Job
import VFromC.Run.Options
import VFromC.Run.Path
import VFromC.Run.Site
import VFromC.Spelling.Convert
import VFromC.Spelling.Declarator
import VFromC.Spelling.Primitive
import VFromC.Spelling.Qualifier
import VFromC.Symbols
import VFromC.Syntax.Children
import VFromC.Syntax.Decode
import VFromC.Syntax.Kind
import VFromC.Syntax.Node
import VFromC.Syntax.Place
import VFromC.Syntax.Prepare
import VFromC.Text.CaseTable
import VFromC.Text.Escaped
import VFromC.Text.OnStrings
import VFromC.Text.Search
import VFromC.Text.Utf8
