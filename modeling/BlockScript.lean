import BlockScript.Bindings
import BlockScript.Block.Basic
import BlockScript.Block.Catalog
import BlockScript.Block.Decode
import BlockScript.Block.Edit
import BlockScript.Block.Validation
import BlockScript.Command.Arguments
import BlockScript.Command.Host
import BlockScript.Command.Log
import BlockScript.Command.Perform
import BlockScript.Command.Usage
import BlockScript.Engine.Effect
import BlockScript.Engine.Step
import BlockScript.Fault
import BlockScript.Files.Folder
import BlockScript.Files.Path
import BlockScript.Json.Reader
import BlockScript.Json.Writer
import BlockScript.Main
import BlockScript.Number.Basic
import BlockScript.Number.Binary64
import BlockScript.Number.Decimal
import BlockScript.Number.Numeral
import BlockScript.Proofs.Bindings
import BlockScript.Proofs.Block.Children
import BlockScript.Proofs.Block.Decoding
import BlockScript.Proofs.Block.Editing
import BlockScript.Proofs.Block.Holes
import BlockScript.Proofs.Block.Names
import BlockScript.Proofs.Block.Rules
import BlockScript.Proofs.Block.Stored
import BlockScript.Proofs.Block.Upkeep
import BlockScript.Proofs.Block.Validity
import BlockScript.Proofs.Command.Handling
import BlockScript.Proofs.Command.Stepping
import BlockScript.Proofs.Command.Surrogates
import BlockScript.Proofs.Conversion.Agreement
import BlockScript.Proofs.Conversion.Command
import BlockScript.Proofs.Conversion.Declarations
import BlockScript.Proofs.Conversion.Layout
import BlockScript.Proofs.Conversion.Legibility
import BlockScript.Proofs.Conversion.Messages
import BlockScript.Proofs.Conversion.Opening
import BlockScript.Proofs.Conversion.Outline
import BlockScript.Proofs.Conversion.Placement
import BlockScript.Proofs.Conversion.Preservation
import BlockScript.Proofs.Conversion.Simulation
import BlockScript.Proofs.Conversion.Wording
import BlockScript.Proofs.Engine.Agenda
import BlockScript.Proofs.Engine.Bound
import BlockScript.Proofs.Engine.Correspondence
import BlockScript.Proofs.Engine.Cost
import BlockScript.Proofs.Engine.Failing
import BlockScript.Proofs.Engine.Flags
import BlockScript.Proofs.Engine.InPlace
import BlockScript.Proofs.Engine.Listed
import BlockScript.Proofs.Engine.Meaning
import BlockScript.Proofs.Engine.Nesting
import BlockScript.Proofs.Engine.Suspension
import BlockScript.Proofs.Engine.Unchecked
import BlockScript.Proofs.Failure
import BlockScript.Proofs.Files.Folder
import BlockScript.Proofs.Json.Escapes
import BlockScript.Proofs.Json.Numbers
import BlockScript.Proofs.Json.Roundtrip
import BlockScript.Proofs.Json.Values
import BlockScript.Proofs.Number.Grammar
import BlockScript.Proofs.Number.Range
import BlockScript.Proofs.Number.Rounding
import BlockScript.Proofs.Number.Shortest
import BlockScript.Proofs.Number.Spelling
import BlockScript.Proofs.Script.Budget
import BlockScript.Proofs.Script.Entries
import BlockScript.Proofs.Script.Extent
import BlockScript.Proofs.Script.FailingLine
import BlockScript.Proofs.Script.Forest
import BlockScript.Proofs.Script.Indentation
import BlockScript.Proofs.Script.Inline
import BlockScript.Proofs.Script.Lexemes
import BlockScript.Proofs.Script.Likeness
import BlockScript.Proofs.Script.Pieces
import BlockScript.Proofs.Script.Process
import BlockScript.Proofs.Script.Reading
import BlockScript.Proofs.Script.Sequence
import BlockScript.Proofs.Script.Trail
import BlockScript.Proofs.Script.Truncation
import BlockScript.Proofs.Storage
import BlockScript.Proofs.Text.OneLine
import BlockScript.Proofs.Value.Comparing
import BlockScript.Proofs.Value.NumberText
import BlockScript.Proofs.Value.Showing
import BlockScript.Script.Generate
import BlockScript.Script.Interpreter
import BlockScript.Script.Line
import BlockScript.Script.Machine
import BlockScript.Script.Operand
import BlockScript.Script.Statement
import BlockScript.Storage
import BlockScript.Text.Blank
import BlockScript.Text.Digit
import BlockScript.Text.Printable
import BlockScript.Text.Quoted
import BlockScript.Text.Ranges
import BlockScript.Text.Split
import BlockScript.Text.Utf8
import BlockScript.Text.Word
import BlockScript.Value.Basic
import BlockScript.Value.Comparison
import BlockScript.Variables
