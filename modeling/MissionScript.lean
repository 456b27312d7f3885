import MissionScript.Catalog
import MissionScript.Catalog.Sample
import MissionScript.Code
import MissionScript.Code.Json
import MissionScript.CommandId
import MissionScript.CommandLine.Arguments
import MissionScript.CommandLine.Config
import MissionScript.CommandLine.Host
import MissionScript.CommandLine.Run
import MissionScript.Compile
import MissionScript.Conditional
import MissionScript.DataType
import MissionScript.Definition
import MissionScript.Definition.Json
import MissionScript.Diagnostic
import MissionScript.Expression
import MissionScript.Flow
import MissionScript.GameVersion
import MissionScript.Json
import MissionScript.Json.Decode
import MissionScript.Json.Document
import MissionScript.Main
import MissionScript.Operator
import MissionScript.Parameter
import MissionScript.Script
import MissionScript.Statement
import MissionScript.Statement.Reader
import MissionScript.Symbol
import MissionScript.Text.Characters
import MissionScript.Text.Layout
import MissionScript.Token
import MissionScript.Token.Lexer
import MissionScript.Tree
import MissionScript.Tree.Check
import MissionScript.Tree.Listing
import MissionScript.Tree.Lowering
import MissionScript.Tree.Numbering
import MissionScript.Proofs.Catalog.Arrangement
import MissionScript.Proofs.Catalog.DisplayOrder
import MissionScript.Proofs.Catalog.Index
import MissionScript.Proofs.Catalog.Placeholders
import MissionScript.Proofs.Catalog.Reachable
import MissionScript.Proofs.Code.RoundTrip
import MissionScript.Proofs.Compile.Acceptance
import MissionScript.Proofs.Compile.Conditionals
import MissionScript.Proofs.Compile.Conformity
import MissionScript.Proofs.Compile.ControlFlow
import MissionScript.Proofs.Compile.Emission
import MissionScript.Proofs.Compile.Extension
import MissionScript.Proofs.Compile.Extent
import MissionScript.Proofs.Compile.Indentation
import MissionScript.Proofs.Compile.Insertion
import MissionScript.Proofs.Compile.LabelNames
import MissionScript.Proofs.Compile.LabelReports
import MissionScript.Proofs.Compile.Lookup
import MissionScript.Proofs.Compile.Placement
import MissionScript.Proofs.Compile.ReportedLines
import MissionScript.Proofs.Compile.Reports
import MissionScript.Proofs.Compile.SourceLines
import MissionScript.Proofs.Compile.SourceOrder
import MissionScript.Proofs.Compile.Totality
import MissionScript.Proofs.Compile.Variables
import MissionScript.Proofs.Compile.Versions
import MissionScript.Proofs.Compile.WellFormed
import MissionScript.Proofs.Compile.Written
import MissionScript.Proofs.Expression.Extent
import MissionScript.Proofs.Expression.Grammar
import MissionScript.Proofs.Expression.Indentation
import MissionScript.Proofs.Expression.Listing
import MissionScript.Proofs.Expression.Parsing
import MissionScript.Proofs.Expression.Run
import MissionScript.Proofs.Expression.Source
import MissionScript.Proofs.Json.Reading
import MissionScript.Proofs.Lowering.Additions
import MissionScript.Proofs.Lowering.Arrival
import MissionScript.Proofs.Lowering.Bodies
import MissionScript.Proofs.Lowering.Displacement
import MissionScript.Proofs.Lowering.Encoding
import MissionScript.Proofs.Lowering.Frame
import MissionScript.Proofs.Lowering.Insertion
import MissionScript.Proofs.Lowering.Interlacing
import MissionScript.Proofs.Lowering.Interning
import MissionScript.Proofs.Lowering.Jumps
import MissionScript.Proofs.Lowering.Landing
import MissionScript.Proofs.Lowering.LineOrder
import MissionScript.Proofs.Lowering.Numbering
import MissionScript.Proofs.Lowering.Positions
import MissionScript.Proofs.Lowering.Resolution
import MissionScript.Proofs.Lowering.Return
import MissionScript.Proofs.Lowering.Structured
import MissionScript.Proofs.Lowering.Success
import MissionScript.Proofs.Lowering.Table
import MissionScript.Proofs.Lowering.Targets
import MissionScript.Proofs.Script.Acceptance
import MissionScript.Proofs.Script.Blocks
import MissionScript.Proofs.Script.Commented
import MissionScript.Proofs.Script.Constructs
import MissionScript.Proofs.Script.Displacement
import MissionScript.Proofs.Script.Indentation
import MissionScript.Proofs.Script.Insertion
import MissionScript.Proofs.Script.Labels
import MissionScript.Proofs.Script.Lines
import MissionScript.Proofs.Script.Nesting
import MissionScript.Proofs.Script.Occurrences
import MissionScript.Proofs.Script.OpenBlocks
import MissionScript.Proofs.Script.Outline
import MissionScript.Proofs.Script.Overtaking
import MissionScript.Proofs.Script.Sequence
import MissionScript.Proofs.Statement.AuxiliaryLines
import MissionScript.Proofs.Statement.Binding
import MissionScript.Proofs.Statement.Conditions
import MissionScript.Proofs.Statement.Extension
import MissionScript.Proofs.Statement.Extent
import MissionScript.Proofs.Statement.Indentation
import MissionScript.Proofs.Statement.Occurrences
import MissionScript.Proofs.Statement.Origin
import MissionScript.Proofs.Statement.Placing
import MissionScript.Proofs.Statement.Problems
import MissionScript.Proofs.Statement.Proper
import MissionScript.Proofs.Statement.Recognition
import MissionScript.Proofs.Statement.Renumbering
import MissionScript.Proofs.Statement.ScriptCalls
import MissionScript.Proofs.Statement.Variables
import MissionScript.Proofs.Text.Decimals
import MissionScript.Proofs.Token.Extent
import MissionScript.Proofs.Token.Indentation
import MissionScript.Proofs.Token.Likeness
import MissionScript.Proofs.Token.LookBack
import MissionScript.Proofs.Token.Numbers
import MissionScript.Proofs.Token.Scanning
import MissionScript.Proofs.Token.Shape
import MissionScript.Proofs.Token.Strings
import MissionScript.Proofs.Token.Templates
import MissionScript.Proofs.Token.Tiling
import MissionScript.Proofs.Token.Values
import MissionScript.Proofs.Tree.Displacement
import MissionScript.Proofs.Tree.Insertion
import MissionScript.Proofs.Tree.Order
import MissionScript.Proofs.Tree.Precedence
import MissionScript.Proofs.Tree.Shape
import MissionScript.Proofs.Tree.Walk
