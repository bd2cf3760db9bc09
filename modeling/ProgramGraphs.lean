import ProgramGraphs.AliasClass
import ProgramGraphs.CallGraph
import ProgramGraphs.CommandLine.Arguments
import ProgramGraphs.CommandLine.Config
import ProgramGraphs.CommandLine.Usage
import ProgramGraphs.ControlFlow.Basic
import ProgramGraphs.ControlFlow.Block
import ProgramGraphs.ControlFlow.Dependence
import ProgramGraphs.ControlFlow.Dominance
import ProgramGraphs.Dot.Basic
import ProgramGraphs.Dot.Quoted
import ProgramGraphs.Error
import ProgramGraphs.Escape
import ProgramGraphs.Fresh
import ProgramGraphs.Graph.Adjacency
import ProgramGraphs.Graph.Basic
import ProgramGraphs.Graph.Component
import ProgramGraphs.Graph.Dominator
import ProgramGraphs.Graph.Search
import ProgramGraphs.GraphKind
import ProgramGraphs.Journal
import ProgramGraphs.Json.Binary64
import ProgramGraphs.Json.Decimal
import ProgramGraphs.Json.Decoder
import ProgramGraphs.Json.Failure
import ProgramGraphs.Json.ScaledWord
import ProgramGraphs.Json.Token
import ProgramGraphs.Json.Tree
import ProgramGraphs.Json.Value
import ProgramGraphs.Main
import ProgramGraphs.Module
import ProgramGraphs.Output.Backend
import ProgramGraphs.Output.Emission
import ProgramGraphs.Output.FileName
import ProgramGraphs.Output.FileTree
import ProgramGraphs.Output.Format
import ProgramGraphs.Output.Host
import ProgramGraphs.Output.Path
import ProgramGraphs.Picture.Basic
import ProgramGraphs.Picture.Draw
import ProgramGraphs.Pipeline
import ProgramGraphs.PointsTo.Basic
import ProgramGraphs.PointsTo.Inclusion
import ProgramGraphs.Program.Basic
import ProgramGraphs.Program.Decode
import ProgramGraphs.Program.Encode
import ProgramGraphs.Program.Fault
import ProgramGraphs.Promotion
import ProgramGraphs.Proofs.AliasClass
import ProgramGraphs.Proofs.AliasClass.Connection
import ProgramGraphs.Proofs.AliasClass.Forest
import ProgramGraphs.Proofs.ByteOrder
import ProgramGraphs.Proofs.CallGraph
import ProgramGraphs.Proofs.CallGraph.Interning
import ProgramGraphs.Proofs.CallGraph.Record
import ProgramGraphs.Proofs.CallGraph.Unresolved
import ProgramGraphs.Proofs.CommandLine.Help
import ProgramGraphs.Proofs.CommandLine.Mention
import ProgramGraphs.Proofs.CommandLine.Name
import ProgramGraphs.Proofs.CommandLine.Verdict
import ProgramGraphs.Proofs.ControlFlow.Acceptance
import ProgramGraphs.Proofs.ControlFlow.Branch
import ProgramGraphs.Proofs.ControlFlow.Dependence
import ProgramGraphs.Proofs.ControlFlow.Edge
import ProgramGraphs.Proofs.ControlFlow.Label
import ProgramGraphs.Proofs.ControlFlow.Partition
import ProgramGraphs.Proofs.ControlFlow.Section
import ProgramGraphs.Proofs.ControlFlow.Simulation
import ProgramGraphs.Proofs.Dot.Escape
import ProgramGraphs.Proofs.Dot.Faithful
import ProgramGraphs.Proofs.Dot.Grammar
import ProgramGraphs.Proofs.Dot.Reading
import ProgramGraphs.Proofs.Dot.Text
import ProgramGraphs.Proofs.Dot.Token
import ProgramGraphs.Proofs.Escape.Analysis
import ProgramGraphs.Proofs.Escape.Copies
import ProgramGraphs.Proofs.Escape.Least
import ProgramGraphs.Proofs.Escape.Ledger
import ProgramGraphs.Proofs.Escape.Monotone
import ProgramGraphs.Proofs.Escape.Settling
import ProgramGraphs.Proofs.Escape.Summary
import ProgramGraphs.Proofs.Execution.Heap
import ProgramGraphs.Proofs.Execution.Position
import ProgramGraphs.Proofs.Execution.Program
import ProgramGraphs.Proofs.Execution.Run
import ProgramGraphs.Proofs.Fresh
import ProgramGraphs.Proofs.Graph.Ancestry
import ProgramGraphs.Proofs.Graph.Building
import ProgramGraphs.Proofs.Graph.Component
import ProgramGraphs.Proofs.Graph.Condensation
import ProgramGraphs.Proofs.Graph.Dominator
import ProgramGraphs.Proofs.Graph.Exploration
import ProgramGraphs.Proofs.Graph.Filling
import ProgramGraphs.Proofs.Graph.History
import ProgramGraphs.Proofs.Graph.Intersection
import ProgramGraphs.Proofs.Graph.LowLink
import ProgramGraphs.Proofs.Graph.ParentTable
import ProgramGraphs.Proofs.Graph.Postorder
import ProgramGraphs.Proofs.Graph.Settling
import ProgramGraphs.Proofs.GraphKind.Agreement
import ProgramGraphs.Proofs.GraphKind.Checked
import ProgramGraphs.Proofs.GraphKind.Drawing
import ProgramGraphs.Proofs.GraphKind.Printing
import ProgramGraphs.Proofs.Journal
import ProgramGraphs.Proofs.Json.Invariant
import ProgramGraphs.Proofs.Json.Normal
import ProgramGraphs.Proofs.Json.Number
import ProgramGraphs.Proofs.Json.Restore
import ProgramGraphs.Proofs.Json.Scan
import ProgramGraphs.Proofs.Json.Tree
import ProgramGraphs.Proofs.Module
import ProgramGraphs.Proofs.Module.Passes
import ProgramGraphs.Proofs.Numbering
import ProgramGraphs.Proofs.Output.Batch
import ProgramGraphs.Proofs.Output.Defect
import ProgramGraphs.Proofs.Output.Emission
import ProgramGraphs.Proofs.Output.FileName
import ProgramGraphs.Proofs.Output.FileTree
import ProgramGraphs.Proofs.Output.Host
import ProgramGraphs.Proofs.Output.Path
import ProgramGraphs.Proofs.Output.Plan
import ProgramGraphs.Proofs.Picture.Coherent
import ProgramGraphs.Proofs.Picture.Identifier
import ProgramGraphs.Proofs.PointsTo.Constraint
import ProgramGraphs.Proofs.PointsTo.Facts
import ProgramGraphs.Proofs.PointsTo.Pairing
import ProgramGraphs.Proofs.PointsTo.Promotion
import ProgramGraphs.Proofs.PointsTo.Solution
import ProgramGraphs.Proofs.PointsTo.Soundness
import ProgramGraphs.Proofs.PointsTo.Strategy
import ProgramGraphs.Proofs.Program.Loading
import ProgramGraphs.Proofs.Program.RoundTrip
import ProgramGraphs.Proofs.Program.Storage
import ProgramGraphs.Proofs.Promotion.Freshness
import ProgramGraphs.Proofs.Promotion.Memory
import ProgramGraphs.Proofs.Promotion.Position
import ProgramGraphs.Proofs.Promotion.Rewriting
import ProgramGraphs.Proofs.Promotion.Simulation
import ProgramGraphs.Proofs.Promotion.Slot
import ProgramGraphs.Text.ControlSequence
import ProgramGraphs.Text.Visible
