import BlockCircuit.Check
import BlockCircuit.CommandLine.Arguments
import BlockCircuit.CommandLine.Plan
import BlockCircuit.CommandLine.Report
import BlockCircuit.CommandLine.Run
import BlockCircuit.Compilation
import BlockCircuit.CompileError
import BlockCircuit.Decimal.Double
import BlockCircuit.Decimal.Shortest
import BlockCircuit.Diagnostic
import BlockCircuit.Digest.Message
import BlockCircuit.Digest.Sha1
import BlockCircuit.Digest.Sha256
import BlockCircuit.Document.Load
import BlockCircuit.Document.OfText
import BlockCircuit.Document.OfValue
import BlockCircuit.Document.Schema
import BlockCircuit.Event
import BlockCircuit.File.Tree
import BlockCircuit.Identifier
import BlockCircuit.Json.Fault
import BlockCircuit.Json.Nesting
import BlockCircuit.Json.Printer
import BlockCircuit.Json.Reader
import BlockCircuit.Json.Scan
import BlockCircuit.Json.Skip
import BlockCircuit.Json.Value
import BlockCircuit.Main
import BlockCircuit.Pins
import BlockCircuit.Project.Basic
import BlockCircuit.Project.Edit
import BlockCircuit.Proofs.Check.Ends
import BlockCircuit.Proofs.Check.Findings
import BlockCircuit.Proofs.Check.Order
import BlockCircuit.Proofs.Check.Violations
import BlockCircuit.Proofs.Check.WellFormed
import BlockCircuit.Proofs.CommandLine.Agreement
import BlockCircuit.Proofs.CommandLine.Arguments
import BlockCircuit.Proofs.CommandLine.Outcome
import BlockCircuit.Proofs.CommandLine.Unchecked
import BlockCircuit.Proofs.Compilation.Accepted
import BlockCircuit.Proofs.Compilation.Constraints
import BlockCircuit.Proofs.Compilation.Cycles
import BlockCircuit.Proofs.Compilation.Dependencies
import BlockCircuit.Proofs.Compilation.Failure
import BlockCircuit.Proofs.Compilation.Output
import BlockCircuit.Proofs.Compilation.Pins
import BlockCircuit.Proofs.Compilation.Provenance
import BlockCircuit.Proofs.Compilation.Reordered
import BlockCircuit.Proofs.Compilation.Unconnected
import BlockCircuit.Proofs.Compilation.Whole
import BlockCircuit.Proofs.Document.Accepted
import BlockCircuit.Proofs.Document.Agreement
import BlockCircuit.Proofs.Document.Dependencies
import BlockCircuit.Proofs.Document.Keyed
import BlockCircuit.Proofs.Document.Loaded
import BlockCircuit.Proofs.Document.Meaning
import BlockCircuit.Proofs.Document.Parts
import BlockCircuit.Proofs.Document.PinValues
import BlockCircuit.Proofs.Document.Readings
import BlockCircuit.Proofs.Document.Records
import BlockCircuit.Proofs.Document.Replaced
import BlockCircuit.Proofs.Document.Respelled
import BlockCircuit.Proofs.Document.Surroundings
import BlockCircuit.Proofs.File.Extension
import BlockCircuit.Proofs.File.Writing
import BlockCircuit.Proofs.Json.Framing
import BlockCircuit.Proofs.Json.Grammar
import BlockCircuit.Proofs.Json.Integers
import BlockCircuit.Proofs.Json.Numerals
import BlockCircuit.Proofs.Json.Passing
import BlockCircuit.Proofs.Json.Printing
import BlockCircuit.Proofs.Json.Skipping
import BlockCircuit.Proofs.Json.Spelling
import BlockCircuit.Proofs.Json.Steps
import BlockCircuit.Proofs.Json.Strings
import BlockCircuit.Proofs.Json.Values
import BlockCircuit.Proofs.Json.Yields
import BlockCircuit.Proofs.Project.Cycles
import BlockCircuit.Proofs.Project.ModuleName
import BlockCircuit.Proofs.Project.Rearranged
import BlockCircuit.Proofs.Project.Tree
import BlockCircuit.Proofs.Text.Pieces
import BlockCircuit.Proofs.Verilog.AddedWire
import BlockCircuit.Proofs.Verilog.Connections
import BlockCircuit.Proofs.Verilog.DeclaredNames
import BlockCircuit.Proofs.Verilog.Hierarchy
import BlockCircuit.Proofs.Verilog.Hyphens
import BlockCircuit.Proofs.Verilog.Instances
import BlockCircuit.Proofs.Verilog.ModulePaths
import BlockCircuit.Proofs.Verilog.ModuleText
import BlockCircuit.Proofs.Verilog.Modules
import BlockCircuit.Proofs.Verilog.NetUse
import BlockCircuit.Proofs.Verilog.Postorder
import BlockCircuit.Proofs.Verilog.ReorderedWires
import BlockCircuit.Proofs.Verilog.Written
import BlockCircuit.Provenance
import BlockCircuit.Table
import BlockCircuit.Text.Bytes
import BlockCircuit.Text.Pieces
import BlockCircuit.Text.Quoted
import BlockCircuit.Verilog.Body
import BlockCircuit.Verilog.Emission
