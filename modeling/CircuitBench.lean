import CircuitBench.Text.Blank
import CircuitBench.Text.Line
import CircuitBench.Text.Numeral
import CircuitBench.Binary64.Shortest
import CircuitBench.Binary64.Fixed
import CircuitBench.Json.Reader
import CircuitBench.Json.Printer
import CircuitBench.Json.Record
import CircuitBench.Gate
import CircuitBench.Circuit.Basic
import CircuitBench.Circuit.Description
import CircuitBench.Circuit.Level
import CircuitBench.Circuit.Instruction
import CircuitBench.Assembly.Token
import CircuitBench.Assembly.Lexer
import CircuitBench.Assembly.Statement
import CircuitBench.Assembly.Registers
import CircuitBench.Assembly.Reader
import CircuitBench.Assembly.Printer
import CircuitBench.Assembly.Script
import CircuitBench.Wire.Circuit
import CircuitBench.Histogram
import CircuitBench.State.Vector
import CircuitBench.Sampling.Keystream
import CircuitBench.Sampling.Tally
import CircuitBench.Backend.Generation
import CircuitBench.Backend.Error
import CircuitBench.Backend.Response
import CircuitBench.Backend.Basic
import CircuitBench.Backend.Registry
import CircuitBench.Backend.Simulator
import CircuitBench.Backend.Replay
import CircuitBench.Settings
import CircuitBench.Service.Error
import CircuitBench.Service.Execution
import CircuitBench.Service.Message
import CircuitBench.Service.Basic
import CircuitBench.Wire.Backend
import CircuitBench.Wire.Settings
import CircuitBench.Wire.Message
import CircuitBench.Yaml.Basic
import CircuitBench.Yaml.Token
import CircuitBench.Yaml.Reader
import CircuitBench.Yaml.Field
import CircuitBench.Yaml.Settings
import CircuitBench.FileTree
import CircuitBench.CommandLine.Argument
import CircuitBench.CommandLine.Command
import CircuitBench.CommandLine.Help
import CircuitBench.CommandLine.Host
import CircuitBench.CommandLine.VariableFile
import CircuitBench.CommandLine.Table
import CircuitBench.CommandLine.Program
import CircuitBench.Main
import CircuitBench.Proofs.Circuit.Dependency
import CircuitBench.Proofs.Assembly.Lexing
import CircuitBench.Proofs.Circuit.LongestChain
import CircuitBench.Proofs.Assembly.Statement
import CircuitBench.Proofs.Text.Line
import CircuitBench.Proofs.Assembly.PrintedLine
import CircuitBench.Proofs.Assembly.Reader
import CircuitBench.Proofs.Assembly.RoundTrip
import CircuitBench.Proofs.Assembly.Script
import CircuitBench.Proofs.Service.Interchange
import CircuitBench.Proofs.State.Sweep
import CircuitBench.Proofs.Circuit.Building
import CircuitBench.Proofs.State.Conservation
import CircuitBench.Proofs.State.Vanishing
import CircuitBench.Proofs.State.Classical
import CircuitBench.Proofs.Sampling.Draw
import CircuitBench.Proofs.Sampling.Histogram
import CircuitBench.Proofs.Sampling.Report
import CircuitBench.Proofs.Sampling.Rounding
import CircuitBench.Proofs.Backend.Simulator
import CircuitBench.Proofs.Backend.Generations
import CircuitBench.Proofs.Backend.Certainty
import CircuitBench.Proofs.Binary64.Packing
import CircuitBench.Proofs.Binary64.Rounding
import CircuitBench.Proofs.Binary64.Shares
import CircuitBench.Proofs.Binary64.Zeros
import CircuitBench.Proofs.Circuit.Transport
import CircuitBench.Proofs.Circuit.Reordering
import CircuitBench.Proofs.Circuit.Renaming
import CircuitBench.Proofs.State.Commutation
import CircuitBench.Proofs.State.Reordering
import CircuitBench.Proofs.State.Renaming
import CircuitBench.Proofs.Backend.Selection
import CircuitBench.Proofs.Service.Run
import CircuitBench.Proofs.Service.Capacity
import CircuitBench.Proofs.Service.Lifecycle
import CircuitBench.Proofs.Sampling.Bitstring
import CircuitBench.Proofs.Sampling.Possible
import CircuitBench.Proofs.Binary64.Signs
import CircuitBench.Proofs.Service.Completion
import CircuitBench.Proofs.Assembly.Comment
import CircuitBench.Proofs.Assembly.CommentLayout
import CircuitBench.Proofs.Assembly.CommentedText
import CircuitBench.Proofs.Assembly.Flattening
import CircuitBench.Proofs.Assembly.RegisterLayout
import CircuitBench.Proofs.Assembly.Declaration
import CircuitBench.Proofs.Assembly.Separation
import CircuitBench.Proofs.State.Reversal
import CircuitBench.Proofs.State.Update
import CircuitBench.Proofs.Assembly.FirstStatement
import CircuitBench.Proofs.CommandLine.Loading
import CircuitBench.Proofs.Sampling.Ascent
import CircuitBench.Proofs.Binary64.Nearest
import CircuitBench.Proofs.Binary64.Sums
import CircuitBench.Proofs.Binary64.Draws
import CircuitBench.Proofs.Sampling.Inversion
import CircuitBench.Proofs.Assembly.LineForm
import CircuitBench.Proofs.Assembly.Limit
import CircuitBench.Proofs.Circuit.FaultPosition
import CircuitBench.Proofs.Circuit.Layering
import CircuitBench.Proofs.Circuit.NormalForm
import CircuitBench.Proofs.Assembly.LineStep
import CircuitBench.Proofs.Assembly.Insertion
import CircuitBench.Proofs.Assembly.WholeFault
import CircuitBench.Proofs.Assembly.FirstFault
import CircuitBench.Proofs.Text.ByteOrder
import CircuitBench.Proofs.Backend.Registration
import CircuitBench.Proofs.Sampling.Collection
import CircuitBench.Proofs.Backend.IterationOrder
import CircuitBench.Proofs.State.UnusedQubit
import CircuitBench.Proofs.Backend.UnusedQubit
import CircuitBench.Proofs.State.Checked
import CircuitBench.Proofs.Sampling.Checked
import CircuitBench.Proofs.Service.Safety
import CircuitBench.Proofs.Backend.OutcomeOrder
import CircuitBench.Proofs.Sampling.Clamp
import CircuitBench.Proofs.Wire.RoundTrip
import CircuitBench.Proofs.Assembly.Layout
import CircuitBench.Proofs.Assembly.CommentPattern
import CircuitBench.Proofs.Assembly.Renumbering
import CircuitBench.Proofs.Assembly.RegisterWords
import CircuitBench.Proofs.Assembly.WrittenNumber
import CircuitBench.Proofs.Assembly.CappedNumber
