import SampleData.Action
import SampleData.CommandLine
import SampleData.CommandLine.Help
import SampleData.Config
import SampleData.Config.File
import SampleData.Decimal.Binary64
import SampleData.Decimal.Fixed
import SampleData.Decimal.Shortest
import SampleData.Disk
import SampleData.Disk.Path
import SampleData.Draw.ChaCha
import SampleData.Draw.Identifier
import SampleData.Draw.Progression
import SampleData.Draw.Source
import SampleData.Draw.Uniform
import SampleData.Generator
import SampleData.Instruction
import SampleData.Instruction.ListLiteral
import SampleData.Json
import SampleData.Json.Document
import SampleData.Json.Fault
import SampleData.Json.Number
import SampleData.Json.Printer
import SampleData.Json.Quoted
import SampleData.Json.Reader
import SampleData.Kind
import SampleData.Main
import SampleData.Moment
import SampleData.Naming
import SampleData.Output.Buffer
import SampleData.Output.Clear
import SampleData.Output.JsonLines
import SampleData.Output.Limited
import SampleData.Output.Metrics
import SampleData.Output.Populate
import SampleData.Output.Workers
import SampleData.Partition
import SampleData.Plan
import SampleData.Plan.Compile
import SampleData.Plan.Stored
import SampleData.Program
import SampleData.Record
import SampleData.Run
import SampleData.Schema
import SampleData.Schema.Origin
import SampleData.Settings
import SampleData.Text.Blank
import SampleData.Text.Causes
import SampleData.Text.Cut
import SampleData.Text.Numeral
import SampleData.Text.Position
import SampleData.Text.Unstyled
import SampleData.Toml
import SampleData.Toml.Document
import SampleData.Toml.Fault
import SampleData.Toml.Quoted
import SampleData.Toml.Scalar
import SampleData.Proofs.Compilation
import SampleData.Proofs.EndedDraws
import SampleData.Proofs.Conformance
import SampleData.Proofs.JsonStrings
import SampleData.Proofs.NumberLiterals
import SampleData.Proofs.JsonGrammar
import SampleData.Proofs.AcceptedJson
import SampleData.Proofs.JsonText
import SampleData.Proofs.ProgramLogic
import SampleData.Proofs.LineDecoding
import SampleData.Proofs.ActionRules
import SampleData.Proofs.DiskFrame
import SampleData.Turns
import SampleData.Proofs.SharedDirectory
import SampleData.Proofs.Streams
import SampleData.Proofs.Consumption
import SampleData.Proofs.NumberedFiles
import SampleData.Proofs.FileShares
import SampleData.Proofs.FailedDraws
import SampleData.Proofs.Crews
import SampleData.Proofs.MergedOutputs
import SampleData.Proofs.Schedules
import SampleData.Proofs.Trimming
import SampleData.Proofs.SignedNumerals
import SampleData.Proofs.InstructionLanguage
import SampleData.Proofs.ListElements
import SampleData.Proofs.ExpressibleStrategies
import SampleData.Proofs.OpenedFiles
import SampleData.Proofs.OutputLabels
import SampleData.Proofs.WrittenFiles
import SampleData.Proofs.CutStreams
import SampleData.Proofs.MissingDirectory
import SampleData.Proofs.Failures
import SampleData.Proofs.EvenPartition
import SampleData.Proofs.SilentFields
import SampleData.Proofs.StoredPlans
import SampleData.Proofs.RepeatedKeys
import SampleData.Proofs.SchemaText
import SampleData.Proofs.TomlStrings
import SampleData.Proofs.TomlText
import SampleData.Proofs.ConfigText
import SampleData.Proofs.DirectoryEntries
import SampleData.Proofs.Requests
import SampleData.Proofs.RunStages
import SampleData.Proofs.Footprints
import SampleData.Proofs.RunFrame
import SampleData.Proofs.ClearedDirectory
import SampleData.Proofs.DrawnFiles
import SampleData.Proofs.CompletedRuns
import SampleData.Proofs.Regeneration
import SampleData.Proofs.AlikeSinks
import SampleData.Proofs.LimitedRoom
import SampleData.Proofs.RefusedChunks
import SampleData.Proofs.UniformDraws
import SampleData.Proofs.FirstFailure
import SampleData.Proofs.JsonMembers
import SampleData.Proofs.SchemaReading
import SampleData.Proofs.AlikePlans
import SampleData.Proofs.AlikeActions
import SampleData.Proofs.SingleWorker
import SampleData.Proofs.IdentifierBits
import SampleData.Proofs.ReversedRanges
import SampleData.Proofs.RecordForms
import SampleData.Proofs.RunAccounts
