import ComputeTopology.Backoff
import ComputeTopology.Capture
import ComputeTopology.CommandLine.Arguments
import ComputeTopology.CommandLine.Program
import ComputeTopology.Fault
import ComputeTopology.Files.Access
import ComputeTopology.Files.Host
import ComputeTopology.Files.Tree
import ComputeTopology.Hardware.Cache
import ComputeTopology.Hardware.Graphics
import ComputeTopology.Hardware.Link
import ComputeTopology.Hardware.Memory
import ComputeTopology.Hardware.Node
import ComputeTopology.Hardware.Platform
import ComputeTopology.Hardware.Processor
import ComputeTopology.Json.Basic
import ComputeTopology.Json.Codec
import ComputeTopology.Json.Printer
import ComputeTopology.Json.Reader
import ComputeTopology.Json.Token
import ComputeTopology.Layout
import ComputeTopology.Main
import ComputeTopology.Proofs.Agreement
import ComputeTopology.Proofs.Asked
import ComputeTopology.Proofs.AtOnce
import ComputeTopology.Proofs.Attached
import ComputeTopology.Proofs.Blocks
import ComputeTopology.Proofs.Bounded
import ComputeTopology.Proofs.Candid
import ComputeTopology.Proofs.Canonical
import ComputeTopology.Proofs.Captured
import ComputeTopology.Proofs.Completion
import ComputeTopology.Proofs.Consistency
import ComputeTopology.Proofs.Contents
import ComputeTopology.Proofs.Cuts
import ComputeTopology.Proofs.Documents
import ComputeTopology.Proofs.Doubling
import ComputeTopology.Proofs.Entries
import ComputeTopology.Proofs.Exposed
import ComputeTopology.Proofs.FirstHop
import ComputeTopology.Proofs.History
import ComputeTopology.Proofs.Hosts
import ComputeTopology.Proofs.IndexDirectory
import ComputeTopology.Proofs.Joined
import ComputeTopology.Proofs.LeftOut
import ComputeTopology.Proofs.Legible
import ComputeTopology.Proofs.ListedOnce
import ComputeTopology.Proofs.Masks
import ComputeTopology.Proofs.Meaning
import ComputeTopology.Proofs.Mutual
import ComputeTopology.Proofs.Notations
import ComputeTopology.Proofs.Noticed
import ComputeTopology.Proofs.Numbered
import ComputeTopology.Proofs.Numerals
import ComputeTopology.Proofs.Omission
import ComputeTopology.Proofs.Overflow
import ComputeTopology.Proofs.Path
import ComputeTopology.Proofs.Permitted
import ComputeTopology.Proofs.Permuted
import ComputeTopology.Proofs.Placed
import ComputeTopology.Proofs.Reading
import ComputeTopology.Proofs.Relisted
import ComputeTopology.Proofs.Renumbered
import ComputeTopology.Proofs.Repeated
import ComputeTopology.Proofs.Replay
import ComputeTopology.Proofs.Restored
import ComputeTopology.Proofs.Result
import ComputeTopology.Proofs.Retry
import ComputeTopology.Proofs.Routed
import ComputeTopology.Proofs.Saturated
import ComputeTopology.Proofs.Scalars
import ComputeTopology.Proofs.Script
import ComputeTopology.Proofs.SettingsFile
import ComputeTopology.Proofs.Sheets
import ComputeTopology.Proofs.Skipped
import ComputeTopology.Proofs.Stable
import ComputeTopology.Proofs.Surfacing
import ComputeTopology.Proofs.Surveyed
import ComputeTopology.Proofs.Switch
import ComputeTopology.Proofs.Tabled
import ComputeTopology.Proofs.Tallied
import ComputeTopology.Proofs.Tidy
import ComputeTopology.Proofs.Told
import ComputeTopology.Proofs.Transcript
import ComputeTopology.Proofs.Unchanging
import ComputeTopology.Proofs.Unmoved
import ComputeTopology.Proofs.Unseen
import ComputeTopology.Proofs.Walk
import ComputeTopology.Proofs.WellFormed
import ComputeTopology.Proofs.Words
import ComputeTopology.Publisher
import ComputeTopology.Replay
import ComputeTopology.Report.Listing
import ComputeTopology.Report.WeightMatrix
import ComputeTopology.Route
import ComputeTopology.Settings
import ComputeTopology.Snapshot
import ComputeTopology.Survey.Attempt
import ComputeTopology.Survey.Basic
import ComputeTopology.Survey.Tally
import ComputeTopology.Sysfs.Content
import ComputeTopology.Sysfs.Fault
import ComputeTopology.Sysfs.Machine
import ComputeTopology.Sysfs.Numbered
import ComputeTopology.Sysfs.ProcessorCaches
import ComputeTopology.Sysfs.ProcessorSet
import ComputeTopology.Sysfs.ProcessorTable
import ComputeTopology.Sysfs.PropertySheet
import ComputeTopology.Sysfs.Records
import ComputeTopology.Text.Blank
import ComputeTopology.Text.Numeral
import ComputeTopology.Toml.Basic
import ComputeTopology.Toml.Layer
import ComputeTopology.Toml.Printer
import ComputeTopology.Toml.Quoted
import ComputeTopology.Toml.Reader
import ComputeTopology.Toml.Scalar
