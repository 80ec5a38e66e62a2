import MinerFleet.Address.HostName
import MinerFleet.Address.Ipv4
import MinerFleet.Address.Socket
import MinerFleet.Address.Subnet
import MinerFleet.Api.Body
import MinerFleet.Api.Client
import MinerFleet.Api.Content
import MinerFleet.Api.Route
import MinerFleet.CommandLine.Arguments
import MinerFleet.CommandLine.Report
import MinerFleet.Config
import MinerFleet.Daemon.Basic
import MinerFleet.Daemon.Boot
import MinerFleet.Decimal.Binary
import MinerFleet.Decimal.Numeral
import MinerFleet.Decimal.Quotient
import MinerFleet.Decimal.Shortest
import MinerFleet.Device.Basic
import MinerFleet.Device.Model
import MinerFleet.Device.Wire
import MinerFleet.Engine.Basic
import MinerFleet.Engine.Countdown
import MinerFleet.Engine.System
import MinerFleet.Fault
import MinerFleet.Fleet.Family
import MinerFleet.Fleet.Filter
import MinerFleet.Fleet.Notice
import MinerFleet.Fleet.Order
import MinerFleet.Fleet.Snapshot
import MinerFleet.Fleet.Sorting
import MinerFleet.Fleet.Totals
import MinerFleet.Http.Message
import MinerFleet.Http.Status
import MinerFleet.Http.Url
import MinerFleet.Http.Wire
import MinerFleet.Json.Basic
import MinerFleet.Json.Decode
import MinerFleet.Json.Document
import MinerFleet.Json.KeyMap
import MinerFleet.Json.Number
import MinerFleet.Json.Printer
import MinerFleet.Json.Reader
import MinerFleet.Log
import MinerFleet.Magnitude.Basic
import MinerFleet.Magnitude.Difficulty
import MinerFleet.Main
import MinerFleet.Probe.Action
import MinerFleet.Probe.Basic
import MinerFleet.Probe.Failure
import MinerFleet.Probe.Interface
import MinerFleet.Probe.Job
import MinerFleet.Probe.Network
import MinerFleet.Probe.Pass
import MinerFleet.Probe.Pool
import MinerFleet.Program.Connection
import MinerFleet.Program.Disk
import MinerFleet.Program.Service
import MinerFleet.Program.Terminal
import MinerFleet.Program.Worker
import MinerFleet.Registry
import MinerFleet.Store.Basic
import MinerFleet.Store.File
import MinerFleet.Store.Folder
import MinerFleet.Text.Basic
import MinerFleet.Text.CaseTable
import MinerFleet.Text.LowerCase
import MinerFleet.Text.NaturalOrder
import MinerFleet.Text.Percent
import MinerFleet.Text.Quoted
import MinerFleet.Text.Utf8
import MinerFleet.Proofs.Registry.Devices
import MinerFleet.Proofs.Engine.Effects
import MinerFleet.Proofs.Probe.Outcome
import MinerFleet.Proofs.System.Run
import MinerFleet.Proofs.System.Passes
import MinerFleet.Proofs.Engine.Fleet
import MinerFleet.Proofs.System.Dialed
import MinerFleet.Proofs.System.Overlap
import MinerFleet.Proofs.Json.Fields
import MinerFleet.Proofs.Json.Normal
import MinerFleet.Proofs.Json.Tokens
import MinerFleet.Proofs.Json.Nesting
import MinerFleet.Proofs.Decimal.Finite
import MinerFleet.Proofs.Json.Finite
import MinerFleet.Proofs.Json.Layout
import MinerFleet.Proofs.Json.Records
import MinerFleet.Proofs.Device.Wire
import MinerFleet.Proofs.Fleet.Wire
import MinerFleet.Proofs.Address.Literal
import MinerFleet.Proofs.Probe.Identity
import MinerFleet.Proofs.Store.File
import MinerFleet.Proofs.Store.Interruption
import MinerFleet.Proofs.System.Identity
import MinerFleet.Proofs.System.Naming
import MinerFleet.Proofs.System.Records
import MinerFleet.Proofs.System.Published
import MinerFleet.Proofs.Engine.Refusal
import MinerFleet.Proofs.Fleet.Order
import MinerFleet.Proofs.Registry.Changes
import MinerFleet.Proofs.Engine.Countdown
import MinerFleet.Proofs.Engine.Storage
import MinerFleet.Proofs.System.Restart
import MinerFleet.Proofs.System.Tickets
import MinerFleet.Proofs.System.Quiet
import MinerFleet.Proofs.Engine.Publication
import MinerFleet.Proofs.System.Readers
import MinerFleet.Proofs.System.Timing
import MinerFleet.Proofs.Probe.Results
import MinerFleet.Proofs.System.Failures
import MinerFleet.Proofs.Probe.Layers
import MinerFleet.Proofs.Probe.Unchanged
import MinerFleet.Proofs.Probe.Classification
import MinerFleet.Proofs.Probe.Schedule
import MinerFleet.Proofs.Probe.Pass
import MinerFleet.Proofs.Daemon.Run
import MinerFleet.Proofs.Daemon.Sound
import MinerFleet.Proofs.Daemon.Requests
import MinerFleet.Proofs.Daemon.Clock
import MinerFleet.Proofs.Daemon.Deadline
import MinerFleet.Proofs.Daemon.Added
import MinerFleet.Proofs.System.Calls
import MinerFleet.Proofs.Daemon.Calls
import MinerFleet.Proofs.Address.Order
import MinerFleet.Proofs.Address.Subnet
import MinerFleet.Proofs.Config.Discovery
import MinerFleet.Proofs.Registry.Reports
import MinerFleet.Proofs.System.Completion
import MinerFleet.Proofs.System.Derived
import MinerFleet.Proofs.Address.Hosts
import MinerFleet.Proofs.Probe.Chips
import MinerFleet.Proofs.Decimal.Sum
import MinerFleet.Proofs.Fleet.Totals
import MinerFleet.Proofs.Probe.Refresh
import MinerFleet.Proofs.System.Recovery
import MinerFleet.Proofs.Config.Seed
import MinerFleet.Proofs.Text.Rows
import MinerFleet.Proofs.Text.Walk
import MinerFleet.Proofs.Text.Embedded
import MinerFleet.Proofs.Address.Total
import MinerFleet.Proofs.Fleet.Sorting
import MinerFleet.Proofs.Fleet.Arrangement
import MinerFleet.Proofs.Registry.Batches
import MinerFleet.Proofs.Probe.Duration
import MinerFleet.Proofs.Address.Canonical
import MinerFleet.Proofs.Decimal.Amount
import MinerFleet.Proofs.Magnitude.Overflow
import MinerFleet.Proofs.Device.Layering
import MinerFleet.Proofs.Address.HostName
import MinerFleet.Proofs.Text.SmallLetters
import MinerFleet.Proofs.Fleet.Filter
import MinerFleet.Proofs.Decimal.Rounding
import MinerFleet.Proofs.Decimal.Nearest
import MinerFleet.Proofs.Decimal.Operations
import MinerFleet.Proofs.Decimal.Fixed
import MinerFleet.Proofs.Magnitude.Reading
import MinerFleet.Proofs.Magnitude.Display
import MinerFleet.Proofs.Magnitude.Agreement
