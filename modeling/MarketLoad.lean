import MarketLoad.Binary64.Basic
import MarketLoad.Binary64.Text
import MarketLoad.Catalog
import MarketLoad.Clock
import MarketLoad.Command
import MarketLoad.CommandLine.Arguments
import MarketLoad.CommandLine.Notice
import MarketLoad.CommandLine.Program
import MarketLoad.Decimal.Basic
import MarketLoad.Decimal.Rounding
import MarketLoad.Decimal.Text
import MarketLoad.Endpoint
import MarketLoad.Export
import MarketLoad.Failure
import MarketLoad.Fault
import MarketLoad.FileTree
import MarketLoad.Identity
import MarketLoad.Json.Binary64
import MarketLoad.Json.Printer
import MarketLoad.Json.Reader
import MarketLoad.Json.Recorded
import MarketLoad.Json.Value
import MarketLoad.Latency
import MarketLoad.Main
import MarketLoad.Nanos
import MarketLoad.Order
import MarketLoad.OrderFlow
import MarketLoad.Outcome
import MarketLoad.Powers
import MarketLoad.Price
import MarketLoad.Proofs.Catalog
import MarketLoad.Proofs.Cents
import MarketLoad.Proofs.Clock
import MarketLoad.Proofs.Command
import MarketLoad.Proofs.Consistency
import MarketLoad.Proofs.Decimal.Nearest
import MarketLoad.Proofs.Decimal.Product
import MarketLoad.Proofs.Decimal.Text
import MarketLoad.Proofs.Decimal.Value
import MarketLoad.Proofs.Export
import MarketLoad.Proofs.Histogram
import MarketLoad.Proofs.Identity
import MarketLoad.Proofs.Integrity
import MarketLoad.Proofs.Jitter
import MarketLoad.Proofs.Json.Reader
import MarketLoad.Proofs.Json.Recorded
import MarketLoad.Proofs.Latency
import MarketLoad.Proofs.Notifications
import MarketLoad.Proofs.Order
import MarketLoad.Proofs.OrderBounds
import MarketLoad.Proofs.OrderFlow
import MarketLoad.Proofs.PositivePrices
import MarketLoad.Proofs.Price
import MarketLoad.Proofs.Reconciliation
import MarketLoad.Proofs.Record.RoundTrip
import MarketLoad.Proofs.Record.Validity
import MarketLoad.Proofs.Roster
import MarketLoad.Proofs.Run.Collecting
import MarketLoad.Proofs.Run.Crowd
import MarketLoad.Proofs.Run.ExactlyOnce
import MarketLoad.Proofs.Run.Gate
import MarketLoad.Proofs.Run.Isolation
import MarketLoad.Proofs.Run.Makespan
import MarketLoad.Proofs.Run.Perform
import MarketLoad.Proofs.Run.Schedule
import MarketLoad.Proofs.Run.SlotLimit
import MarketLoad.Proofs.Script
import MarketLoad.Proofs.Session.ClockEnd
import MarketLoad.Proofs.Session.Course
import MarketLoad.Proofs.Session.Faults
import MarketLoad.Proofs.Session.Later
import MarketLoad.Proofs.Session.OrderStream
import MarketLoad.Proofs.Session.Registration
import MarketLoad.Proofs.Session.Samples
import MarketLoad.Proofs.Session.Serving
import MarketLoad.Proofs.Session.SlotTime
import MarketLoad.Proofs.Session.Timetable
import MarketLoad.Proofs.Session.Window
import MarketLoad.Proofs.Session.Wire
import MarketLoad.Proofs.Settings
import MarketLoad.Proofs.Text.Digits
import MarketLoad.Proofs.Text.Lines
import MarketLoad.Proofs.Text.Utf8
import MarketLoad.Proofs.Totals
import MarketLoad.Proofs.Transcript
import MarketLoad.Proofs.Venue.Answering
import MarketLoad.Proofs.Venue.Delivery
import MarketLoad.Proofs.Venue.Later
import MarketLoad.Proofs.Venue.Reading
import MarketLoad.Proofs.Venue.Stream
import MarketLoad.Proofs.Venue.Time
import MarketLoad.Proofs.Venue.Writing
import MarketLoad.Proofs.Wire
import MarketLoad.RandomStream
import MarketLoad.Record.Exports
import MarketLoad.Record.Orders
import MarketLoad.Record.Outcomes
import MarketLoad.Record.Reports
import MarketLoad.Record.Times
import MarketLoad.Report
import MarketLoad.Rounding
import MarketLoad.Run.Collector
import MarketLoad.Run.Debts
import MarketLoad.Run.Dispatch
import MarketLoad.Run.Gate
import MarketLoad.Run.Result
import MarketLoad.Run.Schedule
import MarketLoad.Run.Slots
import MarketLoad.RunId
import MarketLoad.Script
import MarketLoad.Session.Course
import MarketLoad.Session.Phase
import MarketLoad.Session.Registration
import MarketLoad.Session.Settings
import MarketLoad.Session.Trading
import MarketLoad.Settings.Basic
import MarketLoad.Settings.Error
import MarketLoad.Settings.File
import MarketLoad.Span
import MarketLoad.Text.Blank
import MarketLoad.Text.Digits
import MarketLoad.Text.Invisible
import MarketLoad.Text.Lines
import MarketLoad.Text.Quoted
import MarketLoad.Text.Utf8
import MarketLoad.Timestamp
import MarketLoad.Toml.Quoted
import MarketLoad.Toml.Reader
import MarketLoad.Toml.Scalar
import MarketLoad.Toml.Tables
import MarketLoad.Toml.Value
import MarketLoad.Venue.Connection
import MarketLoad.Venue.Link
import MarketLoad.Venue.Peer
