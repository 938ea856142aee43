import AccessRecords.Backend
import AccessRecords.Collection
import AccessRecords.CommandLine
import AccessRecords.Config
import AccessRecords.Context
import AccessRecords.Failure
import AccessRecords.Failure.Reader
import AccessRecords.FileTree
import AccessRecords.Http
import AccessRecords.Http.Target
import AccessRecords.Json.Decoder
import AccessRecords.Json.Fault
import AccessRecords.Json.Number
import AccessRecords.Json.Parser
import AccessRecords.Json.Printer
import AccessRecords.Json.Reader
import AccessRecords.Json.Schema
import AccessRecords.Json.Skip
import AccessRecords.Json.Text
import AccessRecords.Json.Value
import AccessRecords.Main
import AccessRecords.Number.Double
import AccessRecords.Number.Power
import AccessRecords.Number.Shortest
import AccessRecords.Page
import AccessRecords.Proofs.Collection.Names
import AccessRecords.Proofs.Config
import AccessRecords.Proofs.Except
import AccessRecords.Proofs.Failure.RoundTrip
import AccessRecords.Proofs.Json.Embedded
import AccessRecords.Proofs.Json.Fields
import AccessRecords.Proofs.Json.Literal
import AccessRecords.Proofs.Json.Printed
import AccessRecords.Proofs.Json.Reading
import AccessRecords.Proofs.Json.RoundTrip
import AccessRecords.Proofs.Json.Schema
import AccessRecords.Proofs.Json.Tracking
import AccessRecords.Proofs.Json.Verbatim
import AccessRecords.Proofs.Json.Yield
import AccessRecords.Proofs.Page
import AccessRecords.Proofs.Page.Asked
import AccessRecords.Proofs.Page.Windows
import AccessRecords.Proofs.Query
import AccessRecords.Proofs.Record.Conditions
import AccessRecords.Proofs.Record.Document
import AccessRecords.Proofs.Record.Effects
import AccessRecords.Proofs.Record.Filters
import AccessRecords.Proofs.Record.Ids
import AccessRecords.Proofs.Record.Listing
import AccessRecords.Proofs.Record.Normal
import AccessRecords.Proofs.Record.RoundTrip
import AccessRecords.Proofs.Search.Constraints
import AccessRecords.Proofs.Search.FilterFirst
import AccessRecords.Proofs.Search.Order
import AccessRecords.Proofs.Search.Paging
import AccessRecords.Proofs.Search.Recognition
import AccessRecords.Proofs.Search.Run
import AccessRecords.Proofs.Search.Scan
import AccessRecords.Proofs.Search.Specification
import AccessRecords.Proofs.Service.Address
import AccessRecords.Proofs.Service.Aliases
import AccessRecords.Proofs.Service.Allowing
import AccessRecords.Proofs.Service.Cancelled
import AccessRecords.Proofs.Service.Commuting
import AccessRecords.Proofs.Service.Documents
import AccessRecords.Proofs.Service.Failures
import AccessRecords.Proofs.Service.Filing
import AccessRecords.Proofs.Service.History
import AccessRecords.Proofs.Service.Isolation
import AccessRecords.Proofs.Service.Listed
import AccessRecords.Proofs.Service.Naming
import AccessRecords.Proofs.Service.Outcome
import AccessRecords.Proofs.Service.Reconciling
import AccessRecords.Proofs.Service.Request
import AccessRecords.Proofs.Service.Runs
import AccessRecords.Proofs.Service.Seeding
import AccessRecords.Proofs.Service.Statuses
import AccessRecords.Proofs.Store.Calls
import AccessRecords.Proofs.Store.Contents
import AccessRecords.Proofs.Store.Counting
import AccessRecords.Proofs.Store.Documents
import AccessRecords.Proofs.Store.FiniteMap
import AccessRecords.Proofs.Store.Loading
import AccessRecords.Proofs.Store.Operations
import AccessRecords.Proofs.Text.Numeral
import AccessRecords.Proofs.Text.Order
import AccessRecords.Proofs.Text.Trim
import AccessRecords.Proofs.Text.Word
import AccessRecords.Query
import AccessRecords.Record
import AccessRecords.Record.Effect
import AccessRecords.Record.Policy
import AccessRecords.Record.Role
import AccessRecords.Search
import AccessRecords.Seed
import AccessRecords.Service
import AccessRecords.Service.Endpoint
import AccessRecords.Service.Incoming
import AccessRecords.Store
import AccessRecords.Table
import AccessRecords.Table.Entries
import AccessRecords.Text.Blank
import AccessRecords.Text.Numeral
import AccessRecords.Text.Percent
import AccessRecords.Text.Pieces
import AccessRecords.Text.Quoted
import AccessRecords.Text.Unprintable
import AccessRecords.Text.Utf8
