import LinkRelay.Breaker
import LinkRelay.ByteRange
import LinkRelay.CachedFile
import LinkRelay.Client.Basic
import LinkRelay.Client.Easynews
import LinkRelay.Client.MediaType
import LinkRelay.Client.Premiumize
import LinkRelay.Config.Basic
import LinkRelay.Config.Format
import LinkRelay.Config.SocketAddress
import LinkRelay.Config.Validation
import LinkRelay.Config.Yaml
import LinkRelay.Dictionary
import LinkRelay.Failure
import LinkRelay.Health.Status
import LinkRelay.Health.Target
import LinkRelay.Http.Exchange
import LinkRelay.Http.Message
import LinkRelay.Json.Printer
import LinkRelay.Json.Reader
import LinkRelay.Json.Shape
import LinkRelay.Json.Value
import LinkRelay.Key
import LinkRelay.Limiter
import LinkRelay.Main
import LinkRelay.Metrics
import LinkRelay.Proofs.Breaker
import LinkRelay.Proofs.Client.Configured
import LinkRelay.Proofs.Client.OwnFiles
import LinkRelay.Proofs.Client.Unsent
import LinkRelay.Proofs.Dictionary
import LinkRelay.Proofs.Health.Circuits
import LinkRelay.Proofs.Http.ErrorBody
import LinkRelay.Proofs.Json.Atoms
import LinkRelay.Proofs.Json.RoundTrip
import LinkRelay.Proofs.Limiter.Admissions
import LinkRelay.Proofs.Limiter.Desk
import LinkRelay.Proofs.Limiter.Quota
import LinkRelay.Proofs.Limiter.Runs
import LinkRelay.Proofs.Limiter.Traffic
import LinkRelay.Proofs.Limiter.Turns
import LinkRelay.Proofs.Relay.Content
import LinkRelay.Proofs.Relay.Course
import LinkRelay.Proofs.Relay.DeadLinks
import LinkRelay.Proofs.Relay.Deletion
import LinkRelay.Proofs.Relay.FileLink
import LinkRelay.Proofs.Relay.Listings
import LinkRelay.Proofs.Relay.Missing
import LinkRelay.Proofs.Relay.Opening
import LinkRelay.Proofs.Relay.Refreshing
import LinkRelay.Proofs.Relay.RemotePaths
import LinkRelay.Proofs.Resolve.Admitted
import LinkRelay.Proofs.Resolve.Answers
import LinkRelay.Proofs.Resolve.Attempts
import LinkRelay.Proofs.Resolve.Calls
import LinkRelay.Proofs.Resolve.Chronicle
import LinkRelay.Proofs.Resolve.Circuits
import LinkRelay.Proofs.Resolve.Foretold
import LinkRelay.Proofs.Resolve.Hall
import LinkRelay.Proofs.Resolve.Interleaving
import LinkRelay.Proofs.Resolve.Lines
import LinkRelay.Proofs.Resolve.Quotas
import LinkRelay.Proofs.Resolve.Resolution
import LinkRelay.Proofs.Resolve.Sessions
import LinkRelay.Proofs.Resolve.SetUp
import LinkRelay.Proofs.Resolve.Silence
import LinkRelay.Proofs.Resolve.HeldBack
import LinkRelay.Proofs.Resolve.Solo
import LinkRelay.Proofs.Resolve.Steps
import LinkRelay.Proofs.Resolve.Testimony
import LinkRelay.Proofs.Resolve.Unstored
import LinkRelay.Proofs.Resolve.Views
import LinkRelay.Proofs.Store.Backend
import LinkRelay.Proofs.Store.Concurrency
import LinkRelay.Proofs.Store.Durability
import LinkRelay.Proofs.Store.History
import LinkRelay.Proofs.Store.Reopening
import LinkRelay.Proofs.Store.Sequence
import LinkRelay.Proofs.Store.Snapshot
import LinkRelay.Proofs.Store.Turns
import LinkRelay.Proofs.Stream.Delivery
import LinkRelay.Proofs.Stream.Ending
import LinkRelay.Proofs.Stream.Reader
import LinkRelay.Proofs.Stream.Received
import LinkRelay.Proofs.Stream.Selection
import LinkRelay.Proofs.Text.Boundary
import LinkRelay.Proofs.Text.Utf8
import LinkRelay.Proofs.Url.Refusals
import LinkRelay.Proofs.Url.Trimming
import LinkRelay.Provider
import LinkRelay.Record
import LinkRelay.Record.Format
import LinkRelay.Relay
import LinkRelay.Resolve.Machine
import LinkRelay.Resolve.Plan
import LinkRelay.Resolve.Policy
import LinkRelay.Resolve.Resolver
import LinkRelay.Server.Log
import LinkRelay.Server.Startup
import LinkRelay.Session
import LinkRelay.Store.Backend
import LinkRelay.Store.Basic
import LinkRelay.Store.Calls
import LinkRelay.Store.Catalog
import LinkRelay.Store.Disk
import LinkRelay.Store.Snapshot
import LinkRelay.Store.Writers
import LinkRelay.Stream.LinkStream
import LinkRelay.Stream.Prepared
import LinkRelay.Text.Alphanumeric
import LinkRelay.Text.Base64
import LinkRelay.Text.Blank
import LinkRelay.Text.Document
import LinkRelay.Text.Lowercase
import LinkRelay.Text.Number
import LinkRelay.Text.Split
import LinkRelay.Text.Utf16
import LinkRelay.Text.Utf8
import LinkRelay.Url.Basic
import LinkRelay.Url.Domain
import LinkRelay.Url.Fault
import LinkRelay.Url.Host
import LinkRelay.Url.Percent
import LinkRelay.Url.Punycode
import LinkRelay.Url.Reader
import LinkRelay.VirtualFile
import LinkRelay.World
import LinkRelay.Yaml.Character
import LinkRelay.Yaml.Node
import LinkRelay.Yaml.Scalar
import LinkRelay.Yaml.Shape
import LinkRelay.Yaml.Token
import LinkRelay.Proofs.Text.Numeral
import LinkRelay.Proofs.RangeHeader
import LinkRelay.Proofs.Stream.Acceptance
import LinkRelay.Proofs.Magnet
import LinkRelay.Proofs.Store.Loading
import LinkRelay.Proofs.Relay.Repaired
import LinkRelay.Proofs.Relay.Underway
import LinkRelay.Proofs.Relay.Addition
import LinkRelay.Proofs.Relay.Grouping
import LinkRelay.Proofs.Client.Releases
import LinkRelay.Proofs.Relay.KeptLinks
