import DebugLink.Attach.Client
import DebugLink.Attach.Lines
import DebugLink.Attach.Program
import DebugLink.Attach.Rehearsal
import DebugLink.Binding.Access
import DebugLink.Binding.Binder
import DebugLink.Binding.Error
import DebugLink.Binding.Outcome
import DebugLink.Binding.Shared
import DebugLink.Binding.View
import DebugLink.CommandLine.Help
import DebugLink.CommandLine.Invocation
import DebugLink.CommandLine.Options
import DebugLink.Config.Basic
import DebugLink.Config.Document
import DebugLink.Json.Basic
import DebugLink.Json.Decimal
import DebugLink.Json.Double
import DebugLink.Json.Members
import DebugLink.Json.Numeral
import DebugLink.Json.Parser
import DebugLink.Json.Printer
import DebugLink.Json.Token
import DebugLink.Logged
import DebugLink.Main
import DebugLink.Schema.Basic
import DebugLink.Schema.Catalog
import DebugLink.Schema.Notation
import DebugLink.Schema.Registry
import DebugLink.Session.Call
import DebugLink.Session.Context
import DebugLink.Session.Fleet
import DebugLink.Session.Handles
import DebugLink.Session.Machine
import DebugLink.Session.Mailbox
import DebugLink.Session.Notice
import DebugLink.Session.Sequence
import DebugLink.Session.State
import DebugLink.Text.Blank
import DebugLink.Toml.Basic
import DebugLink.Toml.Document
import DebugLink.Toml.Scalar
import DebugLink.Toml.Scan
import DebugLink.Transport.Endpoint
import DebugLink.Transport.Error
import DebugLink.Transport.Framing
import DebugLink.Transport.Memory
import DebugLink.Transport.SocketAddress
import DebugLink.Transport.Stream
import DebugLink.Wire.Command
import DebugLink.Wire.Dialect
import DebugLink.Wire.Notation
import DebugLink.Proofs.Binding.Result
import DebugLink.Proofs.Session.Trace
import DebugLink.Proofs.Binding.Blame
import DebugLink.Proofs.Binding.Budget
import DebugLink.Proofs.Binding.Expansion
import DebugLink.Proofs.Binding.Forcing
import DebugLink.Proofs.Binding.Inheritance
import DebugLink.Proofs.Session.Closing
import DebugLink.Proofs.Session.Completion
import DebugLink.Proofs.Session.Episode
import DebugLink.Proofs.Session.Frames
import DebugLink.Proofs.Session.Receipt
import DebugLink.Proofs.Session.Rejection
import DebugLink.Proofs.Session.Sharing
import DebugLink.Proofs.Transport.RoundTrip
import DebugLink.Proofs.Wire.Conservation
import DebugLink.Proofs.Wire.Identification
import DebugLink.Proofs.Session.Course
import DebugLink.Proofs.Session.Closure
import DebugLink.Proofs.Session.Reader
import DebugLink.Proofs.Session.Arrival
import DebugLink.Proofs.Session.Origin
import DebugLink.Proofs.Session.Issuance
import DebugLink.Proofs.Session.Status
import DebugLink.Proofs.Session.Payload
import DebugLink.Proofs.Wire.Decoding
import DebugLink.Proofs.Session.Delivery
import DebugLink.Proofs.Binding.Discrimination
import DebugLink.Proofs.Binding.Trial
import DebugLink.Proofs.Binding.Acceptance
import DebugLink.Proofs.Session.Sending
import DebugLink.Proofs.Wire.Narrowing
import DebugLink.Proofs.Wire.Grammar
import DebugLink.Proofs.Transport.Grammar
import DebugLink.Proofs.Transport.Ending
import DebugLink.Proofs.Wire.NullPayload
import DebugLink.Proofs.Binding.Slots
import DebugLink.Proofs.Binding.Memory
import DebugLink.Proofs.Binding.Faults
import DebugLink.Proofs.Binding.Recall
import DebugLink.Proofs.Binding.Chains
import DebugLink.Proofs.Binding.Relaxation
import DebugLink.Proofs.Session.Callbacks
import DebugLink.Proofs.CommandLine.Pairing
import DebugLink.Proofs.Transport.Outflow
import DebugLink.Proofs.Json.Scanning
import DebugLink.Proofs.Json.RoundTrip
import DebugLink.Proofs.Wire.Encoding
import DebugLink.Proofs.Session.Containment
import DebugLink.Proofs.Session.Breakdown
import DebugLink.Proofs.Json.Exactness
import DebugLink.Proofs.Wire.Longs
import DebugLink.Proofs.Session.Transcript
import DebugLink.Proofs.Binding.Recursion
