import MacroBus.Lib.Transition
import MacroBus.Lib.Utf8
import MacroBus.Lib.Lines
import MacroBus.Proto.Text
import MacroBus.Proto.Status
import MacroBus.Proto.Frame
import MacroBus.Proto.Command
import MacroBus.Busd.Config
import MacroBus.Busd.Registry
import MacroBus.Busd.Conn
import MacroBus.Busd.BodyFraming
import MacroBus.Busd.Session
import MacroBus.Busd.Feeding
import MacroBus.Busd.Partition
import MacroBus.Busd.SeenSet
import MacroBus.Busd.Federation
import MacroBus.Busd.FederationSteps
import MacroBus.Busd.MessageIds
import MacroBus.Busd.Restart
import MacroBus.Busd.Registrations
import MacroBus.Lib.Connected
import MacroBus.Busd.Convergence
import MacroBus.Busd.Reconciliation
import MacroBus.Busd.Publications
import MacroBus.Busd.Delivery
import MacroBus.Busd.Flooding
import MacroBus.Busd.FrameReader
import MacroBus.Busd.FrameStream
import MacroBus.Busd.CutLink
import MacroBus.Client.Client
import MacroBus.Client.Reading
import MacroBus.Busd.BodyReader
import MacroBus.Busd.BodyPath
import MacroBus.Client.Demux
import MacroBus.Lib.Utf8Growth
import MacroBus.Busd.Receivable
import MacroBus.Busd.Daemon
import MacroBus.Busd.Subscriptions
import MacroBus.Busd.FanOut
import MacroBus.Busd.Wrap
import MacroBus.Busd.Outlet
import MacroBus.Busd.DropNotices
import MacroBus.Lib.Unwinding
import MacroBus.Busd.AgreeOff
import MacroBus.Busd.SlowConsumer
import MacroBus.Busd.Publishing
import MacroBus.Busd.Commands
import MacroBus.Busd.Merging
import MacroBus.Busd.RregFlooding
import MacroBus.Lib.Words
import MacroBus.Proto.Grammar
import MacroBus.Proto.Parsing
import MacroBus.Busd.Identity
import MacroBus.Busd.Idling
import MacroBus.Busd.SharedQueue
import MacroBus.Busd.Unstuffing
import MacroBus.Client.Panics
import MacroBus.Client.Calls
import MacroBus.Client.Cancellation
import MacroBus.Busd.Backoff
import MacroBus.Busd.Dialers
import MacroBus.Busd.Discipline
import MacroBus.Busd.Renaming
import MacroBus.Busd.Circulation
import MacroBus.Busd.UniqueIds
import MacroBus.Proto.Requests
import MacroBus.Busd.Holding
import MacroBus.Busd.Serving
import MacroBus.Busd.Exchange
import MacroBus.Busd.Lockstep
import MacroBus.Busd.LineTexts
import MacroBus.Lib.Flood
import MacroBus.Busd.CausalOrder
import MacroBus.Lib.Simulation
import MacroBus.Busd.Turns
import MacroBus.Busd.Sendable
import MacroBus.Busd.HandedOn
import MacroBus.Busd.Network
import MacroBus.Busd.Alike
import MacroBus.Busd.Wires
import MacroBus.Busd.Refinement
import MacroBus.Busd.EndToEnd
import MacroBus.Busd.Completeness
import MacroBus.Busd.Ownership
import MacroBus.Busd.Footprint
import MacroBus.Busd.Server
import MacroBus.Cli.Cli
import MacroBus.Client.Growth
import MacroBus.Client.Hearing
import MacroBus.Busd.Writing
import MacroBus.Busd.Accounting
import MacroBus.Busd.Responses
import MacroBus.Cli.Subscriber
