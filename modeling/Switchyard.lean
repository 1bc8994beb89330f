import Switchyard.Address
import Switchyard.Bytes
import Switchyard.Config.Basic
import Switchyard.Config.CommandLine
import Switchyard.Config.Properties
import Switchyard.Config.Setting
import Switchyard.Config.Settings
import Switchyard.Connection.Basic
import Switchyard.Connection.OpenChannel
import Switchyard.Connection.Rehearsal
import Switchyard.Connection.Wire
import Switchyard.Deflate.Code
import Switchyard.Deflate.Decoder
import Switchyard.Deflate.Inflater
import Switchyard.Deflate.Phase
import Switchyard.Deflate.Symbols
import Switchyard.Deflate.Window
import Switchyard.Digest.Block
import Switchyard.Digest.Sha1
import Switchyard.Digest.Sha224
import Switchyard.Http.Body
import Switchyard.Http.Reply
import Switchyard.Http.Request
import Switchyard.Http.Response
import Switchyard.Http.Scan
import Switchyard.Http.Target
import Switchyard.Identity
import Switchyard.Json.Reader
import Switchyard.Json.Value
import Switchyard.Log.Basic
import Switchyard.Log.Directive
import Switchyard.Log.Filter
import Switchyard.Log.Pattern
import Switchyard.Lookup.NameAnswer
import Switchyard.Lookup.Provider
import Switchyard.Main
import Switchyard.Measure
import Switchyard.Proofs.Bytes
import Switchyard.Proofs.Deflate.Buffer
import Switchyard.Proofs.Stream.Schedule
import Switchyard.Proofs.WebSocket.Expander
import Switchyard.Proofs.WebSocket.Rewriting
import Switchyard.Proofs.WebSocket.WireFrame
import Switchyard.Proofs.WebSocket.WireHeader
import Switchyard.Session.Channel
import Switchyard.Session.Dial
import Switchyard.Session.Relay
import Switchyard.Session.Roster
import Switchyard.Session.Session
import Switchyard.Startup
import Switchyard.Stream.Basic
import Switchyard.Stream.Prefixed
import Switchyard.Stream.Route
import Switchyard.Stream.Script
import Switchyard.Stream.Sniff
import Switchyard.Stream.WriteAll
import Switchyard.Subscription
import Switchyard.Tally
import Switchyard.Text.Alphanumeric
import Switchyard.Text.Base64
import Switchyard.Text.Blank
import Switchyard.Text.FormUrl
import Switchyard.Text.Numeral
import Switchyard.Text.Printable
import Switchyard.Text.Quoted
import Switchyard.Text.Split
import Switchyard.Text.Utf8
import Switchyard.Tunnel.Authenticate
import Switchyard.Tunnel.Header
import Switchyard.Tunnel.Request
import Switchyard.Tunnel.Trojan
import Switchyard.Tunnel.Vless
import Switchyard.Uuid
import Switchyard.Web.Answer
import Switchyard.Web.Conversation
import Switchyard.Web.Handshake
import Switchyard.Web.Intake
import Switchyard.Web.Page
import Switchyard.Web.Serving
import Switchyard.WebSocket.Expander
import Switchyard.WebSocket.Extension
import Switchyard.WebSocket.Frame
import Switchyard.WebSocket.InflateStream
import Switchyard.WebSocket.Message
import Switchyard.WebSocket.Receiver
import Switchyard.Proofs.WebSocket.InflateStream
import Switchyard.Proofs.WebSocket.Faults
import Switchyard.Proofs.Text.Utf8
import Switchyard.Proofs.Identity
import Switchyard.Proofs.Tunnel.Authenticate
import Switchyard.Proofs.Deflate.Blocks
import Switchyard.Proofs.Deflate.Messages
import Switchyard.Proofs.Deflate.Limit
import Switchyard.Proofs.WebSocket.Receiving
import Switchyard.Proofs.WebSocket.Transparency
import Switchyard.Proofs.Session.Call
import Switchyard.Proofs.Session.Counters
import Switchyard.Proofs.Session.Slots
import Switchyard.Proofs.Session.Course
import Switchyard.Proofs.Session.Steps
import Switchyard.Proofs.Session.Upstream
import Switchyard.Proofs.Session.Downstream
import Switchyard.Proofs.Session.Opening
import Switchyard.Proofs.Session.Protocol
import Switchyard.Proofs.Session.Ending
import Switchyard.Proofs.Session.Sides
import Switchyard.Proofs.Session.Turns
import Switchyard.Proofs.Session.Independence
import Switchyard.Proofs.Stream.Acts
import Switchyard.Proofs.Stream.Sniffing
import Switchyard.Proofs.Connection.Moves
import Switchyard.Proofs.Connection.Steps
import Switchyard.Proofs.Connection.Routing
import Switchyard.Proofs.Web.Asking
import Switchyard.Proofs.Connection.Secrecy
import Switchyard.Proofs.Session.Accounts
import Switchyard.Proofs.Text.Base64
import Switchyard.Proofs.Uuid
import Switchyard.Proofs.Subscription
import Switchyard.Proofs.Text.Numeral
import Switchyard.Proofs.Text.Plain
import Switchyard.Proofs.Text.Split
import Switchyard.Proofs.Http.Replies
import Switchyard.Proofs.Web.Upgrading
import Switchyard.Proofs.Web.Speaking
import Switchyard.Proofs.Stream.Writing
import Switchyard.Proofs.Http.Scanning
import Switchyard.Proofs.Connection.Speech
import Switchyard.Proofs.Web.Answering
import Switchyard.Proofs.Connection.Paying
import Switchyard.Proofs.Connection.Exchange
import Switchyard.Proofs.WebSocket.HeaderBounds
import Switchyard.Proofs.WebSocket.Negotiation
import Switchyard.Proofs.WebSocket.Legality
import Switchyard.Proofs.WebSocket.Buffering
import Switchyard.Proofs.Deflate.Flow
import Switchyard.Proofs.Deflate.Standing
import Switchyard.Proofs.Deflate.Unbounded
import Switchyard.Proofs.Tunnel.Slices
import Switchyard.Proofs.Tunnel.Truncation
import Switchyard.Proofs.Address
import Switchyard.Proofs.Session.Destination
import Switchyard.Proofs.Text.Blank
import Switchyard.Proofs.Text.FormUrl
import Switchyard.Proofs.Config.Making
import Switchyard.Proofs.Config.Padding
import Switchyard.Proofs.Subscription.Lines
import Switchyard.Proofs.Config.DefaultPath
import Switchyard.Proofs.Config.Emptied
import Switchyard.Proofs.Config.Entries
import Switchyard.Proofs.Web.Routes
import Switchyard.Proofs.Json.Grammar
import Switchyard.Proofs.Json.Reading
import Switchyard.Proofs.Lookup.Answers
