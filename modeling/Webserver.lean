import Webserver.Foundation.Incremental
import Webserver.Foundation.Transition
import Webserver.Foundation.UnorderedMap
import Webserver.Foundation.Bytes
import Webserver.Foundation.Regex
import Webserver.HTTP.Protocol
import Webserver.HTTP.Response
import Webserver.HTTP.Parser
import Webserver.HTTP.Grammar
import Webserver.HTTP.Automaton
import Webserver.HTTP.AutomatonComplete
import Webserver.HTTP.Acceptance
import Webserver.HTTP.Chunking
import Webserver.HTTP.ParserCalls
import Webserver.HTTP.Connection
import Webserver.HTTP.HalfDuplex
import Webserver.HTTP.KeepAlive
import Webserver.HTTP.Delivery
import Webserver.Foundation.Codec
import Webserver.WS.Frame
import Webserver.WS.Connection
import Webserver.WS.Push
import Webserver.HTTP.Filling
import Webserver.HTTP.Replies
import Webserver.HTTP.Handover
import Webserver.WS.Overflow
import Webserver.WS.Threads
import Webserver.WS.Closing
import Webserver.WS.LastCallback
import Webserver.WS.Accepted
import Webserver.Server.Registry
import Webserver.Server.Routing
import Webserver.Server.DeadEntries
import Webserver.Server.Accept
import Webserver.WS.Atomicity
import Webserver.HTTP.CookieSegments
import Webserver.HTTP.SessionCookie
import Webserver.Foundation.Lines
import Webserver.HTTP.SetCookie
import Webserver.HTTP.Serialisation
import Webserver.HTTP.Versions
import Webserver.HTTP.Authority
import Webserver.HTTP.Handshake
import Webserver.HTTP.Upgrade
import Webserver.HTTP.FieldSyntax
import Webserver.Foundation.Numerals
import Webserver.HTTP.Completion
import Webserver.Foundation.Separated
import Webserver.HTTP.CookieText
import Webserver.HTTP.ParserInvariant
import Webserver.Foundation.Locks
import Webserver.Foundation.Termination
import Webserver.WS.Progress
import Webserver.Foundation.Channel
import Webserver.WS.Lifetime
import Webserver.WS.Sequence
import Webserver.Foundation.Traces
import Webserver.WS.PushOrder
import Webserver.Foundation.Mailboxes
import Webserver.Server.Directory
import Webserver.Foundation.Messages
import Webserver.HTTP.Wire
import Webserver.HTTP.Answers
import Webserver.HTTP.CookieJar
import Webserver.HTTP.Switching
import Webserver.HTTP.Outgoing
import Webserver.HTTP.Exchange
import Webserver.Server.Service
import Webserver.Server.Conversation
import Webserver.Server.Isolation
import Webserver.Server.Shutdown
import Webserver.Foundation.Sharing
import Webserver.Server.Sessions
import Webserver.Foundation.Locality
import Webserver.WS.Mailbox
import Webserver.Server.Linearization
