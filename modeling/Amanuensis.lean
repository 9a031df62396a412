import Amanuensis.Foundation.Scanner
import Amanuensis.Foundation.Reading
import Amanuensis.Foundation.Lines
import Amanuensis.Qt.Text
import Amanuensis.Http.Message
import Amanuensis.Http.Parser
import Amanuensis.Http.Incremental
import Amanuensis.Http.Head
import Amanuensis.Http.HeadReading
import Amanuensis.Http.Body
import Amanuensis.Http.BodyReading
import Amanuensis.Http.Numerals
import Amanuensis.Http.HeaderLaws
import Amanuensis.Http.Forwarding
import Amanuensis.Foundation.Runs
import Amanuensis.Transaction.State
import Amanuensis.Transaction.Handlers
import Amanuensis.Transaction.Notifications
import Amanuensis.Transaction.Control
import Amanuensis.Transaction.Failures
import Amanuensis.Transaction.Termination
import Amanuensis.Transaction.Exchange
import Amanuensis.Transaction.Lifecycle
import Amanuensis.Transaction.Relay
import Amanuensis.Transaction.Tunnel
import Amanuensis.Transaction.Interim
import Amanuensis.Http.HeaderOrder
import Amanuensis.Http.HeaderCollection
import Amanuensis.Http.Fields
import Amanuensis.Http.Folding
import Amanuensis.Http.Responses
import Amanuensis.Http.Lengths
import Amanuensis.Http.Codings
import Amanuensis.Http.Widths
import Amanuensis.Http.Chunks
import Amanuensis.Http.Requests
import Amanuensis.Http.Injection
import Amanuensis.Http.Phases
import Amanuensis.Foundation.Session
import Amanuensis.App.TransactionFile
import Amanuensis.App.SavedRows
import Amanuensis.Trusty.ProxyState
import Amanuensis.Trusty.TrustyService
import Amanuensis.App.MacProxy
import Amanuensis.Trusty.AuthorizedService
import Amanuensis.Trusty.XpcServer
import Amanuensis.Trusty.Signatures
import Amanuensis.Trusty.Rights
import Amanuensis.Trusty.Hostname
import Amanuensis.Trusty.SystemConfiguration
import Amanuensis.Trusty.Settings
import Amanuensis.Trusty.Helper
import Amanuensis.Transaction.Primitives
import Amanuensis.Transaction.Actions
import Amanuensis.Transaction.Monotonicity
import Amanuensis.Transaction.Closing
import Amanuensis.Transaction.Endpoint
import Amanuensis.App.TransactionModel
import Amanuensis.App.FinalState
import Amanuensis.App.MissedStates
import Amanuensis.Trusty.RefHolder
import Amanuensis.Core.ObjectPool
import Amanuensis.App.XpcServiceClient
import Amanuensis.App.RemoteCalls
import Amanuensis.Foundation.Projection
import Amanuensis.Core.Server
import Amanuensis.App.Application
import Amanuensis.App.Clients
import Amanuensis.App.Activities
import Amanuensis.Http.Completion
import Amanuensis.Transaction.Progress
import Amanuensis.App.ProxyFailures
import Amanuensis.App.LastSetting
import Amanuensis.Http.Chains
import Amanuensis.App.SavedWindow
import Amanuensis.Transaction.Outgoing
import Amanuensis.App.Rows
import Amanuensis.Http.Reservation
import Amanuensis.Http.LegalBodies
