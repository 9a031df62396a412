import Amanuensis.Http.Head

/-!
# Transactions: state

The members of `Transaction`, the asynchronous operations it starts, and what an observer can see.

An operation that has been started is *pending* until its completion handler runs; a handler is one
step. The trace lists, in order, the signals emitted — each with the `state()` and `error()` an
observer would read at that moment — the returns of `do_notification` and `notify_phase_change`,
the connections requested and the connections closed.

A buffer is the bytes of the last read into it, since nothing looks past them. The bytes of a write
are those the buffer holds when the write is started.
-/

namespace Amanuensis

/-! ### Error codes -/

/-- The categories an error code of the program may belong to. -/
inductive ErrorCategory
  | system
  | netdb
  | addrinfo
  | misc
  | proxy
  deriving DecidableEq, Repr

/-- `std::error_code`. -/
structure ErrorCode where
  value : ℤ := 0
  category : ErrorCategory := .system
  deriving DecidableEq, Repr

namespace ErrorCode

/-- The conversion to `bool`. -/
def isError (ec : ErrorCode) : Bool := ec.value ≠ 0

/-- `asio::error::eof`. -/
def eof : ErrorCode := { value := 2, category := .misc }

end ErrorCode

/-- The errors a transaction reports by itself. -/
inductive ProxyError
  | networkError
  | remoteDnsLookupError
  | clientDisconnected
  | remoteDisconnected
  | malformedRequest
  | malformedResponse
  deriving DecidableEq, Repr

/-- The enumerator's value, in the category of the proxy. -/
def ProxyError.makeErrorCode : ProxyError → ErrorCode
  | .networkError => { value := 1, category := .proxy }
  | .remoteDnsLookupError => { value := 2, category := .proxy }
  | .clientDisconnected => { value := 3, category := .proxy }
  | .remoteDisconnected => { value := 4, category := .proxy }
  | .malformedRequest => { value := 5, category := .proxy }
  | .malformedResponse => { value := 6, category := .proxy }

@[simp] theorem ProxyError.isError_makeErrorCode (e : ProxyError) :
    e.makeErrorCode.isError = true := by
  cases e <;> rfl

/-! ### Notification states and signals -/

/-- `NotificationState`, in the order of its values. -/
inductive NotificationState
  | none
  | requestLine
  | requestHeaders
  | requestBody
  | requestComplete
  | responseHeaders
  | responseBody
  | responseComplete
  | tlsTunnel
  | error
  deriving DecidableEq, Repr

namespace NotificationState

/-- The enumerator's value. -/
def code : NotificationState → ℕ
  | none => 0
  | requestLine => 1
  | requestHeaders => 2
  | requestBody => 3
  | requestComplete => 4
  | responseHeaders => 5
  | responseBody => 6
  | responseComplete => 7
  | tlsTunnel => 8
  | error => 9

/-- The enumerator after this one. -/
def next : NotificationState → NotificationState
  | none => requestLine
  | requestLine => requestHeaders
  | requestHeaders => requestBody
  | requestBody => requestComplete
  | requestComplete => responseHeaders
  | responseHeaders => responseBody
  | responseBody => responseComplete
  | responseComplete => tlsTunnel
  | tlsTunnel => error
  | error => error

end NotificationState

/-- The signals of a transaction. -/
inductive Signal
  | transactionStart
  | requestRead
  | responseHeadersRead
  | responseRead
  | transactionComplete
  | transactionFailed
  deriving DecidableEq, Repr

/-! ### Operations -/

/-- The two connections of a transaction. -/
inductive Connection
  | client
  | remote
  deriving DecidableEq, Repr

/-- The two directions of a tunnel. -/
inductive Direction
  | clientToRemote
  | remoteToClient
  deriving DecidableEq, Repr

/-- The two callbacks handed to `try_open`: the one of `open_remote_connection` and the one of
`establish_tls_tunnel`. -/
inductive OpenCallback
  | request
  | tunnel
  deriving DecidableEq, Repr

/-- An asynchronous operation, with the variables its handler has captured. -/
inductive Operation
  | readClientRequest
  /-- The lookup in `try_open`. -/
  | resolve (callback : OpenCallback)
  /-- The connect in `try_open`. -/
  | connect (callback : OpenCallback)
  | sendRequest (bytes : QByteArray)
  | readRemoteResponse
  | sendResponse (bytes : QByteArray)
  /-- The reply to `CONNECT`: the handler has captured the code of the connect. -/
  | connectReply (ec : ErrorCode) (success : Bool) (bytes : QByteArray)
  | tunnelRead (direction : Direction)
  | tunnelWrite (direction : Direction) (bytes : QByteArray)
  deriving DecidableEq, Repr

/-- The arguments of a completion handler: the error code, the bytes a read has put into its buffer
and the number of bytes a write has written. -/
structure Completion where
  ec : ErrorCode := {}
  data : QByteArray := []
  written : ℕ := 0
  deriving DecidableEq, Repr

/-! ### State -/

/-- The members of a transaction. -/
structure Transaction where
  error : ErrorCode := {}
  client : Option Connection := some .client
  remote : Option Connection := none
  parser : HttpMessageParser := {}
  readBuffer : QByteArray := []
  remoteBuffer : Option QByteArray := none
  rawInput : QByteArray := []
  requestParsePhase : ParsePhase := .start
  request : HttpMessage := {}
  responseParsePhase : ParsePhase := .start
  response : HttpMessage := {}
  notificationState : NotificationState := .none
  /-- Whether the running handler holds the mutex. -/
  mutex : Bool := false
  deriving DecidableEq, Repr

/-- What can be seen of a transaction. -/
inductive Event
  /-- A signal, with the state and the error an observer reads in its slot. -/
  | signal (s : Signal) (state : NotificationState) (error : ErrorCode)
  /-- `do_notification` has returned. -/
  | notified (ns : NotificationState)
  /-- `notify_phase_change` has returned, in the handler that reads a message of the mode. -/
  | phaseNotified (mode : HttpMessageParser.Mode) (phase : ParsePhase)
  | tryOpen (host port : QString)
  | close (c : Connection)
  deriving DecidableEq, Repr

/-- A transaction with its pending operations and its trace. -/
structure Machine where
  tx : Transaction := {}
  pending : List Operation := []
  trace : List Event := []
  deriving DecidableEq, Repr

/-- The ways a handler may fail to return. -/
inductive Halt
  /-- `qFatal`. -/
  | fatal (message : String)
  /-- An exception leaves the handler. -/
  | thrown (message : String)
  /-- The mutex is locked by the handler that already holds it. -/
  | deadlock
  /-- The parse loop does not end. -/
  | diverges
  deriving DecidableEq, Repr

namespace Machine

/-- Note an event. -/
def record (e : Event) (m : Machine) : Machine := { m with trace := m.trace ++ [e] }

/-- Emit a signal. -/
def emit (s : Signal) (m : Machine) : Machine :=
  m.record (.signal s m.tx.notificationState m.tx.error)

/-- Start an operation. -/
def start (op : Operation) (m : Machine) : Machine := { m with pending := m.pending ++ [op] }

end Machine

end Amanuensis
