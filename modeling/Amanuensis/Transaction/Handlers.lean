import Amanuensis.Foundation.Runs
import Amanuensis.Transaction.State

/-!
# Transactions: handlers

`Transaction`, function by function. Each function of the source that starts an operation keeps its
name; the handler it passes along is the function of the same name with `on` in front.
`Transaction.handle` dispatches a completion to its handler, and `Transaction.system` is the
labelled system of a transaction on which `begin` has been called: any pending operation may
complete next, with any outcome.

A handler ends in `.error` when it does not return.
-/

namespace Amanuensis

namespace Transaction

open HttpMessageParser

/-- A `std::lock_guard` on the mutex around the rest of a function. -/
def lockGuard (m : Machine) (body : Machine → Except Halt Machine) : Except Halt Machine :=
  if m.tx.mutex then .error .deadlock
  else do
    let m ← body { m with tx.mutex := true }
    return { m with tx.mutex := false }

/-! ### Release, completion and failure -/

/-- Both connections are closed and given back, under the mutex. -/
def releaseConnections (m : Machine) : Except Halt Machine :=
  lockGuard m fun m ↦
    .ok
      { m with
        trace := m.trace ++ (m.tx.client.toList ++ m.tx.remote.toList).map .close
        tx.client := none
        tx.remote := none }

/-- The end of an exchange that has succeeded: the connections are released, and then the listeners
are told. -/
def completeTransaction (m : Machine) : Except Halt Machine := do
  let m ← releaseConnections m
  return m.emit .transactionComplete

/-- The end of an exchange that has failed: the error is kept and the listeners are told of the
failure, and of the completion after it. -/
def notifyFailure (ec : ErrorCode) (m : Machine) : Except Halt Machine := do
  let m ← releaseConnections m
  let m := { m with tx.error := ec, tx.notificationState := .error }
  completeTransaction (m.emit .transactionFailed)

/-! ### Notifications -/

/-- What is emitted when a notification state is left. -/
def leave (current : NotificationState) (m : Machine) : Machine :=
  match current with
  | .requestComplete => m.emit .requestRead
  | .responseHeaders => m.emit .responseHeadersRead
  | .responseComplete => (m.emit .responseRead).emit .transactionComplete
  | _ => m

/-- Iterations of the loop of `do_notification`. -/
def notifySteps : ℕ → Machine → Machine
  | 0, m => m
  | n + 1, m =>
    let current := m.tx.notificationState
    notifySteps n (leave current { m with tx.notificationState := current.next })

/-- Every iteration moves to the next state, so the loop `while (notification_state_ < ns)` runs
as often as `ns` is ahead. -/
def doNotification (ns : NotificationState) (m : Machine) : Machine :=
  (notifySteps (ns.code - m.tx.notificationState.code) m).record (.notified ns)

/-- The notification state a phase stands for; `none` where `notify_phase_change` returns at
once. -/
def notificationOfPhase (phase : ParsePhase) (current : NotificationState) :
    Option NotificationState :=
  let requestSide := current.code < NotificationState.requestComplete.code
  match phase with
  | .start => none
  | .receivedMessageLine => if requestSide then some .requestLine else none
  | .receivedHeaders => some (if requestSide then .requestHeaders else .responseHeaders)
  | .receivedBody => some (if requestSide then .requestBody else .responseBody)
  | .receivedFullMessage => some (if requestSide then .requestComplete else .responseComplete)

/-- A phase of the parser, told to the listeners as the notification state it stands for. -/
def notifyPhaseChange (mode : Mode) (phase : ParsePhase) (m : Machine) : Machine :=
  let m :=
    match notificationOfPhase phase m.tx.notificationState with
    | some ns => doNotification ns m
    | none => m
  m.record (.phaseNotified mode phase)

/-! ### The request and its response -/

/-- `ConnectionPool::try_open`. -/
def tryOpen (host port : QString) (callback : OpenCallback) (m : Machine) : Machine :=
  (m.record (.tryOpen host port)).start (.resolve callback)

/-- An authority, split at its first colon. -/
def splitAuthority (authority defaultPort : QString) : QString × QString :=
  match authority.idxOf? (QChar.ofChar ':') with
  | some separator => (authority.take separator, authority.drop (separator + 1))
  | none => (authority, defaultPort)

/-- A read of the request is started, if there is a client. -/
def readClientRequest (m : Machine) : Except Halt Machine :=
  lockGuard m fun m ↦
    if m.tx.client = none then notifyFailure ProxyError.clientDisconnected.makeErrorCode m
    else .ok (m.start .readClientRequest)

/-- The remote named in the `Host` field, whose port is 80 unless the field gives one. Without the
field the request is malformed. -/
def openRemoteConnection (m : Machine) : Except Halt Machine :=
  match m.tx.request.headers.findByName (QString.ofString "Host") with
  | [] => notifyFailure ProxyError.malformedRequest.makeErrorCode m
  | headerValue :: _ =>
    let (host, port) := splitAuthority headerValue (QString.ofString "80")
    .ok (tryOpen host port .request m)

/-- The remote named by the URI of a `CONNECT`, whose port is 443 unless the URI gives one. -/
def establishTlsTunnel (m : Machine) : Except Halt Machine :=
  let (host, port) := splitAuthority m.tx.request.uri (QString.ofString "443")
  .ok (tryOpen host port .tunnel m)

/-- The handler of a read of the request. The bytes are given to the parser, and its answer decides:
to read on, to fail, or to open the remote connection. -/
def onReadClientRequest (c : Completion) (m : Machine) : Except Halt Machine :=
  let m := { m with tx.readBuffer := c.data }
  if c.ec = .eof then notifyFailure ProxyError.clientDisconnected.makeErrorCode m
  else if c.ec.isError then notifyFailure c.ec m
  else
    match parseLoop (notifyPhaseChange .request) (c.data.length + 1) m
      ⟨m.tx.parser, m.tx.request, some m.tx.requestParsePhase⟩ c.data with
    | none => .error .diverges
    | some (m, state, cursor, _) =>
      let m : Machine :=
        { m with
          tx.parser := cursor.parser
          tx.request := cursor.message
          tx.requestParsePhase := cursor.phase.getD m.tx.requestParsePhase }
      match state with
      | .incomplete => readClientRequest m
      | .invalid => notifyFailure ProxyError.malformedRequest.makeErrorCode m
      | .valid =>
        if m.tx.request.method = QString.ofString "CONNECT" then establishTlsTunnel m
        else openRemoteConnection (doNotification .requestComplete m)
      | .fatal message => .error (.fatal message)
      | .thrown message => .error (.thrown message)

/-- A write of the request as it is formatted, once the remote connection is there. -/
def sendClientRequestToRemote (m : Machine) : Except Halt Machine :=
  lockGuard m fun m ↦
    if m.tx.client = none ∨ m.tx.remote = none then
      notifyFailure ProxyError.clientDisconnected.makeErrorCode m
    else .ok (m.start (.sendRequest (Request.format m.tx.request)))

/-- A read of the response is started, if both connections are there. -/
def readRemoteResponse (m : Machine) : Except Halt Machine :=
  lockGuard m fun m ↦
    if m.tx.client = none ∨ m.tx.remote = none then
      notifyFailure ProxyError.clientDisconnected.makeErrorCode m
    else .ok (m.start .readRemoteResponse)

/-- The handler of the write of the request: the parser is reset, and the response is read. -/
def onSendClientRequest (c : Completion) (m : Machine) : Except Halt Machine :=
  if c.ec.isError then notifyFailure c.ec m
  else
    readRemoteResponse
      { m with tx.rawInput := [], tx.parser := m.tx.parser.resetForResponse }

/-- A write of all the bytes read from the remote, as they came. -/
def sendRemoteResponseToClient (m : Machine) : Except Halt Machine :=
  lockGuard m fun m ↦
    if m.tx.client = none then notifyFailure ProxyError.clientDisconnected.makeErrorCode m
    else .ok (m.start (.sendResponse m.tx.rawInput))

/-- The handler of a read of the response. End-of-file is an error here, whatever has been read; the
bytes are kept for the client and given to the parser. -/
def onReadRemoteResponse (c : Completion) (m : Machine) : Except Halt Machine :=
  let m := { m with tx.readBuffer := c.data }
  if c.ec = .eof then notifyFailure ProxyError.remoteDisconnected.makeErrorCode m
  else if c.ec.isError then notifyFailure c.ec m
  else
    let m := { m with tx.rawInput := m.tx.rawInput ++ c.data }
    match parseLoop (notifyPhaseChange .response) (c.data.length + 1) m
      ⟨m.tx.parser, m.tx.response, some m.tx.responseParsePhase⟩ c.data with
    | none => .error .diverges
    | some (m, state, cursor, _) =>
      let m : Machine :=
        { m with
          tx.parser := cursor.parser
          tx.response := cursor.message
          tx.responseParsePhase := cursor.phase.getD m.tx.responseParsePhase }
      match state with
      | .incomplete => readRemoteResponse m
      | .invalid => notifyFailure ProxyError.malformedResponse.makeErrorCode m
      | .valid => sendRemoteResponseToClient (doNotification .responseComplete m)
      | .fatal message => .error (.fatal message)
      | .thrown message => .error (.thrown message)

/-- The handler of the write of the response, the last of an exchange. -/
def onSendRemoteResponse (c : Completion) (m : Machine) : Except Halt Machine :=
  if c.ec.isError then notifyFailure c.ec m else completeTransaction m

/-! ### The tunnel -/

/-- The connection a direction writes to. -/
def destination (direction : Direction) (m : Machine) : Option Connection :=
  match direction with
  | .clientToRemote => m.tx.remote
  | .remoteToClient => m.tx.client

/-- The bytes of a read, in the buffer of the direction. -/
def fillBuffer (direction : Direction) (data : QByteArray) (m : Machine) : Machine :=
  match direction with
  | .clientToRemote => { m with tx.readBuffer := data }
  | .remoteToClient => { m with tx.remoteBuffer := some data }

/-- `send_client_request_via_tunnel` and `send_server_response_via_tunnel`, which differ in the
direction only. -/
def sendViaTunnel (direction : Direction) (m : Machine) : Except Halt Machine :=
  lockGuard m fun m ↦
    if m.tx.client = none ∨ m.tx.remote = none then .ok m
    else .ok (m.start (.tunnelRead direction))

/-- The direction from the client to the remote: its next read. -/
def sendClientRequestViaTunnel : Machine → Except Halt Machine := sendViaTunnel .clientToRemote

/-- The direction from the remote to the client: its next read. -/
def sendServerResponseViaTunnel : Machine → Except Halt Machine := sendViaTunnel .remoteToClient

/-- The handler of a read in the tunnel. End-of-file and a read of nothing close both connections;
what has been read is written to the other side. -/
def onTunnelRead (direction : Direction) (c : Completion) (m : Machine) : Except Halt Machine :=
  let m := fillBuffer direction c.data m
  if c.ec = .eof ∨ c.data.length = 0 then releaseConnections m
  else if c.ec.isError then notifyFailure c.ec m
  else
    lockGuard m fun m ↦
      if destination direction m = none then .ok m
      else .ok (m.start (.tunnelWrite direction c.data))

/-- The handler of a write in the tunnel: it must have written everything, and the next read of its
direction is started. -/
def onTunnelWrite (direction : Direction) (bytes : QByteArray) (c : Completion) (m : Machine) :
    Except Halt Machine :=
  if c.ec.isError then notifyFailure c.ec m
  else if bytes.length ≠ c.written then notifyFailure ProxyError.networkError.makeErrorCode m
  else sendViaTunnel direction m

/-- The reply to `CONNECT`. -/
def connectReplyText (success : Bool) : QByteArray :=
  if success then asciiBytes "HTTP/1.1 200 OK\r\nProxy-Agent: amanuensis 0.1.0\r\n\r\n"
  else asciiBytes "HTTP/1.1 400 Bad Request\r\nProxy-Agent: amanuensis 0.1.0\r\n\r\n"

/-- The handler of the write of the reply to `CONNECT`: the two directions are started, or the
exchange fails with the error of the connection, not with that of the write. -/
def onConnectReply (ec : ErrorCode) (success : Bool) (c : Completion) (m : Machine) :
    Except Halt Machine :=
  if success ∧ ¬ c.ec.isError then do
    let m ← sendClientRequestViaTunnel { m with tx.remoteBuffer := some [] }
    sendServerResponseViaTunnel m
  else notifyFailure ec m

/-! ### Opening the remote connection -/

/-- The callback of `try_open`, with the connection or null. -/
def onOpened (callback : OpenCallback) (conn : Option Connection) (ec : ErrorCode) (m : Machine) :
    Except Halt Machine :=
  match callback with
  | .request =>
    if ec.isError then notifyFailure ec m
    else sendClientRequestToRemote { m with tx.remote := conn }
  | .tunnel =>
    let success := !ec.isError
    let m := if success then { m with tx.remote := conn } else m
    lockGuard m fun m ↦
      if m.tx.client = none then notifyFailure ProxyError.clientDisconnected.makeErrorCode m
      else .ok (m.start (.connectReply ec success (connectReplyText success)))

/-- The handler of the resolver: a connection is tried, or the callback is called with the error. -/
def onResolve (callback : OpenCallback) (c : Completion) (m : Machine) : Except Halt Machine :=
  if c.ec.isError then onOpened callback none c.ec m else .ok (m.start (.connect callback))

/-- The handler of the connection: the callback is called with it or with the error. -/
def onConnect (callback : OpenCallback) (c : Completion) (m : Machine) : Except Halt Machine :=
  if c.ec.isError then onOpened callback none c.ec m
  else onOpened callback (some .remote) c.ec m

/-! ### The system -/

/-- The handler of an operation. -/
def handle : Operation → Completion → Machine → Except Halt Machine
  | .readClientRequest => onReadClientRequest
  | .resolve callback => onResolve callback
  | .connect callback => onConnect callback
  | .sendRequest _ => onSendClientRequest
  | .readRemoteResponse => onReadRemoteResponse
  | .sendResponse _ => onSendRemoteResponse
  | .connectReply ec success _ => onConnectReply ec success
  | .tunnelRead direction => onTunnelRead direction
  | .tunnelWrite direction bytes => onTunnelWrite direction bytes

/-- `begin`, on a transaction just constructed. -/
def begin (m : Machine) : Except Halt Machine :=
  let m := m.emit .transactionStart
  readClientRequest { m with tx.rawInput := [] }

/-- An operation and its outcome. -/
structure Label where
  operation : Operation
  completion : Completion
  deriving DecidableEq, Repr

/-- The completion of a pending operation: it is no longer pending, and its handler runs. -/
def complete (m : Machine) (l : Label) : Except Halt Machine :=
  handle l.operation l.completion { m with pending := m.pending.erase l.operation }

/-- **A transaction**, from the return of `begin` on. -/
def system : LabelledSystem Machine Label where
  init m := begin {} = .ok m
  step m l m' := l.operation ∈ m.pending ∧ complete m l = .ok m'

end Transaction

end Amanuensis
