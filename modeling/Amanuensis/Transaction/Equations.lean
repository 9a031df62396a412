import Amanuensis.Transaction.Notifications

/-!
# What the handlers compute

The functions of a transaction, evaluated: a guarded function runs when the mutex is free, and the
loop that reads a message is one scan of the bytes that were read
(`onReadClientRequest_eq`, `onReadRemoteResponse_eq`).
-/

namespace Amanuensis

namespace Machine

open HttpMessageParser

/-- `release_connections`. -/
def released (m : Machine) : Machine :=
  { m with
    trace := m.trace ++ (m.tx.client.toList ++ m.tx.remote.toList).map .close
    tx.client := none
    tx.remote := none }

/-- `complete_transaction`. -/
def completed (m : Machine) : Machine := m.released.emit .transactionComplete

/-- `notify_failure`. -/
def failed (ec : ErrorCode) (m : Machine) : Machine :=
  (Machine.emit .transactionFailed
    { m.released with tx.error := ec, tx.notificationState := .error }).completed

/-- An operation completes. -/
def without (op : Operation) (m : Machine) : Machine :=
  { m with pending := m.pending.erase op }

/-- Where the parser is in the request. -/
def requestCursor (m : Machine) : Cursor :=
  ⟨m.tx.parser, m.tx.request, some m.tx.requestParsePhase⟩

/-- Where the parser is in the response. -/
def responseCursor (m : Machine) : Cursor :=
  ⟨m.tx.parser, m.tx.response, some m.tx.responseParsePhase⟩

/-- The machine with the parser of the request at a cursor. -/
def setRequestCursor (c : Cursor) (m : Machine) : Machine :=
  { m with
    tx.parser := c.parser
    tx.request := c.message
    tx.requestParsePhase := c.phase.getD m.tx.requestParsePhase }

/-- The machine with the parser of the response at a cursor. -/
def setResponseCursor (c : Cursor) (m : Machine) : Machine :=
  { m with
    tx.parser := c.parser
    tx.response := c.message
    tx.responseParsePhase := c.phase.getD m.tx.responseParsePhase }

/-- After the bytes of a read of the request: its phases are reported and the parser has moved. -/
def readRequest (data : QByteArray) (m : Machine) : Machine :=
  ((phaseChanges m.requestCursor data).foldl
      (fun m phase ↦ Transaction.notifyPhaseChange .request phase m)
      { m with tx.readBuffer := data }).setRequestCursor
    (scanner.scan m.requestCursor data).state

/-- After the bytes of a read of the response. -/
def readResponse (data : QByteArray) (m : Machine) : Machine :=
  ((phaseChanges m.responseCursor data).foldl
      (fun m phase ↦ Transaction.notifyPhaseChange .response phase m)
      { m with tx.readBuffer := data, tx.rawInput := m.tx.rawInput ++ data }).setResponseCursor
    (scanner.scan m.responseCursor data).state

end Machine

namespace Transaction

open HttpMessageParser

/-! ### Guarded functions -/

variable {m : Machine}

/-- A guarded body that returns. -/
theorem lockGuard_of_ok {body : Machine → Except Halt Machine} (m' : Machine)
    (hm : m.tx.mutex = false) (hm' : m'.tx.mutex = false)
    (hbody : body { m with tx.mutex := true } = .ok { m' with tx.mutex := true }) :
    lockGuard m body = .ok m' := by
  have hunlock : { m' with tx.mutex := false } = m' := by
    rw [← hm']
  rw [lockGuard, hm, if_neg Bool.false_ne_true, hbody]
  exact congrArg Except.ok hunlock

/-- What a guarded function has done, if it returns. -/
theorem exists_of_lockGuard {body : Machine → Except Halt Machine} {m' : Machine}
    (hm : lockGuard m body = .ok m') :
    ∃ m₁, body { m with tx.mutex := true } = .ok m₁ ∧ { m₁ with tx.mutex := false } = m' := by
  rw [lockGuard] at hm
  split_ifs at hm
  obtain ⟨m₁, hbody, hunlock⟩ := exists_ok_of_bind hm
  exact ⟨m₁, hbody, Except.ok.inj hunlock⟩

theorem releaseConnections_eq (hm : m.tx.mutex = false) :
    releaseConnections m = .ok m.released :=
  lockGuard_of_ok _ hm hm rfl

theorem completeTransaction_eq (hm : m.tx.mutex = false) :
    completeTransaction m = .ok m.completed := by
  rw [completeTransaction, releaseConnections_eq hm]
  rfl

theorem notifyFailure_eq (hm : m.tx.mutex = false) (ec : ErrorCode) :
    notifyFailure ec m = .ok (m.failed ec) := by
  have hm' : (Machine.emit .transactionFailed
      { m.released with tx.error := ec, tx.notificationState := .error }).tx.mutex = false := hm
  rw [notifyFailure, releaseConnections_eq hm]
  exact completeTransaction_eq hm'

theorem readClientRequest_eq (hm : m.tx.mutex = false) (hc : m.tx.client = some .client) :
    readClientRequest m = .ok (m.start .readClientRequest) :=
  lockGuard_of_ok _ hm hm (if_neg (by simp [hc]))

theorem sendClientRequestToRemote_eq (hm : m.tx.mutex = false) (hc : m.tx.client = some .client)
    (hr : m.tx.remote = some .remote) :
    sendClientRequestToRemote m = .ok (m.start (.sendRequest (Request.format m.tx.request))) :=
  lockGuard_of_ok _ hm hm (if_neg (by simp [hc, hr]))

theorem readRemoteResponse_eq (hm : m.tx.mutex = false) (hc : m.tx.client = some .client)
    (hr : m.tx.remote = some .remote) :
    readRemoteResponse m = .ok (m.start .readRemoteResponse) :=
  lockGuard_of_ok _ hm hm (if_neg (by simp [hc, hr]))

theorem sendRemoteResponseToClient_eq (hm : m.tx.mutex = false)
    (hc : m.tx.client = some .client) :
    sendRemoteResponseToClient m = .ok (m.start (.sendResponse m.tx.rawInput)) :=
  lockGuard_of_ok _ hm hm (if_neg (by simp [hc]))

theorem sendViaTunnel_eq (hm : m.tx.mutex = false) (d : Direction) :
    sendViaTunnel d m =
      .ok (if m.tx.client = none ∨ m.tx.remote = none then m else m.start (.tunnelRead d)) := by
  refine lockGuard_of_ok _ hm ?_ ?_
  · split_ifs <;> exact hm
  · show (if m.tx.client = none ∨ m.tx.remote = none then _ else _) = _
    split_ifs <;> rfl

theorem sendViaTunnel_of_open (hm : m.tx.mutex = false) (hc : m.tx.client = some .client)
    (hr : m.tx.remote = some .remote) (d : Direction) :
    sendViaTunnel d m = .ok (m.start (.tunnelRead d)) := by
  rw [sendViaTunnel_eq hm, if_neg (by simp [hc, hr])]

/-! ### Reading a message -/

/-- Reading the request reports its phases. -/
theorem exists_readRequest_eq (hs : m.tx.notificationState.code ≤ 3) (data : QByteArray) :
    ∃ s new,
      m.readRequest data =
        Machine.setRequestCursor (scanner.scan m.requestCursor data).state
          { m with
            trace := m.trace ++ new
            tx.readBuffer := data
            tx.notificationState := s } ∧
      m.tx.notificationState.code ≤ s.code ∧ s.code ≤ 3 ∧ ∀ e ∈ new, e.isEarly = true := by
  have hphases : ∀ p ∈ phaseChanges m.requestCursor data, IsReported p := fun _ hp ↦
    isReported_of_mem_phaseChanges hp
  obtain ⟨s, new, heq, hle, hbound, hnew⟩ := advances_foldl
    (fun _ _ hp hm ↦ advances_notifyPhaseChange_request hp hm) hphases
    (m := { m with tx.readBuffer := data }) hs
  exact ⟨s, new, by rw [Machine.readRequest, heq], hle, hbound, hnew⟩

/-- Reading the response announces progress at most. -/
theorem exists_readResponse_eq (hs : m.tx.notificationState.code ≤ 5) (data : QByteArray) :
    ∃ s new,
      m.readResponse data =
        Machine.setResponseCursor (scanner.scan m.responseCursor data).state
          { m with
            trace := m.trace ++ new
            tx.readBuffer := data
            tx.rawInput := m.tx.rawInput ++ data
            tx.notificationState := s } ∧
      m.tx.notificationState.code ≤ s.code ∧ s.code ≤ 5 ∧ ∀ e ∈ new, e.isProgress = true := by
  have hphases : ∀ p ∈ phaseChanges m.responseCursor data, IsReported p := fun _ hp ↦
    isReported_of_mem_phaseChanges hp
  obtain ⟨s, new, heq, hle, hbound, hnew⟩ := advances_foldl
    (fun _ _ hp hm ↦ advances_notifyPhaseChange .response hp hm) hphases
    (m := { m with tx.readBuffer := data, tx.rawInput := m.tx.rawInput ++ data }) hs
  exact ⟨s, new, by rw [Machine.readResponse, heq], hle, hbound, hnew⟩

/-- **The handler of a read of the request**, with the loop run. -/
theorem onReadClientRequest_eq (c : Completion) (m : Machine) :
    onReadClientRequest c m =
      if c.ec = .eof then
        notifyFailure ProxyError.clientDisconnected.makeErrorCode { m with tx.readBuffer := c.data }
      else if c.ec.isError then notifyFailure c.ec { m with tx.readBuffer := c.data }
      else
        match outcomeOf (scanner.scan m.requestCursor c.data).verdict with
        | .incomplete => readClientRequest (m.readRequest c.data)
        | .invalid =>
          notifyFailure ProxyError.malformedRequest.makeErrorCode (m.readRequest c.data)
        | .valid =>
          if (m.readRequest c.data).tx.request.method = QString.ofString "CONNECT" then
            establishTlsTunnel (m.readRequest c.data)
          else openRemoteConnection (doNotification .requestComplete (m.readRequest c.data))
        | .fatal message => .error (.fatal message)
        | .thrown message => .error (.thrown message) := by
  rw [onReadClientRequest]
  dsimp only
  rw [parseLoop_eq _ (Nat.lt_succ_self _)]
  rfl

/-- The handler of a read of the response, with the loop run. -/
theorem onReadRemoteResponse_eq (c : Completion) (m : Machine) :
    onReadRemoteResponse c m =
      if c.ec = .eof then
        notifyFailure ProxyError.remoteDisconnected.makeErrorCode { m with tx.readBuffer := c.data }
      else if c.ec.isError then notifyFailure c.ec { m with tx.readBuffer := c.data }
      else
        match outcomeOf (scanner.scan m.responseCursor c.data).verdict with
        | .incomplete => readRemoteResponse (m.readResponse c.data)
        | .invalid =>
          notifyFailure ProxyError.malformedResponse.makeErrorCode (m.readResponse c.data)
        | .valid =>
          sendRemoteResponseToClient (doNotification .responseComplete (m.readResponse c.data))
        | .fatal message => .error (.fatal message)
        | .thrown message => .error (.thrown message) := by
  rw [onReadRemoteResponse]
  dsimp only
  rw [parseLoop_eq _ (Nat.lt_succ_self _)]
  rfl

end Transaction

end Amanuensis
