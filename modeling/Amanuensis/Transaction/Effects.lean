import Amanuensis.Transaction.Equations

/-!
# The effect of a completion

An abstract model of the handlers, in three parts. What a completion does to the transaction is one
of four things (`Effect`): it starts further operations, releases the connections, completes the
transaction or fails it; `effectOf` reads the effect off the operation and its outcome. What the
transaction then knows of its messages is `contentOf`, and what is noted on the way is `IsNoted`.
`Applied` says what an effect, notes and a content mean for the machine.

That the handlers behave so is proved in `Amanuensis.Transaction.Control`.
-/

namespace Amanuensis

/-! ### What is observed -/

namespace Event

/-- A signal that ends the transaction for its observers. -/
def isTerminal : Event → Bool
  | signal s _ _ => s = .transactionComplete ∨ s = .transactionFailed
  | _ => false

/-- Anything recorded on the way: a return of a notification, or a signal that ends nothing. -/
def isNote : Event → Bool
  | notified _ | phaseNotified _ _ => true
  | signal s _ _ => s ≠ .transactionComplete ∧ s ≠ .transactionFailed
  | _ => false

theorem isTerminal_of_isQuiet {e : Event} (h : e.isQuiet = true) : e.isTerminal = false := by
  cases e with
  | signal s state error =>
    have hs : s = .requestRead ∨ s = .responseHeadersRead := by simpa [isQuiet] using h
    rcases hs with rfl | rfl <;> rfl
  | _ => rfl

theorem isNote_of_isQuiet {e : Event} (h : e.isQuiet = true) : e.isNote = true := by
  cases e with
  | signal s state error =>
    have hs : s = .requestRead ∨ s = .responseHeadersRead := by simpa [isQuiet] using h
    rcases hs with rfl | rfl <;> rfl
  | tryOpen | close => exact absurd h (by simp [isQuiet])
  | _ => rfl

end Event

/-- The messages of a transaction, and the parser that reads them. -/
structure Content where
  parser : HttpMessageParser
  request : HttpMessage
  requestParsePhase : ParsePhase
  response : HttpMessage
  responseParsePhase : ParsePhase
  rawInput : QByteArray

namespace Machine

/-- The content of a transaction. -/
def content (m : Machine) : Content where
  parser := m.tx.parser
  request := m.tx.request
  requestParsePhase := m.tx.requestParsePhase
  response := m.tx.response
  responseParsePhase := m.tx.responseParsePhase
  rawInput := m.tx.rawInput

/-- The trace grows by events of which these are terminal and these are notes. -/
def Records (ends notes : List Event) (m m' : Machine) : Prop :=
  ∃ new, m'.trace = m.trace ++ new ∧ new.filter Event.isTerminal = ends ∧
    new.filter Event.isNote = notes

theorem Records.refl (m : Machine) : Records [] [] m m := ⟨[], by simp, rfl, rfl⟩

theorem Records.trans {ends ends' notes notes' : List Event} {m m' m'' : Machine}
    (h : Records ends notes m m') (h' : Records ends' notes' m' m'') :
    Records (ends ++ ends') (notes ++ notes') m m'' := by
  obtain ⟨new, htrace, hends, hnotes⟩ := h
  obtain ⟨new', htrace', hends', hnotes'⟩ := h'
  exact ⟨new ++ new', by rw [htrace', htrace, List.append_assoc],
    by rw [List.filter_append, hends, hends'], by rw [List.filter_append, hnotes, hnotes']⟩

theorem records_released (m : Machine) : Records [] [] m m.released := by
  have hclose {p : Event → Bool} (hp : ∀ c, p (.close c) = false) :
      ((m.tx.client.toList ++ m.tx.remote.toList).map Event.close).filter p = [] := by
    rw [List.filter_eq_nil_iff]
    intro e he
    obtain ⟨c, -, rfl⟩ := List.mem_map.1 he
    simp [hp c]
  exact ⟨_, rfl, hclose fun _ ↦ rfl, hclose fun _ ↦ rfl⟩

theorem records_emit {s : Signal} (h : s = .transactionComplete ∨ s = .transactionFailed)
    (m : Machine) :
    Records [.signal s m.tx.notificationState m.tx.error] [] m (m.emit s) := by
  refine ⟨_, rfl, ?_, ?_⟩ <;> rcases h with rfl | rfl <;> rfl

end Machine

namespace Transaction

open HttpMessageParser

/-! ### Effects -/

/-- What a completion does to a transaction. -/
inductive Effect
  | proceed (operations : List Operation)
  | release
  | finish
  | fail (ec : ErrorCode)
  deriving DecidableEq, Repr

/-- **The effect of a completion**, by operation and outcome. -/
def effectOf (m : Machine) (l : Label) : Effect :=
  let c := l.completion
  match l.operation with
  | .readClientRequest =>
    if c.ec = .eof then .fail ProxyError.clientDisconnected.makeErrorCode
    else if c.ec.isError then .fail c.ec
    else
      let r := scanner.scan m.requestCursor c.data
      match outcomeOf r.verdict with
      | .incomplete => .proceed [.readClientRequest]
      | .valid =>
        if r.state.message.method = QString.ofString "CONNECT" then .proceed [.resolve .tunnel]
        else if r.state.message.headers.findByName (QString.ofString "Host") = [] then
          .fail ProxyError.malformedRequest.makeErrorCode
        else .proceed [.resolve .request]
      | _ => .fail ProxyError.malformedRequest.makeErrorCode
  | .resolve .request => if c.ec.isError then .fail c.ec else .proceed [.connect .request]
  | .resolve .tunnel =>
    if c.ec.isError then .proceed [.connectReply c.ec false (connectReplyText false)]
    else .proceed [.connect .tunnel]
  | .connect .request =>
    if c.ec.isError then .fail c.ec
    else .proceed [.sendRequest (Request.format m.tx.request)]
  | .connect .tunnel =>
    .proceed [.connectReply c.ec (!c.ec.isError) (connectReplyText (!c.ec.isError))]
  | .sendRequest _ => if c.ec.isError then .fail c.ec else .proceed [.readRemoteResponse]
  | .readRemoteResponse =>
    if c.ec = .eof then .fail ProxyError.remoteDisconnected.makeErrorCode
    else if c.ec.isError then .fail c.ec
    else
      match outcomeOf (scanner.scan m.responseCursor c.data).verdict with
      | .incomplete => .proceed [.readRemoteResponse]
      | .valid => .proceed [.sendResponse (m.tx.rawInput ++ c.data)]
      | _ => .fail ProxyError.malformedResponse.makeErrorCode
  | .sendResponse _ => if c.ec.isError then .fail c.ec else .finish
  | .connectReply ec success _ =>
    if success ∧ ¬ c.ec.isError then
      .proceed [.tunnelRead .clientToRemote, .tunnelRead .remoteToClient]
    else .fail ec
  | .tunnelRead d =>
    if c.ec = .eof ∨ c.data.length = 0 then .release
    else if c.ec.isError then .fail c.ec
    else if m.tx.client = none then .proceed []
    else .proceed [.tunnelWrite d c.data]
  | .tunnelWrite d bytes =>
    if c.ec.isError then .fail c.ec
    else if bytes.length ≠ c.written then .fail ProxyError.networkError.makeErrorCode
    else if m.tx.client = none then .proceed []
    else .proceed [.tunnelRead d]

/-! ### Effects by operation -/

section

variable {m : Machine} {l : Label} {c : Completion} {op : Operation}

theorem effectOf_eq_release (he : effectOf m l = .release) :
    ∃ d, l.operation = .tunnelRead d ∧
      (l.completion.ec = .eof ∨ l.completion.data.length = 0) := by
  obtain ⟨op, c⟩ := l
  cases op <;> grind [effectOf]

theorem effectOf_eq_finish (he : effectOf m l = .finish) :
    ∃ bytes, l.operation = .sendResponse bytes ∧ l.completion.ec.isError = false := by
  obtain ⟨op, c⟩ := l
  cases op <;> grind [effectOf]

end

/-! ### The messages -/

/-- **What a completion makes of the messages.** -/
def contentOf (m : Machine) (l : Label) : Content :=
  let c := l.completion
  match l.operation with
  | .readClientRequest =>
    if c.ec.isError then m.content
    else (m.setRequestCursor (scanner.scan m.requestCursor c.data).state).content
  | .sendRequest _ =>
    if c.ec.isError then m.content
    else { m.content with rawInput := [], parser := m.tx.parser.resetForResponse }
  | .readRemoteResponse =>
    if c.ec.isError then m.content
    else
      { (m.setResponseCursor (scanner.scan m.responseCursor c.data).state).content with
        rawInput := m.tx.rawInput ++ c.data }
  | _ => m.content

/-- The completion of a read that ends a request other than `CONNECT`. -/
def endsPlainRequest (m : Machine) (l : Label) : Prop :=
  let r := scanner.scan m.requestCursor l.completion.data
  l.operation = .readClientRequest ∧ l.completion.ec.isError = false ∧
    outcomeOf r.verdict = .valid ∧ r.state.message.method ≠ QString.ofString "CONNECT"

/-- **What is noted at a completion**: while a request is read, the phases passed and at last
`RequestComplete`; while a response is read, anything; else nothing. -/
def IsNoted (m : Machine) (l : Label) (notes : List Event) : Prop :=
  match l.operation with
  | .readClientRequest =>
    ∃ early, (∀ e ∈ early, e.isEarly = true) ∧
      (endsPlainRequest m l → notes = early ++ [.notified .requestComplete]) ∧
      (¬ endsPlainRequest m l → notes = early)
  | .readRemoteResponse => True
  | _ => notes = []

/-! ### What an effect means -/

namespace Effect

/-- The operations started. -/
def operations : Effect → List Operation
  | proceed operations => operations
  | _ => []

/-- The connection to the client afterwards. -/
def client : Effect → Option Connection → Option Connection
  | proceed _, client => client
  | _, _ => none

/-- The error afterwards. -/
def error : Effect → ErrorCode → ErrorCode
  | fail ec, _ => ec
  | _, error => error

/-- How the notification state may change. -/
def Leads : Effect → NotificationState → NotificationState → Prop
  | proceed _, s, s' => s' = .error ↔ s = .error
  | fail _, _, s' => s' = .error
  | _, s, s' => s' = s

/-- The signals that end the transaction. -/
def ends : Effect → Transaction → List Event
  | finish, tx => [.signal .transactionComplete tx.notificationState tx.error]
  | fail ec, _ => [.signal .transactionFailed .error ec, .signal .transactionComplete .error ec]
  | _, _ => []

end Effect

section

variable {m : Machine} {c : Completion} {op : Operation}

theorem operations_of_readClientRequest
    (hop : op ∈ (effectOf m ⟨.readClientRequest, c⟩).operations) :
    c.ec.isError = false ∧
      ((op = .readClientRequest ∧ (scanner.scan m.requestCursor c.data).verdict = none) ∨
        ∃ callback, op = .resolve callback) := by
  have hnone : outcomeOf (scanner.scan m.requestCursor c.data).verdict = .incomplete ↔
      (scanner.scan m.requestCursor c.data).verdict = none := outcomeOf_eq_incomplete_iff
  grind [effectOf, Effect.operations]

/-- A request is read from its beginning only. -/
theorem operation_of_readClientRequest {l : Label}
    (hop : .readClientRequest ∈ (effectOf m l).operations) : l.operation = .readClientRequest := by
  obtain ⟨op, c⟩ := l
  cases op <;> grind [effectOf, Effect.operations]

theorem operations_of_readRemoteResponse
    (hop : op ∈ (effectOf m ⟨.readRemoteResponse, c⟩).operations) :
    c.ec.isError = false ∧
      ((op = .readRemoteResponse ∧ (scanner.scan m.responseCursor c.data).verdict = none) ∨
        (op = .sendResponse (m.tx.rawInput ++ c.data) ∧
          outcomeOf (scanner.scan m.responseCursor c.data).verdict = .valid)) := by
  have hnone : outcomeOf (scanner.scan m.responseCursor c.data).verdict = .incomplete ↔
      (scanner.scan m.responseCursor c.data).verdict = none := outcomeOf_eq_incomplete_iff
  grind [effectOf, Effect.operations]

theorem operations_of_resolve {callback : OpenCallback}
    (hop : op ∈ (effectOf m ⟨.resolve callback, c⟩).operations) :
    (∃ callback', op = .connect callback') ∨
      ∃ ec success bytes, op = .connectReply ec success bytes := by
  cases callback <;> grind [effectOf, Effect.operations]

theorem operations_of_connect {callback : OpenCallback}
    (hop : op ∈ (effectOf m ⟨.connect callback, c⟩).operations) :
    (∃ bytes, op = .sendRequest bytes) ∨
      ∃ ec success bytes, op = .connectReply ec success bytes := by
  cases callback <;> grind [effectOf, Effect.operations]

theorem operations_of_sendRequest {bytes : QByteArray}
    (hop : op ∈ (effectOf m ⟨.sendRequest bytes, c⟩).operations) :
    c.ec.isError = false ∧ op = .readRemoteResponse := by
  grind [effectOf, Effect.operations]

end

/-- **From `m` to `m'` with an effect, with notes and with a content.** -/
structure Applied (e : Effect) (notes : List Event) (content : Content) (m m' : Machine) :
    Prop where
  pending : m'.pending = m.pending ++ e.operations
  client : m'.tx.client = e.client m.tx.client
  error : m'.tx.error = e.error m.tx.error
  state : e.Leads m.tx.notificationState m'.tx.notificationState
  records : Machine.Records (e.ends m.tx) notes m m'
  content : m'.content = content

variable {m m₀ m' : Machine} {notes notes' : List Event} {content content' : Content}

/-- Operations are started and nothing else is seen. -/
theorem applied_proceed {ops : List Operation} (hpending : m'.pending = m.pending ++ ops)
    (hclient : m'.tx.client = m.tx.client) (herror : m'.tx.error = m.tx.error)
    (hstate : m'.tx.notificationState = m.tx.notificationState) (htrace : m'.trace = m.trace)
    (hcontent : m'.content = content) : Applied (.proceed ops) [] content m m' :=
  ⟨hpending, hclient, herror, by rw [hstate]; exact Iff.rfl,
    ⟨[], by rw [htrace, List.append_nil], rfl, rfl⟩, hcontent⟩

theorem Applied.refl (m : Machine) : Applied (.proceed []) [] m.content m m :=
  applied_proceed (by simp) rfl rfl rfl rfl rfl

theorem applied_start (op : Operation) (m : Machine) :
    Applied (.proceed [op]) [] m.content m (m.start op) :=
  applied_proceed rfl rfl rfl rfl rfl rfl

theorem applied_tryOpen (host port : QString) (callback : OpenCallback) (m : Machine) :
    Applied (.proceed [.resolve callback]) [] m.content m (tryOpen host port callback m) :=
  ⟨rfl, rfl, rfl, Iff.rfl, ⟨_, rfl, rfl, rfl⟩, rfl⟩

theorem applied_finish (m : Machine) : Applied .finish [] m.content m m.completed :=
  ⟨(List.append_nil _).symm, rfl, rfl, rfl,
    (Machine.records_released m).trans (Machine.records_emit (Or.inl rfl) m.released), rfl⟩

theorem applied_fail (ec : ErrorCode) (m : Machine) :
    Applied (.fail ec) [] m.content m (m.failed ec) := by
  have hset : Machine.Records [] [] m
      { m.released with tx.error := ec, tx.notificationState := .error } :=
    Machine.records_released m
  have hfailed := hset.trans (Machine.records_emit (Or.inr rfl) _)
  have hreleased := hfailed.trans (Machine.records_released _)
  exact ⟨(List.append_nil _).symm, rfl, rfl, rfl,
    hreleased.trans (Machine.records_emit (Or.inl rfl) _), rfl⟩

/-- First notes and a content, then more notes and operations. -/
theorem Applied.proceed_noted {ops : List Operation}
    (h : Applied (.proceed []) notes content m₀ m)
    (h' : Applied (.proceed ops) notes' content' m m') :
    Applied (.proceed ops) (notes ++ notes') content' m₀ m' where
  pending := by rw [h'.pending, h.pending]; exact congrArg (· ++ ops) (List.append_nil _)
  client := h'.client.trans h.client
  error := h'.error.trans h.error
  state := Iff.trans h'.state h.state
  records := h.records.trans h'.records
  content := h'.content

/-- First notes and a content, then operations. -/
theorem Applied.proceed_after {ops : List Operation}
    (h : Applied (.proceed []) notes content m₀ m)
    (h' : Applied (.proceed ops) [] content' m m') :
    Applied (.proceed ops) notes content' m₀ m' := by
  have h'' := h.proceed_noted h'
  rwa [List.append_nil] at h''

/-- First notes and a content, then a failure. -/
theorem Applied.fail_after {ec : ErrorCode} (h : Applied (.proceed []) notes content m₀ m)
    (h' : Applied (.fail ec) [] content' m m') : Applied (.fail ec) notes content' m₀ m' where
  pending := by rw [h'.pending, h.pending, List.append_assoc]; rfl
  client := h'.client
  error := h'.error
  state := h'.state
  records := by
    have hrecords := h.records.trans h'.records
    rwa [List.append_nil] at hrecords
  content := h'.content

/-- Notifications are noted and have no effect. -/
theorem Advances.applied {bound : ℕ} {kind : Event → Bool} (h : Advances bound kind m m')
    (hbound : bound ≤ 7) (hkind : ∀ e, kind e = true → e.isQuiet = true) :
    ∃ notes, (∀ e ∈ notes, kind e = true) ∧ Applied (.proceed []) notes m.content m m' := by
  obtain ⟨s, new, rfl, hle, hs, hnew⟩ := h
  have hquiet : new.filter Event.isTerminal = [] := by
    rw [List.filter_eq_nil_iff]
    intro e he
    simp [Event.isTerminal_of_isQuiet (hkind e (hnew e he))]
  have hnotes : new.filter Event.isNote = new := by
    rw [List.filter_eq_self]
    exact fun e he ↦ Event.isNote_of_isQuiet (hkind e (hnew e he))
  have hne {s : NotificationState} (hs : s.code ≤ 7) : s ≠ .error := by
    rintro rfl
    exact absurd hs (by decide)
  exact ⟨new, hnew, (List.append_nil _).symm, rfl, rfl,
    iff_of_false (hne (hs.trans hbound)) (hne (hle.trans (hs.trans hbound))),
    ⟨new, rfl, hquiet, hnotes⟩, rfl⟩

/-- Reading the request has no effect. -/
theorem applied_readRequest (hs : m.tx.notificationState.code ≤ 3) (data : QByteArray) :
    ∃ notes, (∀ e ∈ notes, e.isEarly = true) ∧
      Applied (.proceed []) notes
        (m.setRequestCursor (scanner.scan m.requestCursor data).state).content
        m (m.readRequest data) := by
  obtain ⟨s, new, hread, hle, hbound, hnew⟩ := exists_readRequest_eq hs data
  have hadv : Advances 3 Event.isEarly m
      { m with tx.notificationState := s, trace := m.trace ++ new } :=
    ⟨s, new, rfl, hle, hbound, hnew⟩
  obtain ⟨notes, hnotes, happlied⟩ := hadv.applied (by decide) fun _ ↦ Event.isQuiet_of_isEarly
  rw [hread]
  exact ⟨notes, hnotes, happlied.pending, happlied.client, happlied.error, happlied.state,
    happlied.records, rfl⟩

/-- The end of a request is noted and has no effect. -/
theorem applied_requestComplete (hs : m.tx.notificationState.code ≤ 3) :
    Applied (.proceed []) [.notified .requestComplete] m.content m
      (doNotification .requestComplete m) := by
  have hne : m.tx.notificationState ≠ .error := by
    intro herror
    rw [herror] at hs
    exact absurd hs (by decide)
  rw [doNotification_eq, stepEvents_eq_nil (by decide), if_pos (hs.trans (by decide))]
  exact ⟨(List.append_nil _).symm, rfl, rfl, iff_of_false (by simp) hne, ⟨_, rfl, rfl, rfl⟩, rfl⟩

/-- Reading the response has no effect. -/
theorem applied_readResponse (hs : m.tx.notificationState.code ≤ 5) (data : QByteArray) :
    ∃ notes,
      Applied (.proceed []) notes
        { (m.setResponseCursor (scanner.scan m.responseCursor data).state).content with
          rawInput := m.tx.rawInput ++ data }
        m (m.readResponse data) := by
  obtain ⟨s, new, hread, hle, hbound, hnew⟩ := exists_readResponse_eq hs data
  have hadv : Advances 5 Event.isProgress m
      { m with tx.notificationState := s, trace := m.trace ++ new } :=
    ⟨s, new, rfl, hle, hbound, hnew⟩
  obtain ⟨notes, -, happlied⟩ := hadv.applied (by decide) fun _ ↦ Event.isQuiet_of_isProgress
  rw [hread]
  exact ⟨notes, happlied.pending, happlied.client, happlied.error, happlied.state,
    happlied.records, rfl⟩

end Transaction

end Amanuensis
