import Amanuensis.Transaction.Exchange

/-!
# What a transaction sends

A transaction serves one request, whatever else its client has sent: it contacts at most one
endpoint, the one that the request at the beginning of the client's bytes names; what it sends there
is that request, formatted, once; and the client gets one answer, after that. `Outgoing` is the
specification, over the bytes that have been read and without the transaction's state, and
`outgoing_of_run` says that every run meets it.

Tunnels go on from there with the bytes of both sides, which are the subject of
`Amanuensis.Transaction.Tunnel`.
-/

namespace Amanuensis

/-- The endpoint that is requested. -/
def Event.endpoint? : Event → Option (QString × QString)
  | tryOpen host port => some (host, port)
  | _ => none

/-- The endpoints that have been contacted. -/
def Machine.endpoints (m : Machine) : List (QString × QString) :=
  m.trace.filterMap Event.endpoint?

/-- The write of a whole message. -/
def Operation.isMessage : Operation → Bool
  | sendRequest _ | sendResponse _ | connectReply _ _ _ => true
  | _ => false

namespace Transaction

open HttpMessageParser LabelledSystem

variable {m m' m₁ : Machine} {l : Label} {h : List (Move Machine Label)} {op : Operation}
  {c : Completion} {callback : OpenCallback}

/-! ### Endpoints -/

/-- What a handler does contacts nobody. -/
def KeepsEndpoints (m m' : Machine) : Prop := m'.endpoints = m.endpoints

/-- One function after another. -/
theorem KeepsEndpoints.trans (h : KeepsEndpoints m m₁) (h' : KeepsEndpoints m₁ m') :
    KeepsEndpoints m m' :=
  Eq.trans h' h

/-- What is recorded is not a contact. -/
theorem keepsEndpoints_of_trace {new : List Event} (htrace : m'.trace = m.trace ++ new)
    (hnew : ∀ e ∈ new, e.endpoint? = none) : KeepsEndpoints m m' := by
  have hnone : new.filterMap Event.endpoint? = [] := List.filterMap_eq_nil_iff.2 hnew
  rw [KeepsEndpoints, Machine.endpoints, htrace, List.filterMap_append, hnone, List.append_nil,
    Machine.endpoints]

/-- A signal is no contact. -/
theorem keepsEndpoints_emit (s : Signal) (m : Machine) : KeepsEndpoints m (m.emit s) :=
  keepsEndpoints_of_trace rfl (by simp [Event.endpoint?])

/-- Nor is a notification. -/
theorem keepsEndpoints_doNotification (ns : NotificationState) (m : Machine) :
    KeepsEndpoints m (doNotification ns m) := by
  rw [doNotification_eq]
  refine keepsEndpoints_of_trace rfl (List.forall_mem_append.2 ⟨fun e he ↦ ?_, ?_⟩)
  · obtain ⟨signal, state, rfl⟩ := exists_signal_of_mem_stepEvents he
    rfl
  · simp [Event.endpoint?]

/-- Nor is a phase. -/
theorem keepsEndpoints_notifyPhaseChange (mode : Mode) (phase : ParsePhase) (m : Machine) :
    KeepsEndpoints m (notifyPhaseChange mode phase m) := by
  have hrecord (m : Machine) : KeepsEndpoints m (m.record (.phaseNotified mode phase)) :=
    keepsEndpoints_of_trace rfl (by simp [Event.endpoint?])
  rw [notifyPhaseChange]
  cases notificationOfPhase phase m.tx.notificationState with
  | none => exact hrecord m
  | some ns => exact (keepsEndpoints_doNotification ns m).trans (hrecord _)

/-- Nor are the phases of a read. -/
theorem keepsEndpoints_foldl (mode : Mode) (phases : List ParsePhase) (m : Machine) :
    KeepsEndpoints m (phases.foldl (fun m phase ↦ notifyPhaseChange mode phase m) m) := by
  induction phases generalizing m with
  | nil => rfl
  | cons phase phases ih => exact (keepsEndpoints_notifyPhaseChange mode phase m).trans (ih _)

/-- To parse the request contacts nobody. -/
theorem keepsEndpoints_readRequest (data : QByteArray) (m : Machine) :
    KeepsEndpoints m (m.readRequest data) :=
  keepsEndpoints_foldl .request (phaseChanges m.requestCursor data)
    { m with tx.readBuffer := data }

/-- To parse the response contacts nobody. -/
theorem keepsEndpoints_readResponse (data : QByteArray) (m : Machine) :
    KeepsEndpoints m (m.readResponse data) :=
  keepsEndpoints_foldl .response (phaseChanges m.responseCursor data)
    { m with tx.readBuffer := data, tx.rawInput := m.tx.rawInput ++ data }

/-- The mutex is no contact. -/
theorem keepsEndpoints_of_lockGuard {body : Machine → Except Halt Machine}
    (hbody : ∀ m₁ m₂, body m₁ = .ok m₂ → KeepsEndpoints m₁ m₂) (hm : lockGuard m body = .ok m') :
    KeepsEndpoints m m' := by
  obtain ⟨m₁, hresult, rfl⟩ := exists_of_lockGuard hm
  have hkeep := hbody _ _ hresult
  exact hkeep

/-- To close the connections contacts nobody. -/
theorem keepsEndpoints_of_releaseConnections (hm : releaseConnections m = .ok m') :
    KeepsEndpoints m m' := by
  refine keepsEndpoints_of_lockGuard (fun m₁ m₂ hbody ↦ ?_) hm
  obtain rfl := Except.ok.inj hbody
  refine keepsEndpoints_of_trace rfl fun e he ↦ ?_
  obtain ⟨conn, -, rfl⟩ := List.mem_map.1 he
  rfl

theorem keepsEndpoints_of_completeTransaction (hm : completeTransaction m = .ok m') :
    KeepsEndpoints m m' := by
  obtain ⟨m₁, hrelease, hemit⟩ := exists_ok_of_bind hm
  obtain rfl := Except.ok.inj hemit
  exact (keepsEndpoints_of_releaseConnections hrelease).trans (keepsEndpoints_emit _ m₁)

/-- To fail contacts nobody. -/
theorem keepsEndpoints_of_notifyFailure {ec : ErrorCode} (hm : notifyFailure ec m = .ok m') :
    KeepsEndpoints m m' := by
  obtain ⟨m₁, hrelease, hcomplete⟩ := exists_ok_of_bind hm
  have hfail := keepsEndpoints_emit .transactionFailed
    { m₁ with tx.error := ec, tx.notificationState := .error }
  exact (keepsEndpoints_of_releaseConnections hrelease).trans
    (KeepsEndpoints.trans hfail (keepsEndpoints_of_completeTransaction hcomplete))

/-- A guarded function that fails if a connection is missing, and else starts an operation. -/
theorem keepsEndpoints_of_guarded {missing : Machine → Prop} [DecidablePred missing]
    {ec : ErrorCode} {next : Machine → Operation}
    (hm : (lockGuard m fun m ↦
      if missing m then notifyFailure ec m else .ok (m.start (next m))) = .ok m') :
    KeepsEndpoints m m' := by
  refine keepsEndpoints_of_lockGuard (fun m₁ m₂ hbody ↦ ?_) hm
  split_ifs at hbody
  · exact keepsEndpoints_of_notifyFailure hbody
  · obtain rfl := Except.ok.inj hbody
    rfl

/-- A connection that is there is not contacted again. -/
theorem keepsEndpoints_of_onOpened {conn : Option Connection} {ec : ErrorCode}
    (hm : onOpened callback conn ec m = .ok m') : KeepsEndpoints m m' := by
  cases callback with
  | request =>
    rw [onOpened] at hm
    dsimp only at hm
    split_ifs at hm
    · exact keepsEndpoints_of_notifyFailure hm
    · have hkeep := keepsEndpoints_of_guarded hm
      exact hkeep
  | tunnel =>
    rw [onOpened] at hm
    dsimp only at hm
    have hkeep := keepsEndpoints_of_guarded hm
    split_ifs at hkeep <;> exact hkeep

/-- To read the response contacts nobody. -/
theorem keepsEndpoints_of_onReadRemoteResponse (hm : onReadRemoteResponse c m = .ok m') :
    KeepsEndpoints m m' := by
  rw [onReadRemoteResponse_eq] at hm
  split at hm
  · have hkeep := keepsEndpoints_of_notifyFailure hm
    exact hkeep
  split at hm
  · have hkeep := keepsEndpoints_of_notifyFailure hm
    exact hkeep
  · refine (keepsEndpoints_readResponse c.data m).trans ?_
    split at hm
    · exact keepsEndpoints_of_guarded hm
    · exact keepsEndpoints_of_notifyFailure hm
    · exact (keepsEndpoints_doNotification _ _).trans (keepsEndpoints_of_guarded hm)
    · exact nomatch hm
    · exact nomatch hm

theorem keepsEndpoints_of_sendViaTunnel {d : Direction} (hm : sendViaTunnel d m = .ok m') :
    KeepsEndpoints m m' := by
  refine keepsEndpoints_of_lockGuard (fun m₁ m₂ hbody ↦ ?_) hm
  split_ifs at hbody <;> exact Except.ok.inj hbody ▸ rfl

/-- **Only a read of the request** contacts anybody. -/
theorem keepsEndpoints_of_handle (hop : op ≠ .readClientRequest)
    (hm : handle op c m = .ok m') : KeepsEndpoints m m' := by
  cases op with
  | readClientRequest => exact absurd rfl hop
  | resolve callback =>
    rw [handle, onResolve] at hm
    split_ifs at hm
    · exact keepsEndpoints_of_onOpened hm
    · exact Except.ok.inj hm ▸ rfl
  | connect callback =>
    rw [handle, onConnect] at hm
    split_ifs at hm <;> exact keepsEndpoints_of_onOpened hm
  | sendRequest bytes =>
    rw [handle, onSendClientRequest] at hm
    split_ifs at hm
    · exact keepsEndpoints_of_notifyFailure hm
    · have hkeep := keepsEndpoints_of_guarded hm
      exact hkeep
  | readRemoteResponse => exact keepsEndpoints_of_onReadRemoteResponse hm
  | sendResponse bytes =>
    rw [handle, onSendRemoteResponse] at hm
    split_ifs at hm
    · exact keepsEndpoints_of_notifyFailure hm
    · exact keepsEndpoints_of_completeTransaction hm
  | connectReply ec success bytes =>
    rw [handle, onConnectReply] at hm
    split_ifs at hm
    · obtain ⟨m₁, hfirst, hsecond⟩ := exists_ok_of_bind hm
      have hkeep := keepsEndpoints_of_sendViaTunnel hfirst
      exact KeepsEndpoints.trans hkeep (keepsEndpoints_of_sendViaTunnel hsecond)
    · exact keepsEndpoints_of_notifyFailure hm
  | tunnelRead d =>
    rw [handle, onTunnelRead] at hm
    have hfill : KeepsEndpoints m (fillBuffer d c.data m) := by cases d <;> rfl
    refine hfill.trans ?_
    split_ifs at hm
    · exact keepsEndpoints_of_releaseConnections hm
    · exact keepsEndpoints_of_notifyFailure hm
    · refine keepsEndpoints_of_lockGuard (fun m₁ m₂ hbody ↦ ?_) hm
      split_ifs at hbody <;> exact Except.ok.inj hbody ▸ rfl
  | tunnelWrite d bytes =>
    rw [handle, onTunnelWrite] at hm
    split_ifs at hm
    · exact keepsEndpoints_of_notifyFailure hm
    · exact keepsEndpoints_of_notifyFailure hm
    · exact keepsEndpoints_of_sendViaTunnel hm

/-! ### What is asked for -/

/-- The endpoint a request names. -/
def endpointOf (request : HttpMessage) : QString × QString :=
  if request.method = QString.ofString "CONNECT" then
    splitAuthority request.uri (QString.ofString "443")
  else
    splitAuthority ((request.headers.findByName (QString.ofString "Host")).headD [])
      (QString.ofString "80")

/-- The stream begins with this request. -/
def BeginsWithRequest (stream : QByteArray) (request : HttpMessage) : Prop :=
  ∃ c rest, parse (Cursor.start .request {}).forget stream = (.valid, c, rest) ∧
    c.message = request

/-- A remote connection is requested. -/
def Effect.resolves : Effect → Bool
  | .proceed [.resolve _] => true
  | _ => false

/-- The effect of a complete request that names an endpoint. -/
theorem Effect.exists_of_resolves {e : Effect} (he : e.resolves = true) :
    ∃ callback, e = .proceed [.resolve callback] := by
  unfold resolves at he
  split at he
  · exact ⟨_, rfl⟩
  · exact absurd he Bool.false_ne_true

theorem keepsEndpoints_of_readClientRequest (hm : readClientRequest m = .ok m') :
    KeepsEndpoints m m' :=
  keepsEndpoints_of_guarded hm

/-- To open contacts the endpoint. -/
theorem endpoints_tryOpen (host port : QString) (callback : OpenCallback) (m : Machine) :
    (tryOpen host port callback m).endpoints = m.endpoints ++ [(host, port)] := by
  simp [tryOpen, Machine.endpoints, Machine.start, Machine.record, Event.endpoint?]

/-- A `CONNECT` is opened where its URI says. -/
theorem establishTlsTunnel_eq_tryOpen
    (hmethod : m.tx.request.method = QString.ofString "CONNECT") :
    establishTlsTunnel m =
      .ok (tryOpen (endpointOf m.tx.request).1 (endpointOf m.tx.request).2 .tunnel m) := by
  rw [endpointOf, if_pos hmethod]
  rfl

/-- Any other request is opened where its `Host` says. -/
theorem openRemoteConnection_eq_tryOpen
    (hmethod : m.tx.request.method ≠ QString.ofString "CONNECT")
    (hhost : m.tx.request.headers.findByName (QString.ofString "Host") ≠ []) :
    openRemoteConnection m =
      .ok (tryOpen (endpointOf m.tx.request).1 (endpointOf m.tx.request).2 .request m) := by
  obtain ⟨value, values, hvalues⟩ := List.exists_cons_of_ne_nil hhost
  rw [endpointOf, if_neg hmethod, openRemoteConnection, hvalues]
  rfl

/-- **A read of the request** contacts the endpoint it names, once it is complete. -/
theorem endpoints_of_onReadClientRequest (hm : onReadClientRequest c m = .ok m') :
    m'.endpoints = m.endpoints ++
      if (effectOf m ⟨.readClientRequest, c⟩).resolves then [endpointOf m'.tx.request] else [] := by
  have hkeeps (hkeep : KeepsEndpoints m m') : m'.endpoints = m.endpoints ++ [] := by
    rw [List.append_nil]
    exact hkeep
  have hread := keepsEndpoints_readRequest c.data m
  rw [onReadClientRequest_eq] at hm
  rw [effectOf]
  dsimp only
  by_cases heof : c.ec = .eof
  · rw [if_pos heof] at hm ⊢
    have hkeep := keepsEndpoints_of_notifyFailure hm
    exact hkeeps hkeep
  by_cases herr : c.ec.isError = true
  · rw [if_neg heof, if_pos herr] at hm ⊢
    have hkeep := keepsEndpoints_of_notifyFailure hm
    exact hkeeps hkeep
  rw [if_neg heof, if_neg herr] at hm ⊢
  have hrequest : (m.readRequest c.data).tx.request =
      (scanner.scan m.requestCursor c.data).state.message := rfl
  cases houtcome : outcomeOf (scanner.scan m.requestCursor c.data).verdict with
  | incomplete =>
    rw [houtcome] at hm
    exact hkeeps (hread.trans (keepsEndpoints_of_readClientRequest hm))
  | invalid =>
    rw [houtcome] at hm
    exact hkeeps (hread.trans (keepsEndpoints_of_notifyFailure hm))
  | fatal | thrown =>
    rw [houtcome] at hm
    exact absurd hm (by simp)
  | valid =>
    rw [houtcome] at hm
    dsimp only at hm ⊢
    rw [← hrequest]
    by_cases hmethod : (m.readRequest c.data).tx.request.method = QString.ofString "CONNECT"
    · rw [if_pos hmethod] at hm ⊢
      rw [establishTlsTunnel_eq_tryOpen hmethod] at hm
      obtain rfl := Except.ok.inj hm
      rw [endpoints_tryOpen, hread]
      rfl
    · rw [if_neg hmethod] at hm ⊢
      have hsame : (doNotification .requestComplete (m.readRequest c.data)).tx.request =
          (m.readRequest c.data).tx.request := by rw [doNotification_eq]
      have hnoted := hread.trans (keepsEndpoints_doNotification .requestComplete _)
      by_cases hhost : (m.readRequest c.data).tx.request.headers.findByName
          (QString.ofString "Host") = []
      · rw [if_pos hhost]
        rw [openRemoteConnection, hsame, hhost] at hm
        exact hkeeps (hnoted.trans (keepsEndpoints_of_notifyFailure hm))
      · rw [if_neg hhost]
        rw [openRemoteConnection_eq_tryOpen (by rwa [hsame]) (by rwa [hsame])] at hm
        obtain rfl := Except.ok.inj hm
        rw [endpoints_tryOpen, hnoted]
        rfl

/-- A read of the request, as a step. -/
theorem endpoints_of_step (hstep : system.step m ⟨.readClientRequest, c⟩ m') :
    m'.endpoints = m.endpoints ++
      if (effectOf m ⟨.readClientRequest, c⟩).resolves then [endpointOf m'.tx.request] else [] := by
  have hread := endpoints_of_onReadClientRequest hstep.2
  exact hread

/-! ### What goes out -/

/-- The messages whose writes have ended. -/
def written (h : List (Move Machine Label)) : List Operation :=
  (h.map fun t ↦ t.label.operation).filter Operation.isMessage

/-- The messages that go out, with the one under way. -/
def outgoing (h : List (Move Machine Label)) (m : Machine) : List Operation :=
  written h ++ m.pending.filter Operation.isMessage

/-- The transaction has turned to the endpoint that the request at the beginning of the client's
bytes names. -/
structure Contacts (request : HttpMessage) (h : List (Move Machine Label)) (m : Machine) :
    Prop where
  begins : BeginsWithRequest (clientReads h).flatten request
  endpoints : m.endpoints = [endpointOf request]

/-- How the opening of a tunnel ends: with the outcome of its connect, or with a resolve that has
failed. -/
def tunnelOutcome (l : Label) : Option ErrorCode :=
  match l.operation with
  | .connect .tunnel => some l.completion.ec
  | .resolve .tunnel => if l.completion.ec.isError then some l.completion.ec else none
  | _ => none

/-- The outcomes of a run. -/
def tunnelOutcomes (h : List (Move Machine Label)) : List ErrorCode :=
  h.filterMap fun t ↦ tunnelOutcome t.label

/-- The reply that tells an outcome. -/
def outcomeReply (ec : ErrorCode) : Operation :=
  .connectReply ec (!ec.isError) (connectReplyText (!ec.isError))

/-- **What a transaction sends**, for what it has read. -/
inductive Outgoing (h : List (Move Machine Label)) (m : Machine) : Prop
  /-- No request that names an endpoint has been read. -/
  | nothing (hendpoints : m.endpoints = []) (hmessages : outgoing h m = [])
  /-- The request goes to its host. -/
  | request (request : HttpMessage) (hcontacts : Contacts request h m)
      (hmethod : request.method ≠ QString.ofString "CONNECT")
      (hmessages : outgoing h m <+: [.sendRequest (Request.format request)])
  /-- The response goes to the client, as it has been read. -/
  | response (request : HttpMessage) (hcontacts : Contacts request h m)
      (hmethod : request.method ≠ QString.ofString "CONNECT")
      (hresponse : ResponseRead (remoteReads h))
      (hmessages : outgoing h m =
        [.sendRequest (Request.format request), .sendResponse (remoteReads h).flatten])
  /-- A tunnel is asked for, and once it has been opened or not the client is told so. -/
  | tunnel (request : HttpMessage) (hcontacts : Contacts request h m)
      (hmethod : request.method = QString.ofString "CONNECT")
      (honce : (tunnelOutcomes h).length ≤ 1)
      (hmessages : outgoing h m = (tunnelOutcomes h).map outcomeReply)

/-- **What a pending operation says of what has been sent.** -/
def Known (h : List (Move Machine Label)) (m : Machine) : Operation → Prop
  | .readClientRequest => m.endpoints = [] ∧ written h = [] ∧ tunnelOutcomes h = []
  | .resolve callback | .connect callback =>
    Contacts m.tx.request h m ∧
      (m.tx.request.method = QString.ofString "CONNECT" ↔ callback = .tunnel) ∧ written h = [] ∧
        tunnelOutcomes h = []
  | .sendRequest bytes =>
    Contacts m.tx.request h m ∧ m.tx.request.method ≠ QString.ofString "CONNECT" ∧
      written h = [] ∧ bytes = Request.format m.tx.request
  | .readRemoteResponse | .sendResponse _ =>
    Contacts m.tx.request h m ∧ m.tx.request.method ≠ QString.ofString "CONNECT" ∧
      written h = [.sendRequest (Request.format m.tx.request)]
  | .connectReply ec success bytes =>
    Contacts m.tx.request h m ∧ m.tx.request.method = QString.ofString "CONNECT" ∧
      written h = [] ∧ tunnelOutcomes h = [ec] ∧ .connectReply ec success bytes = outcomeReply ec
  | _ => True

/-- What one more completion has written. -/
theorem written_append (h : List (Move Machine Label)) (t : Move Machine Label) :
    written (h ++ [t]) = written h ++ [t.label.operation].filter Operation.isMessage := by
  rw [written, List.map_append, List.filter_append]
  rfl

/-- How one more completion ends the opening of a tunnel. -/
theorem tunnelOutcomes_append (h : List (Move Machine Label)) (t : Move Machine Label) :
    tunnelOutcomes (h ++ [t]) = tunnelOutcomes h ++ (tunnelOutcome t.label).toList := by
  rw [tunnelOutcomes, List.filterMap_append]
  cases ht : tunnelOutcome t.label <;> simp [tunnelOutcomes, ht]

/-- Only a read of the request contacts anybody, as a step. -/
theorem keepsEndpoints_of_step (hstep : system.step m l m')
    (hop : l.operation ≠ .readClientRequest) : KeepsEndpoints m m' := by
  have hkeep := keepsEndpoints_of_handle hop hstep.2
  exact hkeep

/-- An endpoint that has been contacted remains the only one. -/
theorem Contacts.step {request : HttpMessage} (hcontacts : Contacts request h m)
    (hstep : system.step m l m') (hop : l.operation ≠ .readClientRequest) :
    Contacts request (h ++ [⟨m, l, m'⟩]) m' where
  begins := by
    rw [clientReads, readsOf_append_of_ne (t := ⟨m, l, m'⟩) hop]
    exact hcontacts.begins
  endpoints := Eq.trans (keepsEndpoints_of_step hstep hop) hcontacts.endpoints

/-- **The request is complete**: its endpoint is contacted. -/
theorem contacts_of_read (hm : Control m)
    (htold : Says h m .readClientRequest) (hquiet : m.endpoints = [])
    (hstep : system.step m ⟨.readClientRequest, c⟩ m')
    (hop : .resolve callback ∈ m'.pending) :
    Contacts m'.tx.request (h ++ [⟨m, ⟨.readClientRequest, c⟩, m'⟩]) m' ∧
      (m'.tx.request.method = QString.ofString "CONNECT" ↔ callback = .tunnel) := by
  obtain ⟨notes, -, happlied⟩ := hm.applied hstep rfl
  rw [hm.pending hstep rfl] at hop
  have hcases : c.ec.isError = false ∧
      outcomeOf (scanner.scan m.requestCursor c.data).verdict = .valid ∧
      (effectOf m ⟨.readClientRequest, c⟩).resolves = true ∧
      ((scanner.scan m.requestCursor c.data).state.message.method = QString.ofString "CONNECT" ↔
        callback = .tunnel) := by
    grind [effectOf, Effect.operations, Effect.resolves]
  obtain ⟨hok, hvalid, hresolves, hmethod⟩ := hcases
  have hrequest : m'.tx.request = (scanner.scan m.requestCursor c.data).state.message := by
    refine (congrArg Content.request happlied.content).trans ?_
    rw [contentOf, hok]
    rfl
  have hreads : clientReads (h ++ [⟨m, ⟨.readClientRequest, c⟩, m'⟩]) = clientReads h ++ [c.data] :=
    readsOf_append_of_read (t := ⟨m, ⟨.readClientRequest, c⟩, m'⟩) hok
  have hendpoints := endpoints_of_step hstep
  rw [hresolves] at hendpoints
  have hparse : parse (Cursor.start .request {}).forget
      (clientReads (h ++ [⟨m, ⟨.readClientRequest, c⟩, m'⟩])).flatten =
        (.valid, (scanner.scan m.requestCursor c.data).state.forget,
          (scanner.scan m.requestCursor c.data).rest) := by
    rw [parse_eq_scan rfl, scan_forget, hreads, scan_flatten_append htold.1]
    dsimp only
    rw [hvalid]
  refine ⟨⟨⟨_, _, hparse, hrequest.symm⟩, ?_⟩, by rw [hrequest]; exact hmethod⟩
  rw [hendpoints]
  exact congrArg (· ++ _) hquiet

/-- **One step**: a pending operation is started by one that has said what goes before it. -/
theorem known_step (hm : Control m) (htold : Says h m l.operation) (hknown : Known h m l.operation)
    (hstep : system.step m l m') (hop : op ∈ m'.pending) :
    Known (h ++ [⟨m, l, m'⟩]) m' op := by
  by_cases hd : l.operation.direction = none
  · have hop' := hop
    rw [hm.pending hstep hd] at hop
    obtain ⟨o, c⟩ := l
    have hwritten : written (h ++ [⟨m, ⟨o, c⟩, m'⟩]) =
        written h ++ [o].filter Operation.isMessage := written_append h _
    have houtcomes : tunnelOutcomes (h ++ [⟨m, ⟨o, c⟩, m'⟩]) =
        tunnelOutcomes h ++ (tunnelOutcome ⟨o, c⟩).toList := tunnelOutcomes_append h _
    have hrequest (ho : o ≠ .readClientRequest) : m'.tx.request = m.tx.request :=
      request_of_step hm hstep ho
    have hcontacts (ho : o ≠ .readClientRequest) (hcontacts : Contacts m.tx.request h m) :
        Contacts m'.tx.request (h ++ [⟨m, ⟨o, c⟩, m'⟩]) m' := by
      rw [hrequest ho]
      exact hcontacts.step hstep ho
    cases o with
    | readClientRequest =>
      obtain ⟨hendpoints, hnone, hunopened⟩ := hknown
      rw [hnone] at hwritten
      rw [hunopened] at houtcomes
      obtain ⟨hok, ⟨rfl, hincomplete⟩ | ⟨callback, rfl⟩⟩ := operations_of_readClientRequest hop
      · refine ⟨?_, hwritten, houtcomes⟩
        have hresolves : (effectOf m ⟨.readClientRequest, c⟩).resolves = false := by
          grind [effectOf, Effect.operations, Effect.resolves]
        have hread := endpoints_of_step hstep
        rw [hresolves] at hread
        exact hread.trans ((List.append_nil _).trans hendpoints)
      · obtain ⟨hcontacts, hmethod⟩ := contacts_of_read hm htold hendpoints hstep hop'
        exact ⟨hcontacts, hmethod, hwritten, houtcomes⟩
    | resolve callback =>
      obtain ⟨hold, hmethod, hnone, hunopened⟩ := hknown
      have hnew := hcontacts (by simp) hold
      rw [← hrequest (by simp)] at hmethod
      rw [hnone] at hwritten
      rw [hunopened, List.nil_append] at houtcomes
      cases callback with
      | request =>
        obtain rfl : op = .connect .request := by grind [effectOf, Effect.operations]
        exact ⟨hnew, hmethod, hwritten, houtcomes⟩
      | tunnel =>
        have hcases : (c.ec.isError = false ∧ op = .connect .tunnel) ∨
            (c.ec.isError = true ∧ op = .connectReply c.ec false (connectReplyText false)) := by
          grind [effectOf, Effect.operations]
        obtain ⟨hok, rfl⟩ | ⟨herr, rfl⟩ := hcases
        · exact ⟨hnew, hmethod, hwritten, by rw [houtcomes, tunnelOutcome]; simp [hok]⟩
        · refine ⟨hnew, hmethod.2 rfl, hwritten, ?_, by rw [outcomeReply, herr]; rfl⟩
          rw [houtcomes, tunnelOutcome]
          simp [herr]
    | connect callback =>
      obtain ⟨hold, hmethod, hnone, hunopened⟩ := hknown
      have hnew := hcontacts (by simp) hold
      rw [hnone] at hwritten
      rw [hunopened, List.nil_append] at houtcomes
      have hsame := hrequest (by simp)
      rw [← hsame] at hmethod
      cases callback with
      | request =>
        obtain rfl : op = .sendRequest (Request.format m.tx.request) := by
          grind [effectOf, Effect.operations]
        exact ⟨hnew, fun hconnect ↦ absurd (hmethod.1 hconnect) (by simp), hwritten, by rw [hsame]⟩
      | tunnel =>
        obtain rfl :
            op = .connectReply c.ec (!c.ec.isError) (connectReplyText (!c.ec.isError)) := by
          grind [effectOf, Effect.operations]
        exact ⟨hnew, hmethod.2 rfl, hwritten, houtcomes, rfl⟩
    | sendRequest bytes =>
      obtain ⟨hold, hmethod, hnone, rfl⟩ := hknown
      obtain ⟨-, rfl⟩ := operations_of_sendRequest hop
      rw [hnone] at hwritten
      have hsame := hrequest (by simp)
      refine ⟨hcontacts (by simp) hold, by rwa [hsame], ?_⟩
      rw [hwritten, hsame]
      rfl
    | readRemoteResponse =>
      obtain ⟨hold, hmethod, hsent⟩ := hknown
      have hsame := hrequest (by simp)
      have hboth : Contacts m'.tx.request (h ++ [⟨m, ⟨.readRemoteResponse, c⟩, m'⟩]) m' ∧
          m'.tx.request.method ≠ QString.ofString "CONNECT" ∧
          written (h ++ [⟨m, ⟨.readRemoteResponse, c⟩, m'⟩]) =
            [.sendRequest (Request.format m'.tx.request)] := by
        refine ⟨hcontacts (by simp) hold, by rwa [hsame], ?_⟩
        rw [hwritten, hsent, hsame]
        rfl
      obtain ⟨-, ⟨rfl, -⟩ | ⟨rfl, -⟩⟩ := operations_of_readRemoteResponse hop
      · exact hboth
      · exact hboth
    | sendResponse bytes => exact absurd hop (by grind [effectOf, Effect.operations])
    | connectReply ec success bytes =>
      have hcases : ∃ d, op = .tunnelRead d := by grind [effectOf, Effect.operations]
      obtain ⟨d, rfl⟩ := hcases
      trivial
    | tunnelRead d | tunnelWrite d => exact absurd hd (Option.some_ne_none d)
  · have hdirection := hm.direction hstep hd hop
    cases op <;> first
      | exact absurd rfl hdirection
      | trivial

/-- **What is pending in a run** says what has been sent. -/
theorem known_of_run (hrun : system.Run h m) (hop : op ∈ m.pending) : Known h m op := by
  induction hrun generalizing op with
  | start hm =>
    obtain rfl := init_iff.1 hm
    obtain rfl : op = .readClientRequest := by simpa [begun] using hop
    exact ⟨rfl, rfl, rfl⟩
  | move hrun hstep ih =>
    exact known_step (control_of_run hrun) (says_of_run hrun hstep.1) (ih hstep.1) hstep hop

/-! ### Runs -/

/-- In a tunnel no message is under way. -/
theorem filter_isMessage_eq_nil {ops : List Operation} (hops : ∀ op ∈ ops, op.direction ≠ none) :
    ops.filter Operation.isMessage = [] := by
  rw [List.filter_eq_nil_iff]
  intro op hop
  have hdirection := hops op hop
  cases op <;> first
    | exact absurd rfl hdirection
    | exact Bool.false_ne_true

/-- Outside a tunnel, what is pending says what has been sent. -/
theorem outgoing_of_known (hm : Control m) (hop : op ∈ m.pending) (hd : op.direction = none)
    (htold : Says h m op) (hknown : Known h m op) : Outgoing h m := by
  have houtgoing : outgoing h m = written h ++ [op].filter Operation.isMessage := by
    rw [outgoing, (hm.stage.expected hop hd).1]
  cases op with
  | readClientRequest =>
    obtain ⟨hendpoints, hnone, -⟩ := hknown
    exact .nothing hendpoints (by rw [houtgoing, hnone]; rfl)
  | resolve callback | connect callback =>
    obtain ⟨hcontacts, -, hnone, hunopened⟩ := hknown
    rw [hnone] at houtgoing
    have hnil : outgoing h m = [] := houtgoing
    by_cases hmethod : m.tx.request.method = QString.ofString "CONNECT"
    · exact .tunnel _ hcontacts hmethod (by simp [hunopened]) (by rw [hnil, hunopened]; rfl)
    · exact .request _ hcontacts hmethod (hnil ▸ List.nil_prefix)
  | sendRequest bytes =>
    obtain ⟨hcontacts, hmethod, hnone, rfl⟩ := hknown
    rw [hnone] at houtgoing
    exact .request _ hcontacts hmethod (houtgoing ▸ List.prefix_rfl)
  | readRemoteResponse =>
    obtain ⟨hcontacts, hmethod, hsent⟩ := hknown
    rw [hsent] at houtgoing
    exact .request _ hcontacts hmethod (houtgoing ▸ List.prefix_rfl)
  | sendResponse bytes =>
    obtain ⟨hcontacts, hmethod, hsent⟩ := hknown
    obtain ⟨rfl, hresponse⟩ := htold
    exact .response _ hcontacts hmethod hresponse (by rw [houtgoing, hsent]; rfl)
  | connectReply ec success bytes =>
    obtain ⟨hcontacts, hmethod, hnone, hopened, hreply⟩ := hknown
    rw [hnone] at houtgoing
    refine .tunnel _ hcontacts hmethod (by simp [hopened]) ?_
    rw [houtgoing, hopened, List.map_singleton, ← hreply]
    rfl
  | tunnelRead d | tunnelWrite d => exact absurd hd (Option.some_ne_none d)

/-- A completion after which nothing is left but a tunnel sends nothing. -/
theorem outgoing_append (hm : Control m) (hstep : system.step m l m')
    (hend : ∀ op ∈ m'.pending, op.direction ≠ none) :
    outgoing (h ++ [⟨m, l, m'⟩]) m' = outgoing h m := by
  rw [outgoing, outgoing, written_append, filter_isMessage_eq_nil hend, List.append_nil]
  by_cases hd : l.operation.direction = none
  · rw [(hm.stage.expected hstep.1 hd).1]
  · have hnone : ∀ op ∈ m.pending, op.direction ≠ none := by
      intro op hop hdirection
      have hsingle := (hm.stage.expected hop hdirection).1 ▸ hstep.1
      exact hd (List.mem_singleton.1 hsingle ▸ hdirection)
    rw [filter_isMessage_eq_nil hnone,
      filter_isMessage_eq_nil fun op hop ↦ List.mem_singleton.1 hop ▸ hd]

/-- A tunnel whose opening has ended, one way or the other, is not all that is left. -/
theorem tunnelOutcome_eq_none (hm : Control m) (hstep : system.step m l m')
    (hend : ∀ op ∈ m'.pending, op.direction ≠ none) : tunnelOutcome l = none := by
  obtain ⟨op, c⟩ := l
  cases op with
  | resolve callback =>
    cases callback with
    | request => rfl
    | tunnel =>
      rw [hm.pending hstep rfl, effectOf] at hend
      dsimp only at hend
      split_ifs at hend
      · exact absurd rfl (hend _ (List.mem_singleton_self _))
      · exact absurd rfl (hend _ (List.mem_singleton_self _))
  | connect callback =>
    cases callback with
    | request => rfl
    | tunnel =>
      rw [hm.pending hstep rfl] at hend
      exact absurd rfl (hend _ (List.mem_singleton_self _))
  | _ => rfl

/-- **One step after the last message**: nothing more is sent. -/
theorem Outgoing.step (hout : Outgoing h m) (hm : Control m) (hknown : Known h m l.operation)
    (hstep : system.step m l m') (hend : ∀ op ∈ m'.pending, op.direction ≠ none) :
    Outgoing (h ++ [⟨m, l, m'⟩]) m' := by
  have houtgoing := outgoing_append (h := h) hm hstep hend
  obtain ⟨o, c⟩ := l
  by_cases hrequest : o = .readClientRequest
  · subst hrequest
    obtain ⟨hendpoints, hnone, -⟩ := hknown
    have hpending := (hm.stage.expected hstep.1 rfl).1
    refine .nothing ?_ ?_
    · have hresolves : (effectOf m ⟨.readClientRequest, c⟩).resolves = false := by
        rw [hm.pending hstep rfl] at hend
        by_contra hresolves
        obtain ⟨callback, heffect⟩ :=
          Effect.exists_of_resolves (by simpa using hresolves)
        rw [heffect] at hend
        exact hend _ (List.mem_singleton_self _) rfl
      have hread := endpoints_of_step hstep
      rw [hresolves] at hread
      exact hread.trans ((List.append_nil _).trans hendpoints)
    · rw [houtgoing, outgoing, hnone, hpending]
      rfl
  by_cases hresponse : o = .readRemoteResponse
  · subst hresponse
    obtain ⟨hcontacts, hmethod, hsent⟩ := hknown
    refine .request _ (hcontacts.step hstep hrequest) hmethod ?_
    rw [houtgoing, outgoing, hsent, (hm.stage.expected hstep.1 rfl).1]
    exact List.prefix_rfl
  · have hreads : remoteReads (h ++ [⟨m, ⟨o, c⟩, m'⟩]) = remoteReads h :=
      readsOf_append_of_ne (t := ⟨m, ⟨o, c⟩, m'⟩) hresponse
    cases hout with
    | nothing hendpoints hmessages =>
      exact .nothing (Eq.trans (keepsEndpoints_of_step hstep hrequest) hendpoints)
        (houtgoing.trans hmessages)
    | request request hcontacts hmethod hmessages =>
      exact .request request (hcontacts.step hstep hrequest) hmethod (houtgoing ▸ hmessages)
    | response request hcontacts hmethod hread hmessages =>
      exact .response request (hcontacts.step hstep hrequest) hmethod (by rwa [hreads])
        (by rw [houtgoing, hmessages, hreads])
    | tunnel request hcontacts hmethod honce hmessages =>
      have hsame : tunnelOutcomes (h ++ [⟨m, ⟨o, c⟩, m'⟩]) = tunnelOutcomes h := by
        rw [tunnelOutcomes_append, tunnelOutcome_eq_none hm hstep hend]
        exact List.append_nil _
      exact .tunnel request (hcontacts.step hstep hrequest) hmethod (hsame ▸ honce)
        (by rw [houtgoing, hmessages, hsame])

/-- **A transaction serves one request**: in every run it contacts at most the endpoint that the
request at the beginning of the client's bytes names, sends at most that request there, and gives
the client at most one answer, which for a tunnel tells how its opening has ended. -/
theorem outgoing_of_run (hrun : system.Run h m) : Outgoing h m := by
  induction hrun with
  | start hm =>
    obtain rfl := init_iff.1 hm
    exact .nothing rfl rfl
  | @move h m m' l hrun hstep ih =>
    have hmove := hrun.move hstep
    by_cases hend : ∀ op ∈ m'.pending, op.direction ≠ none
    · exact ih.step (control_of_run hrun) (known_of_run hrun hstep.1) hstep hend
    · push Not at hend
      obtain ⟨op, hop, hd⟩ := hend
      exact outgoing_of_known (control_of_run hmove) hop hd (says_of_run hmove hop)
        (known_of_run hmove hop)

/-- A client sends a second request, to another host, right after the first: it is not served. -/
theorem secondRequest_outgoing :
    ∃ h m, system.Run h m ∧ Outgoing h m ∧ m.pending = [] ∧
      (clientReads h).flatten =
        asciiBytes "GET / HTTP/1.1\r\nHost: a\r\n\r\nGET / HTTP/1.1\r\nHost: b\r\n\r\n" ∧
      m.endpoints = [(QString.ofString "a", QString.ofString "80")] ∧
      outgoing h m =
        [.sendRequest (asciiBytes "GET / HTTP/1.1\r\nHost: a\r\n\r\n"),
          .sendResponse (asciiBytes "HTTP/1.1 204 No Content\r\n\r\n")] := by
  obtain ⟨h, m, hrun, htest⟩ := exists_run_of_follow
    [⟨.readClientRequest, { data := asciiBytes "GET / HTTP/1.1\r\nHost: a\r\n" }⟩,
      ⟨.readClientRequest, { data := asciiBytes "\r\nGET / HTTP/1.1\r\nHost: b\r\n\r\n" }⟩,
      ⟨.resolve .request, {}⟩, ⟨.connect .request, {}⟩,
      ⟨.sendRequest (asciiBytes "GET / HTTP/1.1\r\nHost: a\r\n\r\n"), {}⟩,
      ⟨.readRemoteResponse, { data := asciiBytes "HTTP/1.1 204 No Content\r\n\r\n" }⟩,
      ⟨.sendResponse (asciiBytes "HTTP/1.1 204 No Content\r\n\r\n"), {}⟩]
    (fun h m ↦ m.pending = [] ∧
      (clientReads h).flatten =
        asciiBytes "GET / HTTP/1.1\r\nHost: a\r\n\r\nGET / HTTP/1.1\r\nHost: b\r\n\r\n" ∧
      m.endpoints = [(QString.ofString "a", QString.ofString "80")] ∧
      outgoing h m =
        [.sendRequest (asciiBytes "GET / HTTP/1.1\r\nHost: a\r\n\r\n"),
          .sendResponse (asciiBytes "HTTP/1.1 204 No Content\r\n\r\n")])
    (by decide +kernel)
  exact ⟨h, m, hrun, outgoing_of_run hrun, htest⟩

end Transaction

end Amanuensis
