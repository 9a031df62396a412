import Amanuensis.Transaction.Effects

/-!
# The control flow of a transaction

Outside a tunnel exactly one operation is pending; an open tunnel has one for each direction; after
the connections have been released at most one tunnel operation is left. In such a state
(`Control`) no handler locks the mutex twice, and every handler returns and has the effect
`effectOf` says, with the content and the notes that belong to it (`returns_complete`). Since the
initial state is under control, so is every state that can be reached (`control_of_run`).
-/

namespace Amanuensis

/-- The direction of a tunnel operation. -/
def Operation.direction : Operation → Option Direction
  | tunnelRead d => some d
  | tunnelWrite d _ => some d
  | _ => none

/-- The other direction. -/
def Direction.other : Direction → Direction
  | clientToRemote => remoteToClient
  | remoteToClient => clientToRemote

/-- What may still be pending once the connections have been released. -/
def Machine.Drained (m : Machine) : Prop :=
  m.pending.length ≤ 1 ∧ ∀ op ∈ m.pending, op.direction ≠ none

namespace Transaction

open HttpMessageParser

/-! ### Control -/

/-- The handler returns, with a machine of which `Q` holds, unless the parser aborts. -/
def Returns (aborts : Prop) (r : Except Halt Machine) (Q : Machine → Prop) : Prop :=
  match r with
  | .ok m => Q m
  | .error (.fatal _) => aborts
  | .error (.thrown _) => aborts
  | .error .deadlock => False
  | .error .diverges => False

theorem Returns.imp {aborts aborts' : Prop} {r : Except Halt Machine} {P Q : Machine → Prop}
    (h : Returns aborts r P) (haborts : aborts → aborts') (himp : ∀ m, P m → Q m) :
    Returns aborts' r Q := by
  match r with
  | .ok m => exact himp m h
  | .error (.fatal _) => exact haborts h
  | .error (.thrown _) => exact haborts h
  | .error .deadlock => exact h
  | .error .diverges => exact h

theorem Returns.of_ok {aborts : Prop} {r : Except Halt Machine} {Q : Machine → Prop} {m : Machine}
    (h : Returns aborts r Q) (hr : r = .ok m) : Q m := by
  rw [hr] at h
  exact h

theorem Returns.exists_ok {aborts : Prop} {r : Except Halt Machine} {Q : Machine → Prop}
    (h : Returns aborts r Q) (hr : ¬ aborts) : ∃ m, r = .ok m := by
  match r with
  | .ok m => exact ⟨m, rfl⟩
  | .error (.fatal _) => exact absurd h hr
  | .error (.thrown _) => exact absurd h hr
  | .error .deadlock => exact h.elim
  | .error .diverges => exact h.elim

/-- The parser gives up on what has been read. -/
def IsAbort : Outcome → Prop
  | .fatal _ | .thrown _ => True
  | _ => False

/-- **The parser aborts** at a completion. -/
def Aborts (m : Machine) (l : Label) : Prop :=
  l.completion.ec.isError = false ∧
    match l.operation with
    | .readClientRequest =>
      IsAbort (outcomeOf (scanner.scan m.requestCursor l.completion.data).verdict)
    | .readRemoteResponse =>
      IsAbort (outcomeOf (scanner.scan m.responseCursor l.completion.data).verdict)
    | _ => False

variable {m m₀ m' : Machine} {notes : List Event} {content : Content}

/-- The stages of a transaction, with the operations pending in each. -/
inductive Stage (m : Machine) : Prop
  | reading (hpending : m.pending = [.readClientRequest]) (hclient : m.tx.client = some .client)
      (hstate : m.tx.notificationState.code ≤ 3)
  | opening (callback : OpenCallback)
      (hpending : m.pending = [.resolve callback] ∨ m.pending = [.connect callback])
      (hclient : m.tx.client = some .client) (hstate : m.tx.notificationState.code ≤ 5)
  | exchanging (bytes : QByteArray)
      (hpending : m.pending = [.sendRequest bytes] ∨ m.pending = [.readRemoteResponse])
      (hclient : m.tx.client = some .client) (hremote : m.tx.remote = some .remote)
      (hstate : m.tx.notificationState.code ≤ 5)
  | relaying (hpending : m.pending = [.sendResponse m.tx.rawInput])
      (hclient : m.tx.client = some .client)
      (hstate : m.tx.notificationState = .responseComplete)
  | replying (ec : ErrorCode)
      (hpending : m.pending = [.connectReply ec (!ec.isError) (connectReplyText (!ec.isError))])
      (hclient : m.tx.client = some .client)
      (hremote : ec.isError = false → m.tx.remote = some .remote)
      (hstate : m.tx.notificationState.code ≤ 5)
  | tunnelling (a b : Operation) (hpending : m.pending.Perm [a, b])
      (ha : a.direction = some .clientToRemote) (hb : b.direction = some .remoteToClient)
      (hclient : m.tx.client = some .client) (hremote : m.tx.remote = some .remote)
      (hstate : m.tx.notificationState.code ≤ 5)
  | closed (hdrained : m.Drained) (hclient : m.tx.client = none) (hremote : m.tx.remote = none)

/-- **Control**: between handlers the mutex is free, and the transaction is in some stage. -/
structure Control (m : Machine) : Prop where
  mutex : m.tx.mutex = false
  stage : Stage m

theorem control_failed (hm : m.tx.mutex = false) (hd : m.Drained) (ec : ErrorCode) :
    Control (m.failed ec) :=
  ⟨hm, .closed hd rfl rfl⟩

/-- Failing after notes and a content. -/
theorem returns_notifyFailure (hm : m.tx.mutex = false) (hd : m₀.Drained)
    (h : Applied (.proceed []) notes content m₀ m) (ec : ErrorCode) :
    Returns False (notifyFailure ec m) fun m' ↦
      Control m' ∧ Applied (.fail ec) notes m.content m₀ m' := by
  have hpending : m.pending = m₀.pending := h.pending.trans (List.append_nil _)
  have hdrained : m.Drained := by rwa [Machine.Drained, hpending]
  rw [notifyFailure_eq hm]
  exact ⟨control_failed hm hdrained ec, h.fail_after (applied_fail ec m)⟩

theorem drained_of_nil (hp : m.pending = []) : m.Drained := by simp [Machine.Drained, hp]

/-- A request other than `CONNECT` has ended: it fails without a host, and is resolved with one. -/
theorem returns_openRemoteConnection (hm : m.tx.mutex = false) (hp : m.pending = [])
    (hc : m.tx.client = some .client) (hs : m.tx.notificationState.code ≤ 3) (hd : m₀.Drained)
    (h : Applied (.proceed []) notes m.content m₀ m) :
    Returns False (openRemoteConnection (doNotification .requestComplete m)) fun m' ↦
      Control m' ∧
        Applied (if m.tx.request.headers.findByName (QString.ofString "Host") = [] then
            .fail ProxyError.malformedRequest.makeErrorCode else .proceed [.resolve .request])
          (notes ++ [.notified .requestComplete]) m.content m₀ m' := by
  obtain ⟨new, heq⟩ : ∃ new, doNotification .requestComplete m =
      { m with trace := m.trace ++ new, tx.notificationState := .requestComplete } :=
    exists_doNotification_eq (hs.trans (by decide))
  have hnoted := h.proceed_noted (applied_requestComplete hs)
  rw [heq] at hnoted ⊢
  let m₁ : Machine := { m with trace := m.trace ++ new, tx.notificationState := .requestComplete }
  rw [openRemoteConnection]
  rcases hhost : m.tx.request.headers.findByName (QString.ofString "Host") with - | ⟨value, values⟩
  · rw [if_pos rfl]
    exact returns_notifyFailure (m := m₁) hm hd hnoted _
  · rw [if_neg (List.cons_ne_nil _ _)]
    exact ⟨⟨hm, .opening .request (Or.inl (by simp [tryOpen, Machine.start, Machine.record, hp])) hc
      (Nat.le_succ 4)⟩,
      hnoted.proceed_after (applied_tryOpen _ _ _ m₁)⟩

/-- A read of the request. -/
theorem returns_onReadClientRequest (hm : m.tx.mutex = false) (hp : m.pending = [])
    (hc : m.tx.client = some .client) (hs : m.tx.notificationState.code ≤ 3) (c : Completion) :
    Returns (Aborts m ⟨.readClientRequest, c⟩) (onReadClientRequest c m) fun m' ↦
      Control m' ∧
        ∃ notes, IsNoted m ⟨.readClientRequest, c⟩ notes ∧
          Applied (effectOf m ⟨.readClientRequest, c⟩) notes
            (contentOf m ⟨.readClientRequest, c⟩) m m' := by
  have hd := drained_of_nil hp
  have hfill : Applied (.proceed []) [] m.content m { m with tx.readBuffer := c.data } :=
    applied_proceed (by simp) rfl rfl rfl rfl rfl
  have hfails (herr : c.ec.isError = true) (ec : ErrorCode) :
      Returns (Aborts m ⟨.readClientRequest, c⟩)
        (notifyFailure ec { m with tx.readBuffer := c.data })
        fun m' ↦ Control m' ∧ ∃ notes, IsNoted m ⟨.readClientRequest, c⟩ notes ∧
          Applied (.fail ec) notes m.content m m' := by
    have hnone : IsNoted m ⟨.readClientRequest, c⟩ [] :=
      ⟨[], by simp, fun h ↦ absurd (h.2.1.symm.trans herr) (by decide), fun _ ↦ rfl⟩
    exact (returns_notifyFailure (m := { m with tx.readBuffer := c.data }) hm hd hfill ec).imp
      False.elim fun _ h ↦ ⟨h.1, [], hnone, h.2⟩
  rw [onReadClientRequest_eq, effectOf, contentOf]
  dsimp only
  by_cases heof : c.ec = .eof
  · have herr : c.ec.isError = true := by rw [heof]; rfl
    rw [if_pos heof, if_pos heof, if_pos herr]
    exact hfails herr _
  by_cases herr : c.ec.isError = true
  · rw [if_neg heof, if_pos herr, if_neg heof, if_pos herr, if_pos herr]
    exact hfails herr _
  rw [if_neg heof, if_neg herr, if_neg heof, if_neg herr, if_neg herr]
  obtain ⟨early, hearly, happlied⟩ := applied_readRequest hs c.data
  have hcontent := happlied.content
  obtain ⟨s, new, hread, -, hbound, -⟩ := exists_readRequest_eq hs c.data
  have hm₁ : (m.readRequest c.data).tx.mutex = false := by rw [hread]; exact hm
  have hc₁ : (m.readRequest c.data).tx.client = some .client := by rw [hread]; exact hc
  have hp₁ : (m.readRequest c.data).pending = [] := by rw [hread]; exact hp
  have hs₁ : (m.readRequest c.data).tx.notificationState.code ≤ 3 := by rw [hread]; exact hbound
  have hrequest : (m.readRequest c.data).tx.request =
      (scanner.scan m.requestCursor c.data).state.message := by rw [hread]; rfl
  -- Unless a request other than `CONNECT` ends, the notes are those of its phases.
  have hnoted (h : ¬ endsPlainRequest m ⟨.readClientRequest, c⟩) :
      IsNoted m ⟨.readClientRequest, c⟩ early :=
    ⟨early, hearly, fun h' ↦ absurd h' h, fun _ ↦ rfl⟩
  have hends (h : endsPlainRequest m ⟨.readClientRequest, c⟩) :
      outcomeOf (scanner.scan m.requestCursor c.data).verdict = .valid ∧
        (scanner.scan m.requestCursor c.data).state.message.method ≠
          QString.ofString "CONNECT" := h.2.2
  have hplain (hv : outcomeOf (scanner.scan m.requestCursor c.data).verdict = .valid)
      (hmethod : (scanner.scan m.requestCursor c.data).state.message.method ≠
          QString.ofString "CONNECT") :
      endsPlainRequest m ⟨.readClientRequest, c⟩ := ⟨rfl, by simpa using herr, hv, hmethod⟩
  have haborts (hv : IsAbort (outcomeOf (scanner.scan m.requestCursor c.data).verdict)) :
      Aborts m ⟨.readClientRequest, c⟩ := ⟨by simpa using herr, hv⟩
  rw [← hrequest] at hends hplain
  rw [← hcontent, ← hrequest]
  rw [← hcontent] at happlied
  generalize m.readRequest c.data = m₁ at *
  cases houtcome : outcomeOf (scanner.scan m.requestCursor c.data).verdict with
  | incomplete =>
    dsimp only
    rw [readClientRequest_eq hm₁ hc₁]
    exact ⟨⟨hm₁, .reading (by simp [Machine.start, hp₁]) hc₁ hs₁⟩, early,
      hnoted fun h ↦ absurd (houtcome.symm.trans (hends h).1) (by decide),
      happlied.proceed_after (applied_start _ _)⟩
  | invalid =>
    exact (returns_notifyFailure hm₁ hd happlied _).imp False.elim fun _ h ↦ ⟨h.1, early,
      hnoted fun h' ↦ absurd (houtcome.symm.trans (hends h').1) (by decide), h.2⟩
  | fatal | thrown => exact haborts (by rw [houtcome]; trivial)
  | valid =>
    dsimp only
    by_cases hconnect : m₁.tx.request.method = QString.ofString "CONNECT"
    · rw [if_pos hconnect, if_pos hconnect, establishTlsTunnel]
      exact ⟨⟨hm₁, .opening .tunnel (Or.inl (by simp [tryOpen, Machine.start, Machine.record, hp₁]))
        hc₁ (hs₁.trans (by decide))⟩, early, hnoted fun h ↦ (hends h).2 hconnect,
        happlied.proceed_after (applied_tryOpen _ _ _ _)⟩
    · rw [if_neg hconnect, if_neg hconnect]
      have hnoted₁ : IsNoted m ⟨.readClientRequest, c⟩ (early ++ [.notified .requestComplete]) :=
        ⟨early, hearly, fun _ ↦ rfl, fun h ↦ absurd (hplain houtcome hconnect) h⟩
      exact (returns_openRemoteConnection hm₁ hp₁ hc₁ hs₁ hd happlied).imp False.elim
        fun _ h ↦ ⟨h.1, _, hnoted₁, h.2⟩

/-- A response has ended: the state is `ResponseComplete`, wherever it was before. -/
theorem returns_sendRemoteResponse (hm : m.tx.mutex = false) (hp : m.pending = [])
    (hc : m.tx.client = some .client) (hs : m.tx.notificationState.code ≤ 5)
    (h : Applied (.proceed []) notes m.content m₀ m) :
    Returns False (sendRemoteResponseToClient (doNotification .responseComplete m)) fun m' ↦
      Control m' ∧
        ∃ notes, Applied (.proceed [.sendResponse m.tx.rawInput]) notes m.content m₀ m' := by
  obtain ⟨new, heq⟩ : ∃ new, doNotification .responseComplete m =
      { m with trace := m.trace ++ new, tx.notificationState := .responseComplete } :=
    exists_doNotification_eq (hs.trans (by decide))
  have hadv : Advances 7 Event.isProgress m (doNotification .responseComplete m) :=
    advances_doNotification le_rfl le_rfl (hs.trans (by decide))
  obtain ⟨notes', -, hnotes'⟩ := hadv.applied le_rfl fun _ ↦ Event.isQuiet_of_isProgress
  have hnoted := h.proceed_noted hnotes'
  rw [heq] at hnoted ⊢
  let m₁ : Machine := { m with trace := m.trace ++ new, tx.notificationState := .responseComplete }
  have hsends : sendRemoteResponseToClient m₁ = .ok (m₁.start (.sendResponse m₁.tx.rawInput)) :=
    sendRemoteResponseToClient_eq (m := m₁) hm hc
  show Returns False (sendRemoteResponseToClient m₁) _
  rw [hsends]
  exact ⟨⟨hm, .relaying (by simp [m₁, Machine.start, hp]) hc rfl⟩, _,
    hnoted.proceed_after (applied_start _ m₁)⟩

/-- The request has been written. -/
theorem returns_onSendClientRequest (hm : m.tx.mutex = false) (hp : m.pending = [])
    (hc : m.tx.client = some .client) (hr : m.tx.remote = some .remote)
    (hs : m.tx.notificationState.code ≤ 5) (bytes : QByteArray) (c : Completion) :
    Returns False (onSendClientRequest c m) fun m' ↦
      Control m' ∧
        Applied (effectOf m ⟨.sendRequest bytes, c⟩) [] (contentOf m ⟨.sendRequest bytes, c⟩)
          m m' := by
  rw [onSendClientRequest, effectOf, contentOf]
  dsimp only
  split_ifs
  · exact returns_notifyFailure hm (drained_of_nil hp) (Applied.refl m) _
  · rw [readRemoteResponse_eq (m := { m with
      tx.rawInput := [], tx.parser := m.tx.parser.resetForResponse }) hm hc hr]
    exact ⟨⟨hm, .exchanging [] (Or.inr (by simp [Machine.start, hp])) hc hr hs⟩,
      applied_proceed rfl rfl rfl rfl rfl rfl⟩

/-- A read of the response. -/
theorem returns_onReadRemoteResponse (hm : m.tx.mutex = false) (hp : m.pending = [])
    (hc : m.tx.client = some .client) (hr : m.tx.remote = some .remote)
    (hs : m.tx.notificationState.code ≤ 5) (c : Completion) :
    Returns (Aborts m ⟨.readRemoteResponse, c⟩) (onReadRemoteResponse c m) fun m' ↦
      Control m' ∧
        ∃ notes,
          Applied (effectOf m ⟨.readRemoteResponse, c⟩) notes
            (contentOf m ⟨.readRemoteResponse, c⟩) m m' := by
  have hd := drained_of_nil hp
  have hfill : Applied (.proceed []) [] m.content m { m with tx.readBuffer := c.data } :=
    applied_proceed (by simp) rfl rfl rfl rfl rfl
  have hfails (ec : ErrorCode) :
      Returns (Aborts m ⟨.readRemoteResponse, c⟩)
        (notifyFailure ec { m with tx.readBuffer := c.data })
        fun m' ↦ Control m' ∧ ∃ notes, Applied (.fail ec) notes m.content m m' :=
    (returns_notifyFailure (m := { m with tx.readBuffer := c.data }) hm hd hfill ec).imp
      False.elim fun _ h ↦ ⟨h.1, [], h.2⟩
  rw [onReadRemoteResponse_eq, effectOf, contentOf]
  dsimp only
  by_cases heof : c.ec = .eof
  · have herr : c.ec.isError = true := by rw [heof]; rfl
    rw [if_pos heof, if_pos heof, if_pos herr]
    exact hfails _
  by_cases herr : c.ec.isError = true
  · rw [if_neg heof, if_pos herr, if_neg heof, if_pos herr, if_pos herr]
    exact hfails _
  rw [if_neg heof, if_neg herr, if_neg heof, if_neg herr, if_neg herr]
  obtain ⟨notes, happlied⟩ := applied_readResponse hs c.data
  have hcontent := happlied.content
  obtain ⟨s, new, hread, -, hbound, -⟩ := exists_readResponse_eq hs c.data
  have hm₁ : (m.readResponse c.data).tx.mutex = false := by rw [hread]; exact hm
  have hc₁ : (m.readResponse c.data).tx.client = some .client := by rw [hread]; exact hc
  have hr₁ : (m.readResponse c.data).tx.remote = some .remote := by rw [hread]; exact hr
  have hp₁ : (m.readResponse c.data).pending = [] := by rw [hread]; exact hp
  have hs₁ : (m.readResponse c.data).tx.notificationState.code ≤ 5 := by rw [hread]; exact hbound
  have hraw : (m.readResponse c.data).tx.rawInput = m.tx.rawInput ++ c.data := by rw [hread]; rfl
  have haborts (hv : IsAbort (outcomeOf (scanner.scan m.responseCursor c.data).verdict)) :
      Aborts m ⟨.readRemoteResponse, c⟩ := ⟨by simpa using herr, hv⟩
  rw [← hcontent, ← hraw]
  rw [← hcontent] at happlied
  generalize m.readResponse c.data = m₁ at *
  cases houtcome : outcomeOf (scanner.scan m.responseCursor c.data).verdict with
  | incomplete =>
    dsimp only
    rw [readRemoteResponse_eq hm₁ hc₁ hr₁]
    exact ⟨⟨hm₁, .exchanging [] (Or.inr (by simp [Machine.start, hp₁])) hc₁ hr₁ hs₁⟩, notes,
      happlied.proceed_after (applied_start _ _)⟩
  | invalid =>
    exact (returns_notifyFailure hm₁ hd happlied _).imp False.elim fun _ h ↦ ⟨h.1, notes, h.2⟩
  | fatal | thrown => exact haborts (by rw [houtcome]; trivial)
  | valid =>
    dsimp only
    exact (returns_sendRemoteResponse hm₁ hp₁ hc₁ hs₁ happlied).imp False.elim fun _ h ↦ h

/-- The response has been written. -/
theorem returns_onSendRemoteResponse (hm : m.tx.mutex = false) (hp : m.pending = [])
    (bytes : QByteArray) (c : Completion) :
    Returns False (onSendRemoteResponse c m) fun m' ↦
      Control m' ∧
        Applied (effectOf m ⟨.sendResponse bytes, c⟩) []
          (contentOf m ⟨.sendResponse bytes, c⟩) m m' := by
  rw [onSendRemoteResponse, effectOf, contentOf]
  dsimp only
  split_ifs
  · exact returns_notifyFailure hm (drained_of_nil hp) (Applied.refl m) _
  · rw [completeTransaction_eq hm]
    exact ⟨⟨hm, .closed (drained_of_nil hp) rfl rfl⟩, applied_finish m⟩

/-- The callback of `open_remote_connection`. -/
theorem returns_onOpened_request (hm : m.tx.mutex = false) (hp : m.pending = [])
    (hc : m.tx.client = some .client) (hs : m.tx.notificationState.code ≤ 5)
    {conn : Option Connection} {ec : ErrorCode} (hconn : ec.isError = false → conn = some .remote) :
    Returns False (onOpened .request conn ec m) fun m' ↦
      Control m' ∧
        Applied
          (if ec.isError then .fail ec
            else .proceed [.sendRequest (Request.format m.tx.request)]) [] m.content m m' := by
  rw [onOpened]
  dsimp only
  split_ifs with herr
  · exact returns_notifyFailure hm (drained_of_nil hp) (Applied.refl m) _
  · have hr : conn = some .remote := hconn (by simpa using herr)
    rw [sendClientRequestToRemote_eq (m := { m with tx.remote := conn }) hm hc hr]
    have hp' : ({ m with tx.remote := conn }.start (.sendRequest (Request.format m.tx.request))
        : Machine).pending = [.sendRequest (Request.format m.tx.request)] := by
      simp [Machine.start, hp]
    exact ⟨⟨hm, .exchanging _ (Or.inl hp') hc hr hs⟩, applied_proceed rfl rfl rfl rfl rfl rfl⟩

/-- The callback of `establish_tls_tunnel`. -/
theorem returns_onOpened_tunnel (hm : m.tx.mutex = false) (hp : m.pending = [])
    (hc : m.tx.client = some .client) (hs : m.tx.notificationState.code ≤ 5)
    {conn : Option Connection} {ec : ErrorCode} (hconn : ec.isError = false → conn = some .remote) :
    Returns False (onOpened .tunnel conn ec m) fun m' ↦
      Control m' ∧
        Applied (.proceed [.connectReply ec (!ec.isError) (connectReplyText (!ec.isError))]) []
          m.content m m' := by
  have hreply (m₁ : Machine) (hm₁ : m₁.tx.mutex = false) (hc₁ : m₁.tx.client = some .client) :
      lockGuard m₁ (fun m ↦
          if m.tx.client = none then notifyFailure ProxyError.clientDisconnected.makeErrorCode m
          else .ok (m.start (.connectReply ec (!ec.isError) (connectReplyText (!ec.isError))))) =
        .ok (m₁.start (.connectReply ec (!ec.isError) (connectReplyText (!ec.isError)))) :=
    lockGuard_of_ok _ hm₁ hm₁ (if_neg (by simp [hc₁]))
  rw [onOpened]
  dsimp only
  split_ifs with hsuccess
  · rw [hreply { m with tx.remote := conn } hm hc]
    exact ⟨⟨hm, .replying ec (by simp [Machine.start, hp]) hc hconn hs⟩,
      applied_proceed rfl rfl rfl rfl rfl rfl⟩
  · rw [hreply m hm hc]
    refine ⟨⟨hm, .replying ec (by simp [Machine.start, hp]) hc (fun h ↦ ?_) hs⟩, applied_start _ _⟩
    exact absurd (by rw [h]; rfl) hsuccess

theorem returns_onResolve (hm : m.tx.mutex = false) (hp : m.pending = [])
    (hc : m.tx.client = some .client) (hs : m.tx.notificationState.code ≤ 5)
    (callback : OpenCallback) (c : Completion) :
    Returns False (onResolve callback c m) fun m' ↦
      Control m' ∧
        Applied (effectOf m ⟨.resolve callback, c⟩) []
          (contentOf m ⟨.resolve callback, c⟩) m m' := by
  have hconn : c.ec.isError = true → c.ec.isError = false → none = some Connection.remote :=
    fun herr hok ↦ absurd (herr.symm.trans hok) (by decide)
  have hstart : Returns False (.ok (m.start (.connect callback))) fun m' ↦
      Control m' ∧ Applied (.proceed [.connect callback]) [] m.content m m' :=
    ⟨⟨hm, .opening callback (Or.inr (by simp [Machine.start, hp])) hc hs⟩, applied_start _ _⟩
  rw [onResolve]
  cases callback with
  | request =>
    rw [effectOf]
    dsimp only
    by_cases herr : c.ec.isError = true
    · have h := returns_onOpened_request hm hp hc hs (hconn herr)
      rw [if_pos herr] at h
      rwa [if_pos herr, if_pos herr]
    · rwa [if_neg herr, if_neg herr]
  | tunnel =>
    rw [effectOf]
    dsimp only
    by_cases herr : c.ec.isError = true
    · have h := returns_onOpened_tunnel hm hp hc hs (hconn herr)
      rw [if_pos herr, if_pos herr]
      rwa [herr] at h
    · rwa [if_neg herr, if_neg herr]

theorem returns_onConnect (hm : m.tx.mutex = false) (hp : m.pending = [])
    (hc : m.tx.client = some .client) (hs : m.tx.notificationState.code ≤ 5)
    (callback : OpenCallback) (c : Completion) :
    Returns False (onConnect callback c m) fun m' ↦
      Control m' ∧
        Applied (effectOf m ⟨.connect callback, c⟩) []
          (contentOf m ⟨.connect callback, c⟩) m m' := by
  have hconn {conn : Option Connection} (h : conn = none → c.ec.isError = true)
      (h' : conn = none ∨ conn = some .remote) : c.ec.isError = false → conn = some .remote :=
    fun hok ↦ h'.resolve_left fun hnone ↦ absurd ((h hnone).symm.trans hok) (by decide)
  rw [onConnect]
  by_cases herr : c.ec.isError = true
  · rw [if_pos herr]
    cases callback with
    | request => exact returns_onOpened_request hm hp hc hs (hconn (fun _ ↦ herr) (Or.inl rfl))
    | tunnel => exact returns_onOpened_tunnel hm hp hc hs (hconn (fun _ ↦ herr) (Or.inl rfl))
  · rw [if_neg herr]
    cases callback with
    | request => exact returns_onOpened_request hm hp hc hs fun _ ↦ rfl
    | tunnel => exact returns_onOpened_tunnel hm hp hc hs fun _ ↦ rfl

/-! ### The tunnel -/

/-- A tunnel while the handler of one direction runs: either both connections are open and the
other direction has an operation pending, or they have been released and none is left. -/
inductive Handling (d : Direction) (m : Machine) : Prop
  | live (o : Operation) (hpending : m.pending = [o]) (ho : o.direction = some d.other)
      (hclient : m.tx.client = some .client) (hremote : m.tx.remote = some .remote)
      (hstate : m.tx.notificationState.code ≤ 5)
  | closed (hpending : m.pending = []) (hclient : m.tx.client = none)
      (hremote : m.tx.remote = none)

theorem Handling.drained {d : Direction} (h : Handling d m) : m.Drained := by
  rcases h with ⟨o, hp, ho, -, -, -⟩ | ⟨hp, -, -⟩
  · refine ⟨by simp [hp], fun op hop ↦ ?_⟩
    rw [hp, List.mem_singleton] at hop
    simp [hop, ho]
  · exact drained_of_nil hp

/-- The handling direction starts its next operation. -/
theorem control_start_of_handling {d : Direction} {o op : Operation} (hm : m.tx.mutex = false)
    (hp : m.pending = [o]) (ho : o.direction = some d.other) (hc : m.tx.client = some .client)
    (hr : m.tx.remote = some .remote) (hs : m.tx.notificationState.code ≤ 5)
    (hop : op.direction = some d) : Control (m.start op) := by
  have hpending : (m.start op).pending = [o, op] := by simp [Machine.start, hp]
  refine ⟨hm, ?_⟩
  cases d with
  | clientToRemote =>
    exact .tunnelling op o (by rw [hpending]; exact List.Perm.swap _ _ _) hop ho hc hr hs
  | remoteToClient => exact .tunnelling o op (by rw [hpending]) ho hop hc hr hs

/-- The next read of a direction, unless the connections have been released. -/
theorem returns_sendViaTunnel {d : Direction} (hm : m.tx.mutex = false) (h : Handling d m) :
    Returns False (sendViaTunnel d m) fun m' ↦
      Control m' ∧
        Applied (if m.tx.client = none then .proceed [] else .proceed [.tunnelRead d]) [] m.content
          m m' := by
  rw [sendViaTunnel_eq hm]
  rcases h with ⟨o, hp, ho, hc, hr, hs⟩ | ⟨hp, hc, hr⟩
  · rw [if_neg (by simp [hc, hr]), if_neg (by simp [hc])]
    exact ⟨control_start_of_handling hm hp ho hc hr hs rfl, applied_start _ _⟩
  · rw [if_pos (Or.inl hc), if_pos hc]
    exact ⟨⟨hm, .closed (drained_of_nil hp) hc hr⟩, Applied.refl m⟩

theorem returns_onTunnelWrite {d : Direction} (hm : m.tx.mutex = false) (h : Handling d m)
    (bytes : QByteArray) (c : Completion) :
    Returns False (onTunnelWrite d bytes c m) fun m' ↦
      Control m' ∧
        Applied (effectOf m ⟨.tunnelWrite d bytes, c⟩) []
          (contentOf m ⟨.tunnelWrite d bytes, c⟩) m m' := by
  rw [onTunnelWrite, effectOf, contentOf]
  dsimp only
  by_cases herr : c.ec.isError = true
  · rw [if_pos herr, if_pos herr]
    exact returns_notifyFailure hm h.drained (Applied.refl m) _
  rw [if_neg herr, if_neg herr]
  by_cases hlength : bytes.length ≠ c.written
  · rw [if_pos hlength, if_pos hlength]
    exact returns_notifyFailure hm h.drained (Applied.refl m) _
  rw [if_neg hlength, if_neg hlength]
  exact returns_sendViaTunnel hm h

/-- A read of a direction goes to its buffer, which has no effect. -/
theorem applied_fillBuffer (d : Direction) (data : QByteArray) (m : Machine) :
    Applied (.proceed []) [] m.content m (fillBuffer d data m) := by
  cases d <;> exact applied_proceed (List.append_nil _).symm rfl rfl rfl rfl rfl

theorem Handling.fillBuffer {d : Direction} (h : Handling d m) (data : QByteArray) :
    Handling d (fillBuffer d data m) := by
  rcases h with ⟨o, hp, ho, hc, hr, hs⟩ | ⟨hp, hc, hr⟩
  · cases d <;> exact .live o hp ho hc hr hs
  · cases d <;> exact .closed hp hc hr

theorem returns_onTunnelRead {d : Direction} (hm : m.tx.mutex = false) (h : Handling d m)
    (c : Completion) :
    Returns False (onTunnelRead d c m) fun m' ↦
      Control m' ∧
        Applied (effectOf m ⟨.tunnelRead d, c⟩) []
          (contentOf m ⟨.tunnelRead d, c⟩) m m' := by
  have hfill := applied_fillBuffer d c.data m
  have hm₁ : (fillBuffer d c.data m).tx.mutex = false := by cases d <;> exact hm
  have hclient : (fillBuffer d c.data m).tx.client = m.tx.client := by cases d <;> rfl
  have hrelease : Applied .release [] m.content m (fillBuffer d c.data m).released := by
    cases d <;> exact ⟨(List.append_nil _).symm, rfl, rfl, rfl, Machine.records_released m, rfl⟩
  have hcontent : (fillBuffer d c.data m).content = m.content := hfill.content
  have h₁ := h.fillBuffer c.data
  rw [onTunnelRead, effectOf, contentOf]
  dsimp only
  rw [← hclient, ← hcontent]
  rw [← hcontent] at hfill hrelease
  generalize Transaction.fillBuffer d c.data m = m₁ at *
  by_cases hend : c.ec = .eof ∨ c.data.length = 0
  · rw [if_pos hend, if_pos hend, releaseConnections_eq hm₁]
    exact ⟨⟨hm₁, .closed h₁.drained rfl rfl⟩, hrelease⟩
  rw [if_neg hend, if_neg hend]
  by_cases herr : c.ec.isError = true
  · rw [if_pos herr, if_pos herr]
    have hd : m.Drained := h.drained
    exact returns_notifyFailure hm₁ hd hfill _
  rw [if_neg herr, if_neg herr]
  rcases h₁ with ⟨o, hp, ho, hc, hr, hs⟩ | ⟨hp, hc, hr⟩
  · have hopen : destination d m₁ ≠ none := by cases d <;> simp [destination, hc, hr]
    rw [lockGuard_of_ok (m₁.start (.tunnelWrite d c.data)) hm₁ hm₁ (if_neg hopen),
      if_neg (by simp [hc])]
    exact ⟨control_start_of_handling hm₁ hp ho hc hr hs rfl,
      hfill.proceed_after (applied_start _ _)⟩
  · have hgone : destination d m₁ = none := by cases d <;> simp [destination, hc, hr]
    rw [lockGuard_of_ok m₁ hm₁ hm₁ (if_pos hgone), if_pos hc]
    exact ⟨⟨hm₁, .closed (drained_of_nil hp) hc hr⟩, hfill⟩

/-- The reply to `CONNECT` has been written. -/
theorem returns_onConnectReply (hm : m.tx.mutex = false) (hp : m.pending = [])
    (hc : m.tx.client = some .client) (hs : m.tx.notificationState.code ≤ 5) (ec : ErrorCode)
    (hr : ec.isError = false → m.tx.remote = some .remote) (bytes : QByteArray) (c : Completion) :
    Returns False (onConnectReply ec (!ec.isError) c m) fun m' ↦
      Control m' ∧
        Applied (effectOf m ⟨.connectReply ec (!ec.isError) bytes, c⟩) []
          (contentOf m ⟨.connectReply ec (!ec.isError) bytes, c⟩) m m' := by
  rw [onConnectReply, effectOf, contentOf]
  dsimp only
  split_ifs with hsuccess
  · have hr₁ : m.tx.remote = some .remote := hr (by simpa using hsuccess.1)
    -- Both directions of the tunnel start with a read.
    let m₁ : Machine := { m with tx.remoteBuffer := some [] }
    have hfirst : sendClientRequestViaTunnel m₁ = .ok (m₁.start (.tunnelRead .clientToRemote)) :=
      sendViaTunnel_of_open (m := m₁) hm hc hr₁ .clientToRemote
    have hsecond : sendServerResponseViaTunnel (m₁.start (.tunnelRead .clientToRemote)) =
        .ok ((m₁.start (.tunnelRead .clientToRemote)).start (.tunnelRead .remoteToClient)) :=
      sendViaTunnel_of_open (m := m₁.start (.tunnelRead .clientToRemote)) hm hc hr₁ .remoteToClient
    show Returns False (sendClientRequestViaTunnel m₁ >>= sendServerResponseViaTunnel) _
    rw [hfirst]
    show Returns False (sendServerResponseViaTunnel (m₁.start (.tunnelRead .clientToRemote))) _
    rw [hsecond]
    refine ⟨⟨hm, .tunnelling (.tunnelRead .clientToRemote) (.tunnelRead .remoteToClient) ?_ rfl rfl
      hc hr₁ hs⟩, applied_proceed ?_ rfl rfl rfl rfl rfl⟩
    · simp [m₁, Machine.start, hp]
    · simp [m₁, Machine.start]
  · exact returns_notifyFailure hm (drained_of_nil hp) (Applied.refl m) _

/-! ### Every handler has its effect -/

/-- The only operation completes. -/
theorem without_of_pending {op o : Operation} (hp : m.pending = [o]) (hop : op ∈ m.pending) :
    (m.without op).pending = [] ∧ o = op := by
  rw [hp, List.mem_singleton] at hop
  exact ⟨by simp [Machine.without, hp, hop], hop.symm⟩

/-- One operation of a tunnel completes. -/
theorem Stage.handling {op : Operation} {d : Direction} (h : Stage m) (hop : op ∈ m.pending)
    (hd : op.direction = some d) : Handling d (m.without op) := by
  have hone {o : Operation} (hp : m.pending = [o]) : (m.without op).pending = [] ∧ o = op :=
    without_of_pending hp hop
  rcases h with ⟨hp, -, -⟩ | ⟨callback, hp | hp, -, -⟩ | ⟨bytes, hp | hp, -, -, -⟩ | ⟨hp, -, -⟩ |
    ⟨ec, hp, -, -, -⟩ | ⟨a, b, hp, ha, hb, hc, hr, hs⟩ | ⟨⟨hle, -⟩, hc, hr⟩
  iterate 7
    obtain ⟨-, rfl⟩ := hone hp
    exact absurd hd (by simp [Operation.direction])
  · have hmem : op = a ∨ op = b := by simpa using hp.subset hop
    have herase := hp.erase op
    rcases hmem with rfl | rfl
    · obtain rfl : Direction.clientToRemote = d := Option.some_inj.1 (ha.symm.trans hd)
      rw [List.erase_cons_head] at herase
      exact .live b (List.perm_singleton.1 herase) hb hc hr hs
    · obtain rfl : Direction.remoteToClient = d := Option.some_inj.1 (hb.symm.trans hd)
      have hne : a ≠ op := by
        rintro rfl
        exact absurd (ha.symm.trans hb) (by simp)
      rw [List.erase_cons_tail (by simpa using hne), List.erase_cons_head] at herase
      exact .live a (List.perm_singleton.1 herase) ha hc hr hs
  · refine .closed (List.eq_nil_of_length_eq_zero ?_) hc hr
    have hlength := List.length_erase_of_mem hop
    show (m.pending.erase op).length = 0
    omega

/-- What a pending operation outside the tunnel says of the machine. -/
def Expected (m : Machine) : Operation → Prop
  | .readClientRequest => m.tx.notificationState.code ≤ 3
  | .sendResponse bytes =>
    bytes = m.tx.rawInput ∧ m.tx.notificationState = .responseComplete
  | .connectReply ec success _ => success = !ec.isError
  | _ => True

/-- Outside the tunnel one operation is pending, and the client is connected. -/
theorem Stage.expected {op : Operation} (h : Stage m) (hop : op ∈ m.pending)
    (hd : op.direction = none) :
    m.pending = [op] ∧ m.tx.client = some .client ∧ Expected m op := by
  have hone {o : Operation} (hp : m.pending = [o]) : o = op := (without_of_pending hp hop).2
  rcases h with ⟨hp, hc, hs⟩ | ⟨callback, hp | hp, hc, hs⟩ | ⟨bytes, hp | hp, hc, hr, hs⟩ |
    ⟨hp, hc, hs⟩ | ⟨ec, hp, hc, hr, hs⟩ | ⟨a, b, hp, ha, hb, -, -, -⟩ | ⟨⟨-, hdirection⟩, -, -⟩
  case tunnelling =>
    have hmem : op = a ∨ op = b := by simpa using hp.subset hop
    rcases hmem with rfl | rfl
    · exact absurd (hd.symm.trans ha) (by simp)
    · exact absurd (hd.symm.trans hb) (by simp)
  case closed => exact absurd hd (hdirection op hop)
  case reading =>
    obtain rfl := hone hp
    exact ⟨hp, hc, hs⟩
  case relaying =>
    obtain rfl := hone hp
    exact ⟨hp, hc, rfl, hs⟩
  case replying =>
    obtain rfl := hone hp
    exact ⟨hp, hc, rfl⟩
  all_goals
    obtain rfl := hone hp
    exact ⟨hp, hc, trivial⟩

/-- Nothing is pending only once the connections have been released. -/
theorem Stage.client_of_pending_nil (h : Stage m) (hp : m.pending = []) :
    m.tx.client = none := by
  rcases h with ⟨hp', -, -⟩ | ⟨callback, hp' | hp', -, -⟩ | ⟨bytes, hp' | hp', -, -, -⟩ |
    ⟨hp', -, -⟩ | ⟨ec, hp', -, -, -⟩ | ⟨a, b, hp', -, -, -, -, -⟩ | ⟨-, hc, -⟩
  case tunnelling => exact absurd (hp'.length_eq.symm.trans (congrArg _ hp)) (by simp)
  case closed => exact hc
  all_goals exact absurd (hp'.symm.trans hp) (List.cons_ne_nil _ _)

/-- What a handler does. -/
structure Performs (l : Label) (m m' : Machine) : Prop where
  control : Control m'
  applied : ∃ notes, IsNoted m l notes ∧ Applied (effectOf m l) notes (contentOf m l) m m'

/-- A handler that notes nothing and does not parse. -/
theorem Returns.performs {aborts : Prop} {r : Except Halt Machine} {l : Label}
    (hnoted : IsNoted m l [])
    (h : Returns False r fun m' ↦
      Control m' ∧ Applied (effectOf m l) [] (contentOf m l) m m') :
    Returns aborts r fun m' ↦ Performs l m m' :=
  h.imp False.elim fun _ h ↦ ⟨h.1, [], hnoted, h.2⟩

/-- **Every handler returns, keeps control and has its effect**, unless the parser aborts. -/
theorem returns_complete (h : Control m) {l : Label} (hl : l.operation ∈ m.pending) :
    Returns (Aborts m l) (complete m l) fun m' ↦ Performs l (m.without l.operation) m' := by
  obtain ⟨hm, hstage⟩ := h
  obtain ⟨op, c⟩ := l
  have hm₁ : (m.without op).tx.mutex = false := hm
  show Returns (Aborts m ⟨op, c⟩) (handle op c (m.without op)) fun m' ↦
    Performs ⟨op, c⟩ (m.without op) m'
  cases hd : op.direction with
  | some d =>
    have hhandling := hstage.handling hl hd
    cases op <;> cases hd
    · exact (returns_onTunnelRead hm₁ hhandling c).performs rfl
    · exact (returns_onTunnelWrite hm₁ hhandling _ c).performs rfl
  | none =>
    have hone {o : Operation} (hp : m.pending = [o]) : (m.without op).pending = [] ∧ o = op :=
      without_of_pending hp hl
    rcases hstage with ⟨hp, hc, hs⟩ | ⟨callback, hp | hp, hc, hs⟩ | ⟨bytes, hp | hp, hc, hr, hs⟩ |
      ⟨hp, hc, hs⟩ | ⟨ec, hp, hc, hr, hs⟩ | ⟨a, b, hp, ha, hb, -, -, -⟩ | ⟨⟨-, hdirection⟩, -, -⟩
    · obtain ⟨hp₁, rfl⟩ := hone hp
      exact (returns_onReadClientRequest hm₁ hp₁ hc hs c).imp id fun _ h ↦ ⟨h.1, h.2⟩
    · obtain ⟨hp₁, rfl⟩ := hone hp
      exact (returns_onResolve hm₁ hp₁ hc hs callback c).performs rfl
    · obtain ⟨hp₁, rfl⟩ := hone hp
      exact (returns_onConnect hm₁ hp₁ hc hs callback c).performs rfl
    · obtain ⟨hp₁, rfl⟩ := hone hp
      exact (returns_onSendClientRequest hm₁ hp₁ hc hr hs bytes c).performs rfl
    · obtain ⟨hp₁, rfl⟩ := hone hp
      refine (returns_onReadRemoteResponse hm₁ hp₁ hc hr hs c).imp id fun _ h ↦ ?_
      obtain ⟨hcontrol, notes, happlied⟩ := h
      exact ⟨hcontrol, notes, trivial, happlied⟩
    · obtain ⟨hp₁, rfl⟩ := hone hp
      exact (returns_onSendRemoteResponse hm₁ hp₁ _ c).performs rfl
    · obtain ⟨hp₁, rfl⟩ := hone hp
      exact (returns_onConnectReply hm₁ hp₁ hc hs ec hr _ c).performs rfl
    · have hmem : op = a ∨ op = b := by simpa using hp.subset hl
      rcases hmem with rfl | rfl
      · exact absurd (hd.symm.trans ha) (by simp)
      · exact absurd (hd.symm.trans hb) (by simp)
    · exact absurd hd (hdirection op hl)

/-- The machine after `begin`. -/
def begun : Machine :=
  { pending := [.readClientRequest], trace := [.signal .transactionStart .none {}] }

theorem init_iff : system.init m ↔ m = begun := by
  have hbegin : begin {} = .ok begun := rfl
  show begin {} = .ok m ↔ _
  rw [hbegin, Except.ok.injEq, eq_comm]

theorem control_begun : Control begun := ⟨rfl, .reading rfl rfl (by decide)⟩

/-- **Progress**: unless the parser aborts, a pending operation can complete. -/
theorem Control.exists_step {l : Label} (h : Control m) (hl : l.operation ∈ m.pending)
    (haborts : ¬ Aborts m l) : ∃ m', system.step m l m' := by
  obtain ⟨m', hm'⟩ := (returns_complete h hl).exists_ok haborts
  exact ⟨m', hl, hm'⟩

theorem Control.performs {l : Label} (h : Control m) (hstep : system.step m l m') :
    Performs l (m.without l.operation) m' :=
  (returns_complete h hstep.1).of_ok hstep.2

/-- What a step does, by its effect. -/
theorem Control.applied {l : Label} {e : Effect} (h : Control m) (hstep : system.step m l m')
    (he : effectOf m l = e) :
    ∃ notes, IsNoted m l notes ∧ Applied e notes (contentOf m l) (m.without l.operation) m' :=
  he ▸ (h.performs hstep).applied

/-- **What a step records**, by its effect: the end of the transaction, and notes. -/
theorem Control.exists_new {l : Label} {e : Effect} (h : Control m) (hstep : system.step m l m')
    (he : effectOf m l = e) :
    ∃ new notes, m'.trace = m.trace ++ new ∧ IsNoted m l notes ∧
      new.filter Event.isTerminal = e.ends m.tx ∧ new.filter Event.isNote = notes := by
  obtain ⟨notes, hnoted, happlied⟩ := h.applied hstep he
  obtain ⟨new, htrace, hends, hnotes⟩ := happlied.records
  exact ⟨new, notes, htrace, hnoted, hends, hnotes⟩

/-- **Every reachable state is under control.** -/
theorem control_of_run {h : List (LabelledSystem.Move Machine Label)} (hrun : system.Run h m) :
    Control m :=
  hrun.invariant (fun _ hs ↦ init_iff.1 hs ▸ control_begun)
    fun _ _ _ hcontrol hstep ↦ (hcontrol.performs hstep).control

/-- What is pending after a step outside the tunnel. -/
theorem Control.pending {l : Label} (h : Control m) (hstep : system.step m l m')
    (hd : l.operation.direction = none) : m'.pending = (effectOf m l).operations := by
  obtain ⟨notes, -, happlied⟩ := h.applied hstep rfl
  have hpending : m'.pending = (m.without l.operation).pending ++ (effectOf m l).operations :=
    happlied.pending
  have hp := (h.stage.expected hstep.1 hd).1
  rw [hpending, (without_of_pending hp hstep.1).1, List.nil_append]

/-- A step inside the tunnel stays inside. -/
theorem Control.direction {l : Label} (h : Control m) (hstep : system.step m l m')
    (hd : l.operation.direction ≠ none) {op : Operation} (hop : op ∈ m'.pending) :
    op.direction ≠ none := by
  obtain ⟨notes, -, happlied⟩ := h.applied hstep rfl
  rw [happlied.pending] at hop
  rcases List.mem_append.1 hop with hold | hnew
  · intro hnone
    have hmem : op ∈ m.pending := List.mem_of_mem_erase hold
    have hp := (h.stage.expected hmem hnone).1
    have hsame : l.operation = op := List.mem_singleton.1 (hp ▸ hstep.1)
    exact hd (hsame ▸ hnone)
  · obtain ⟨o, c⟩ := l
    cases o <;> first
      | exact absurd rfl hd
      | grind [effectOf, Effect.operations, Operation.direction]

/-! ### The mutex -/

/-- A failure under the lock locks again. -/
theorem notifyFailure_of_locked (hm : m.tx.mutex = true) (ec : ErrorCode) :
    notifyFailure ec m = .error .deadlock := by
  rw [notifyFailure, releaseConnections, lockGuard, if_pos hm]
  rfl

/-- A guarded body that fails when a connection is missing, and starts an operation otherwise. -/
theorem lockGuard_eq_deadlock_iff {missing : Machine → Prop} [DecidablePred missing]
    {ec : ErrorCode} {op : Machine → Operation} (hm : m.tx.mutex = false)
    (hsame : missing { m with tx.mutex := true } ↔ missing m) :
    lockGuard m (fun m ↦ if missing m then notifyFailure ec m else .ok (m.start (op m))) =
        .error .deadlock ↔ missing m := by
  rw [lockGuard, hm, if_neg Bool.false_ne_true]
  by_cases hmissing : missing m
  · rw [if_pos (hsame.2 hmissing), notifyFailure_of_locked rfl]
    exact iff_of_true rfl hmissing
  · rw [if_neg fun h ↦ hmissing (hsame.1 h)]
    exact iff_of_false (by simp [bind, Except.bind, pure, Except.pure]) hmissing

/-- **The functions that fail under the lock**, and the connections whose absence makes them. -/
structure GuardsDeadlock (m : Machine) : Prop where
  readClientRequest : readClientRequest m = .error .deadlock ↔ m.tx.client = none
  sendClientRequestToRemote : sendClientRequestToRemote m = .error .deadlock ↔
    m.tx.client = none ∨ m.tx.remote = none
  readRemoteResponse : readRemoteResponse m = .error .deadlock ↔
    m.tx.client = none ∨ m.tx.remote = none
  sendRemoteResponseToClient : sendRemoteResponseToClient m = .error .deadlock ↔
    m.tx.client = none
  connectReply : ∀ conn ec, onOpened .tunnel conn ec m = .error .deadlock ↔ m.tx.client = none

theorem guardsDeadlock (hm : m.tx.mutex = false) : GuardsDeadlock m where
  readClientRequest := lockGuard_eq_deadlock_iff hm Iff.rfl
  sendClientRequestToRemote := lockGuard_eq_deadlock_iff hm Iff.rfl
  readRemoteResponse := lockGuard_eq_deadlock_iff hm Iff.rfl
  sendRemoteResponseToClient := lockGuard_eq_deadlock_iff hm Iff.rfl
  connectReply conn ec := by
    rw [onOpened]
    dsimp only
    split_ifs
    · exact lockGuard_eq_deadlock_iff (m := { m with tx.remote := conn }) hm Iff.rfl
    · exact lockGuard_eq_deadlock_iff hm Iff.rfl

theorem Returns.ne_deadlock {aborts : Prop} {r : Except Halt Machine} {Q : Machine → Prop}
    (h : Returns aborts r Q) : r ≠ .error .deadlock := by
  rintro rfl
  exact h

/-- **The mutex is never locked twice** by one handler, in any run: the connections that the guards
test are there whenever a guard is reached. -/
theorem never_locks_twice :
    begin {} ≠ .error .deadlock ∧
      (∀ h m l, system.Run h m → l.operation ∈ m.pending → complete m l ≠ .error .deadlock) ∧
      ∀ m : Machine, m.tx.mutex = false → GuardsDeadlock m := by
  refine ⟨?_, fun h m l hrun hl ↦ ?_, fun _ ↦ guardsDeadlock⟩
  · have hbegin : begin {} = .ok begun := rfl
    rw [hbegin]
    exact fun h ↦ nomatch h
  · exact (returns_complete (control_of_run hrun) hl).ne_deadlock

/-! ### Runs by computation -/

/-- The machine after a completion, if the operation is pending and its handler returns. -/
def next (m : Machine) (l : Label) : Option Machine :=
  if l.operation ∈ m.pending then
    match complete m l with
    | .ok m' => some m'
    | .error _ => none
  else none

theorem step_of_next {l : Label} (h : next m l = some m') : system.step m l m' := by
  rw [next] at h
  split_ifs at h with hl
  refine ⟨hl, ?_⟩
  cases hc : complete m l with
  | ok m₁ =>
    rw [hc] at h
    exact congrArg Except.ok (Option.some_inj.1 h)
  | error halt =>
    rw [hc] at h
    cases h

theorem next_of_step {l : Label} (h : system.step m l m') : next m l = some m' := by
  rw [next, if_pos h.1, h.2]

/-- A list of completions whose run passes a test. -/
theorem exists_run_of_follow (labels : List Label)
    (test : List (LabelledSystem.Move Machine Label) → Machine → Prop)
    [∀ h m, Decidable (test h m)]
    (htest : (LabelledSystem.follow next begun labels).any (fun r ↦ test r.1 r.2) = true) :
    ∃ h m, system.Run h m ∧ test h m :=
  LabelledSystem.Run.exists_of_follow (fun _ _ _ ↦ step_of_next) (init_iff.2 rfl) labels test htest

end Transaction

end Amanuensis
