import Amanuensis.Transaction.Control

/-!
# The failures of a transaction

A step fails when its operation ends in an error — save for the end of file that ends a tunnel —,
when the bytes of a message are malformed, or when a tunnel writes fewer bytes than it was given;
`failure` is the code that says so. The effect of a completion is a failure with that code, except
for the reply to `CONNECT`: its handler reports the code of the connect (`failure_of_fail`).

* `carriesError_of_run`: the error of a transaction is the code of what failed, in every run in
  which no reply to a successful `CONNECT` breaks.
* `finalStateTells_of_run`: the final state tells the outcome, in every run in which no direction of
  a tunnel ends while the tunnel is open.
-/

namespace Amanuensis

/-- A read in a tunnel. -/
def Operation.isTunnelRead : Operation → Bool
  | .tunnelRead _ => true
  | _ => false

/-- A reply that refuses a `CONNECT`. -/
def Operation.refuses : Operation → Bool
  | .connectReply ec _ _ => ec.isError
  | _ => false

namespace Transaction

open HttpMessageParser LabelledSystem

variable {m m' : Machine} {l : Label} {h : List (Move Machine Label)}

/-! ### Failures -/

/-- **The failure of a step**: the code of its operation, or that of the check. -/
def failure (m : Machine) (l : Label) : Option ErrorCode :=
  let c := l.completion
  match l.operation with
  | .readClientRequest =>
    if c.ec = .eof then some ProxyError.clientDisconnected.makeErrorCode
    else if c.ec.isError then some c.ec
    else
      let r := scanner.scan m.requestCursor c.data
      match outcomeOf r.verdict with
      | .incomplete => none
      | .valid =>
        if r.state.message.method ≠ QString.ofString "CONNECT" ∧
            r.state.message.headers.findByName (QString.ofString "Host") = [] then
          some ProxyError.malformedRequest.makeErrorCode
        else none
      | _ => some ProxyError.malformedRequest.makeErrorCode
  | .readRemoteResponse =>
    if c.ec = .eof then some ProxyError.remoteDisconnected.makeErrorCode
    else if c.ec.isError then some c.ec
    else
      match outcomeOf (scanner.scan m.responseCursor c.data).verdict with
      | .incomplete | .valid => none
      | _ => some ProxyError.malformedResponse.makeErrorCode
  | .tunnelRead _ => if c.ec ≠ .eof ∧ c.ec.isError then some c.ec else none
  | .tunnelWrite _ bytes =>
    if c.ec.isError then some c.ec
    else if bytes.length ≠ c.written then some ProxyError.networkError.makeErrorCode
    else none
  | .resolve _ | .connect _ | .sendRequest _ | .sendResponse _ | .connectReply _ _ _ =>
    if c.ec.isError then some c.ec else none

theorem isError_of_failure {ec : ErrorCode} (hf : failure m l = some ec) : ec.isError = true := by
  have hproxy := ProxyError.isError_makeErrorCode
  obtain ⟨op, c⟩ := l
  cases op <;> grind [failure]

/-! ### Effects and failures -/

/-- **A step that fails reports its failure**, and the reply to `CONNECT` the code of the
connect. -/
theorem failure_of_fail {ec : ErrorCode} (he : effectOf m l = .fail ec) :
    failure m l = some ec ∨
      ∃ success bytes, l.operation = .connectReply ec success bytes ∧
        (success = true → l.completion.ec.isError = true) := by
  obtain ⟨op, c⟩ := l
  cases op <;> grind [effectOf, failure]

/-- A step that goes on has not failed, unless a `CONNECT` is to be refused. -/
theorem failure_of_proceed {ops : List Operation} (he : effectOf m l = .proceed ops) :
    (failure m l).isSome = ops.any Operation.refuses := by
  obtain ⟨op, c⟩ := l
  cases op <;> grind [effectOf, failure, Operation.refuses]

/-! ### The error of a failed transaction -/

/-- What a move records. -/
def recorded (t : Move Machine Label) : List Event := t.target.trace.drop t.source.trace.length

/-- **The code that belongs to a failure**: the failure of the step, or that of the connect whose
refusal the step has written. -/
def cause (m : Machine) (l : Label) : Option ErrorCode :=
  match l.operation with
  | .connectReply ec _ _ => if ec.isError then some ec else failure m l
  | _ => failure m l

/-- The reply to a `CONNECT` that succeeded cannot be written. -/
def Label.breaksReply (l : Label) : Bool :=
  match l.operation with
  | .connectReply ec _ _ => !ec.isError && l.completion.ec.isError
  | _ => false

/-- **A failed transaction carries its error.** -/
structure CarriesError (h : List (Move Machine Label)) (m : Machine) : Prop where
  state : m.tx.notificationState = .error ↔ m.tx.error.isError = true
  cause : ∀ t ∈ h, ∀ s ec, .signal .transactionFailed s ec ∈ recorded t →
    cause t.source t.label = some ec

theorem cause_of_fail {ec : ErrorCode} (hm : Control m) (hl : l.operation ∈ m.pending)
    (hreply : l.breaksReply = false) (he : effectOf m l = .fail ec) :
    cause m l = some ec ∧ ec.isError = true := by
  obtain ⟨op, c⟩ := l
  rcases failure_of_fail he with hf | ⟨success, bytes, rfl, hsuccess⟩
  · have hec := isError_of_failure hf
    refine ⟨?_, hec⟩
    cases op with
    | connectReply ec' success bytes =>
      have hsame : ec' = ec := by grind [effectOf]
      show (if ec'.isError then some ec' else failure m ⟨.connectReply ec' success bytes, c⟩) = _
      rw [hsame, if_pos hec]
    | _ => exact hf
  · have hsame : success = !ec.isError := (hm.stage.expected hl rfl).2.2
    cases hec : ec.isError with
    | true => exact ⟨if_pos hec, rfl⟩
    | false =>
      -- The connect succeeded, so that it is the reply that has failed.
      rw [hec] at hsame
      have hbroken := hsuccess hsame
      exact absurd hreply (by simp [Label.breaksReply, hec, hbroken])

/-- What a move records ends the transaction as its effect says. -/
theorem recorded_of_step (hm : Control m) (hstep : system.step m l m') :
    (recorded ⟨m, l, m'⟩).filter Event.isTerminal = (effectOf m l).ends m.tx := by
  obtain ⟨new, -, htrace, -, hends, -⟩ := hm.exists_new hstep rfl
  show (m'.trace.drop m.trace.length).filter Event.isTerminal = _
  rw [htrace, List.drop_left, hends]

/-- **The error of a transaction** is that of its failure, unless the reply to a successful
`CONNECT` breaks. -/
theorem carriesError_of_run (hrun : system.Run h m)
    (hreply : ∀ t ∈ h, t.label.breaksReply = false) : CarriesError h m := by
  refine hrun.history_induction (I := CarriesError) ?_ ?_ hreply
  · intro m hm
    obtain rfl := init_iff.1 hm
    exact ⟨by decide, by simp⟩
  · intro h m l m' hrun ih hstep hreply
    have hm := control_of_run hrun
    refine ⟨?_, fun t ht s ec hsignal ↦ ?_⟩
    · cases he : effectOf m l with
      | proceed ops =>
        obtain ⟨notes, -, happlied⟩ := hm.applied hstep he
        have hstate : m'.tx.notificationState = .error ↔ m.tx.notificationState = .error :=
          happlied.state
        have herror : m'.tx.error = m.tx.error := happlied.error
        rw [hstate, herror]
        exact ih.state
      | release | finish =>
        obtain ⟨notes, -, happlied⟩ := hm.applied hstep he
        have hstate : m'.tx.notificationState = m.tx.notificationState := happlied.state
        have herror : m'.tx.error = m.tx.error := happlied.error
        rw [hstate, herror]
        exact ih.state
      | fail ec =>
        obtain ⟨notes, -, happlied⟩ := hm.applied hstep he
        have herror : m'.tx.error = ec := happlied.error
        rw [herror]
        exact iff_of_true happlied.state (cause_of_fail hm hstep.1 hreply he).2
    · rcases List.mem_append.1 ht with ht | ht
      · exact ih.cause t ht s ec hsignal
      · obtain rfl := List.mem_singleton.1 ht
        have hends := recorded_of_step hm hstep
        have hmem : .signal .transactionFailed s ec ∈ (effectOf m l).ends m.tx := by
          rw [← hends]
          exact List.mem_filter.2 ⟨hsignal, rfl⟩
        cases he : effectOf m l with
        | proceed | release => exact absurd (he ▸ hmem) List.not_mem_nil
        | finish => exact absurd (he ▸ hmem) (by simp [Effect.ends])
        | fail ec' =>
          have hsame : ec = ec' := by
            have hmem' := he ▸ hmem
            simp only [Effect.ends, List.mem_cons, Event.signal.injEq, reduceCtorEq, false_and,
              or_false, List.not_mem_nil] at hmem'
            exact hmem'.2.2
          rw [hsame]
          exact (cause_of_fail hm hstep.1 hreply he).1

/-- A `CONNECT` that reaches its host. -/
def connectLabels : List Label :=
  [⟨.readClientRequest, { data := asciiBytes "CONNECT a:1 HTTP/1.1\r\n\r\n" }⟩,
    ⟨.resolve .tunnel, {}⟩, ⟨.connect .tunnel, {}⟩]

/-- The client has gone away when the reply is written: the transaction fails without an error. -/
theorem connectReplyBroken_not_carriesError :
    ∃ h m, system.Run h m ∧ ¬ CarriesError h m := by
  obtain ⟨h, m, hrun, hstate, herror⟩ := exists_run_of_follow
    (connectLabels ++
      [⟨.connectReply {} true (connectReplyText true), { ec := { value := 32 } }⟩])
    (fun _ m ↦ m.tx.notificationState = .error ∧ m.tx.error.isError = false) (by decide +kernel)
  refine ⟨h, m, hrun, fun hcarries ↦ ?_⟩
  exact absurd (hcarries.state.1 hstate) (by rw [herror]; decide)

/-- The host refuses the connection: the error is that of the connect. -/
theorem connectRefused_carriesError :
    ∃ h m, system.Run h m ∧ m.tx.error = { value := 111 } ∧ CarriesError h m := by
  obtain ⟨h, m, hrun, herror, hreply⟩ := exists_run_of_follow
    [⟨.readClientRequest, { data := asciiBytes "CONNECT a:1 HTTP/1.1\r\n\r\n" }⟩,
      ⟨.resolve .tunnel, {}⟩, ⟨.connect .tunnel, { ec := { value := 111 } }⟩,
      ⟨.connectReply { value := 111 } false (connectReplyText false), { written := 59 }⟩]
    (fun h m ↦ m.tx.error = { value := 111 } ∧ ∀ t ∈ h, t.label.breaksReply = false)
    (by decide +kernel)
  exact ⟨h, m, hrun, herror, carriesError_of_run hrun hreply⟩

/-! ### The final state -/

/-- The response has been written to the client. -/
def ResponseWritten (h : List (Move Machine Label)) : Prop :=
  ∃ t ∈ h, ∃ bytes, t.label.operation = .sendResponse bytes ∧
    t.label.completion.ec.isError = false

/-- A step fails. What ends after the connections have been released was aborted, and does not
count. -/
def StepFails (t : Move Machine Label) : Prop :=
  t.source.tx.client ≠ none ∧ (failure t.source t.label).isSome = true

/-- One side of an open tunnel ends its stream. -/
def TunnelEnds (t : Move Machine Label) : Prop :=
  t.source.tx.client ≠ none ∧ t.label.operation.isTunnelRead = true ∧ t.label.completion.ec = .eof

/-- A tunnel has been ended by one side before anything failed. -/
def TunnelEnded (h : List (Move Machine Label)) : Prop :=
  ∃ h₁ t h₂, h = h₁ ++ t :: h₂ ∧ (∀ t' ∈ h₁, ¬ StepFails t') ∧ TunnelEnds t

/-- **The final state tells the outcome.** -/
structure FinalStateTells (h : List (Move Machine Label)) (m : Machine) : Prop where
  responseComplete : m.tx.notificationState = .responseComplete ↔ ResponseWritten h
  tlsTunnel : m.tx.notificationState = .tlsTunnel ↔ TunnelEnded h
  error : m.tx.notificationState = .error ↔ ∃ t ∈ h, StepFails t

/-- A read of an open tunnel that brings no bytes. -/
def EndsRead (t : Move Machine Label) : Prop :=
  t.source.tx.client ≠ none ∧ t.label.operation.isTunnelRead = true ∧
    (t.label.completion.ec = .eof ∨ t.label.completion.data.length = 0)

instance : DecidablePred StepFails := fun _ ↦ inferInstanceAs (Decidable (_ ∧ _))

instance : DecidablePred TunnelEnds := fun _ ↦ inferInstanceAs (Decidable (_ ∧ _))

instance : DecidablePred EndsRead := fun _ ↦ inferInstanceAs (Decidable (_ ∧ _))

/-- How far a transaction has come. -/
inductive Progress (h : List (Move Machine Label)) (m : Machine) : Prop
  | running (hclient : m.tx.client ≠ none) (hstate : m.tx.notificationState ≠ .error)
      (hwritten : ¬ ResponseWritten h)
      (hfails : (∃ t ∈ h, StepFails t) ↔ m.pending.any Operation.refuses = true)
  | failed (hclient : m.tx.client = none) (hstate : m.tx.notificationState = .error)
      (hwritten : ¬ ResponseWritten h) (hfails : ∃ t ∈ h, StepFails t)
  | written (hclient : m.tx.client = none) (hpending : m.pending = [])
      (hstate : m.tx.notificationState = .responseComplete) (hwritten : ResponseWritten h)
      (hfails : ¬ ∃ t ∈ h, StepFails t)

theorem responseWritten_append {t : Move Machine Label} :
    ResponseWritten (h ++ [t]) ↔ ResponseWritten h ∨
      ∃ bytes, t.label.operation = .sendResponse bytes ∧ t.label.completion.ec.isError = false := by
  simp [ResponseWritten, or_and_right, exists_or]

theorem exists_stepFails_append {t : Move Machine Label} :
    (∃ t' ∈ h ++ [t], StepFails t') ↔ (∃ t' ∈ h, StepFails t') ∨ StepFails t := by
  simp [or_and_right, exists_or]

/-- A completed operation is written out of the pending ones. -/
theorem any_pending (p : Operation → Bool) (hl : l.operation ∈ m.pending) :
    m.pending.any p = (p l.operation || (m.without l.operation).pending.any p) :=
  (List.perm_cons_erase hl).any_eq

/-- The response is written by a step only if the step finishes the transaction. -/
theorem not_writes_of_effectOf_ne {e : Effect} (he : effectOf m l = e) (hne : e ≠ .finish) :
    ¬ ∃ bytes, l.operation = .sendResponse bytes ∧ l.completion.ec.isError = false := by
  rintro ⟨bytes, hop, hok⟩
  refine hne (he.symm.trans ?_)
  rw [effectOf, hop]
  exact if_neg (by simp [hok])

theorem not_refuses_of_proceed {ops : List Operation} (hm : Control m)
    (hl : l.operation ∈ m.pending) (he : effectOf m l = .proceed ops) :
    l.operation.refuses = false := by
  obtain ⟨op, c⟩ := l
  cases op with
  | connectReply ec success bytes =>
    have hsuccess : success = !ec.isError := (hm.stage.expected hl rfl).2.2
    cases hec : ec.isError with
    | false => exact hec
    | true => exact absurd he (by simp [effectOf, hsuccess, hec])
  | _ => rfl

/-- A transaction fails after a refusal, or in a step that fails. -/
theorem refuses_or_isSome_of_fail {ec : ErrorCode} (hm : Control m)
    (hl : l.operation ∈ m.pending) (he : effectOf m l = .fail ec) :
    m.pending.any Operation.refuses = true ∨ (failure m l).isSome = true := by
  obtain ⟨op, c⟩ := l
  rcases failure_of_fail he with hf | ⟨success, bytes, rfl, hsuccess⟩
  · exact Or.inr (by rw [hf]; rfl)
  · obtain ⟨hp, -, hexpected⟩ := hm.stage.expected hl rfl
    have hsame : success = !ec.isError := hexpected
    cases hec : ec.isError with
    | true => exact Or.inl (by rw [hp]; simp [Operation.refuses, hec])
    | false =>
      have hbroken : c.ec.isError = true := hsuccess (by rw [hsame, hec]; rfl)
      exact Or.inr (by simp [failure, hbroken])

/-- **One step of progress.** -/
theorem Progress.step (hm : Control m) (hprogress : Progress h m) (hstep : system.step m l m')
    (hread : ¬ EndsRead ⟨m, l, m'⟩) : Progress (h ++ [⟨m, l, m'⟩]) m' := by
  rcases hprogress with ⟨hclient, hstate, hwritten, hfails⟩ | ⟨hclient, hstate, hwritten, hfails⟩ |
    ⟨-, hpending, -, -, -⟩
  · have hstepFails : StepFails ⟨m, l, m'⟩ ↔ (failure m l).isSome = true :=
      and_iff_right hclient
    cases he : effectOf m l with
    | proceed ops =>
      obtain ⟨notes, -, happlied⟩ := hm.applied hstep he
      have hclient' : m'.tx.client = m.tx.client := happlied.client
      have hstate' : m'.tx.notificationState = .error ↔ m.tx.notificationState = .error :=
        happlied.state
      have hpending' : m'.pending = (m.without l.operation).pending ++ ops := happlied.pending
      -- What goes on is not the reply that refuses a `CONNECT`.
      have hop := not_refuses_of_proceed hm hstep.1 he
      refine .running (by rwa [hclient']) (by rwa [Ne, hstate']) ?_ ?_
      · rw [responseWritten_append]
        exact not_or.2 ⟨hwritten, not_writes_of_effectOf_ne he (by simp)⟩
      · rw [exists_stepFails_append, hfails, hstepFails, failure_of_proceed he, hpending',
          List.any_append, any_pending _ hstep.1, hop, Bool.false_or, Bool.or_eq_true]
    | release =>
      obtain ⟨d, hop, hend⟩ := effectOf_eq_release he
      exact absurd ⟨hclient, by rw [hop]; rfl, hend⟩ hread
    | finish =>
      obtain ⟨notes, -, happlied⟩ := hm.applied hstep he
      obtain ⟨bytes, hop, hok⟩ := effectOf_eq_finish he
      obtain ⟨hp, -, hexpected⟩ := hm.stage.expected hstep.1 (by rw [hop]; rfl)
      rw [hop] at hexpected
      have hpending' : m'.pending = (m.without l.operation).pending ++ [] := happlied.pending
      have hstate' : m'.tx.notificationState = m.tx.notificationState := happlied.state
      refine .written happlied.client ?_ (hstate'.trans hexpected.2) ?_ ?_
      · rw [hpending', (without_of_pending hp hstep.1).1, List.append_nil]
      · exact responseWritten_append.2 (Or.inr ⟨bytes, hop, hok⟩)
      · rw [exists_stepFails_append, hfails, hstepFails, hp, hop, failure, hop]
        simp [Operation.refuses, hok]
    | fail ec =>
      obtain ⟨notes, -, happlied⟩ := hm.applied hstep he
      refine .failed happlied.client happlied.state ?_ ?_
      · rw [responseWritten_append]
        exact not_or.2 ⟨hwritten, not_writes_of_effectOf_ne he (by simp)⟩
      · rw [exists_stepFails_append, hfails, hstepFails]
        exact refuses_or_isSome_of_fail hm hstep.1 he
  · -- The connections have been released: what is pending belongs to a tunnel.
    have hdirection : l.operation.direction ≠ none := fun hd ↦
      absurd (hclient.symm.trans (hm.stage.expected hstep.1 hd).2.1) (by simp)
    refine .failed ?_ ?_ ?_ (exists_stepFails_append.2 (Or.inl hfails))
    · cases he : effectOf m l with
      | proceed ops =>
        obtain ⟨notes, -, happlied⟩ := hm.applied hstep he
        exact happlied.client.trans hclient
      | release | finish | fail =>
        obtain ⟨notes, -, happlied⟩ := hm.applied hstep he
        exact happlied.client
    · cases he : effectOf m l with
      | proceed ops =>
        obtain ⟨notes, -, happlied⟩ := hm.applied hstep he
        exact happlied.state.2 hstate
      | release | finish =>
        obtain ⟨notes, -, happlied⟩ := hm.applied hstep he
        exact happlied.state.trans hstate
      | fail =>
        obtain ⟨notes, -, happlied⟩ := hm.applied hstep he
        exact happlied.state
    · rw [responseWritten_append]
      rintro (hold | ⟨bytes, hop, -⟩)
      · exact hwritten hold
      · exact hdirection (by rw [hop]; rfl)
  · exact absurd (hpending ▸ hstep.1) List.not_mem_nil

theorem progress_of_run (hrun : system.Run h m) (hread : ∀ t ∈ h, ¬ EndsRead t) :
    Progress h m := by
  refine hrun.history_induction (I := Progress) ?_ ?_ hread
  · intro m hm
    obtain rfl := init_iff.1 hm
    exact .running (by decide) (by decide) (by simp [ResponseWritten])
      (by simp [begun, Operation.refuses])
  · intro h m l m' hrun ih hstep hread
    exact ih.step (control_of_run hrun) hstep hread

/-- **The final state of a transaction tells its outcome**, unless an open tunnel is read to the
end. -/
theorem finalStateTells_of_run (hrun : system.Run h m) (hread : ∀ t ∈ h, ¬ EndsRead t)
    (hpending : m.pending = []) : FinalStateTells h m := by
  have hclient := (control_of_run hrun).stage.client_of_pending_nil hpending
  have hended : ¬ TunnelEnded h := by
    rintro ⟨h₁, t, h₂, rfl, -, hopen, htunnel, heof⟩
    exact hread t (by simp) ⟨hopen, htunnel, Or.inl heof⟩
  rcases progress_of_run hrun hread with ⟨hopen, -, -, -⟩ | ⟨-, hstate, hwritten, hfails⟩ |
    ⟨-, -, hstate, hwritten, hfails⟩
  · exact absurd hclient hopen
  · exact
      { responseComplete := iff_of_false (by rw [hstate]; decide) hwritten
        tlsTunnel := iff_of_false (by rw [hstate]; decide) hended
        error := iff_of_true hstate hfails }
  · exact
      { responseComplete := iff_of_true hstate hwritten
        tlsTunnel := iff_of_false (by rw [hstate]; decide) hended
        error := iff_of_false (by rw [hstate]; decide) hfails }

/-- The client ends an open tunnel: the state never becomes `TLSTunnel`. -/
theorem tunnelEof_not_finalStateTells :
    ∃ h m, system.Run h m ∧ m.pending = [] ∧ ¬ FinalStateTells h m := by
  obtain ⟨h, m, hrun, hpending, hstate, hbefore, t, ht, hends⟩ := exists_run_of_follow
    (connectLabels ++
      [⟨.connectReply {} true (connectReplyText true), { written := 50 }⟩,
        ⟨.tunnelRead .clientToRemote, { ec := .eof }⟩,
        ⟨.tunnelRead .remoteToClient, { ec := { value := 125 } }⟩])
    (fun h m ↦ m.pending = [] ∧ m.tx.notificationState ≠ .tlsTunnel ∧
      (∀ t ∈ h.take 4, ¬ StepFails t) ∧ ∃ t ∈ (h.drop 4).head?, TunnelEnds t) (by decide +kernel)
  refine ⟨h, m, hrun, hpending, fun htells ↦ hstate (htells.tlsTunnel.2 ?_)⟩
  obtain ⟨h₂, hdrop⟩ := List.head?_eq_some_iff.1 ht
  exact ⟨h.take 4, t, h₂, by rw [← hdrop, List.take_append_drop], hbefore, hends⟩

/-- A request and its response. -/
def requestLabels : List Label :=
  [⟨.readClientRequest, { data := asciiBytes "GET / HTTP/1.1\r\nHost: a\r\n\r\n" }⟩,
    ⟨.resolve .request, {}⟩, ⟨.connect .request, {}⟩,
    ⟨.sendRequest (asciiBytes "GET / HTTP/1.1\r\nHost: a\r\n\r\n"), { written := 27 }⟩]

/-- The response is relayed. -/
theorem responseRelayed_finalStateTells :
    ∃ h m, system.Run h m ∧ m.tx.notificationState = .responseComplete ∧ FinalStateTells h m := by
  obtain ⟨h, m, hrun, hpending, hstate, hread⟩ := exists_run_of_follow
    (requestLabels ++
      [⟨.readRemoteResponse, { data := asciiBytes "HTTP/1.1 204 No Content\r\n\r\n" }⟩,
        ⟨.sendResponse (asciiBytes "HTTP/1.1 204 No Content\r\n\r\n"), { written := 27 }⟩])
    (fun h m ↦ m.pending = [] ∧ m.tx.notificationState = .responseComplete ∧
      ∀ t ∈ h, ¬ EndsRead t) (by decide +kernel)
  exact ⟨h, m, hrun, hstate, finalStateTells_of_run hrun hread hpending⟩

end Transaction

end Amanuensis
