import Mathlib.Logic.Function.Basic
import Amanuensis.Foundation.Runs
import Amanuensis.Trusty.AuthorizedService

/-!
# The helper

`XpcServer` accepts connections and handles their messages. Connections arrive one after another and
are numbered; one that is accepted gets an id, in a record that is its context until it is
finalised. A message is delivered to a connection that has been activated and not yet finalised.

An event may be any of these (`XpcServer.system`), with any outcome of the calls of the system:
which of these calls are made depends on the release of macOS.
-/

namespace Amanuensis

namespace Trusty

/-- The releases of macOS that the code tells apart. -/
inductive MacOS
  | earlier
  | macOS11
  /-- macOS 12 or later. -/
  | macOS12
  deriving DecidableEq, Repr

/-- What an event handler is called with. -/
inductive XpcEvent
  /-- `XPC_ERROR_PEER_CODE_SIGNING_REQUIREMENT`. -/
  | peerCodeSigningRequirement
  /-- `XPC_ERROR_CONNECTION_INVALID`, `XPC_ERROR_TERMINATION_IMMINENT` or another error. -/
  | error
  | message (object : XpcObject)

/-- The members of the server, and what the system keeps of its connections. -/
structure XpcServer where
  nextId : UInt64 := 1
  connections : UInt64 → Option AuthorizedService := fun _ ↦ none
  /-- The ids in the contexts of the connections that have been activated. -/
  contexts : ℕ → Option UInt64 := fun _ ↦ none
  /-- How many connections have arrived. -/
  arrived : ℕ := 0
  /-- How many authorizations have been created. -/
  authorizations : ℕ := 0
  trace : List Event := []

namespace XpcServer

variable {os : MacOS} {s s' : XpcServer}

/-- Note what has happened. -/
def record (events : List Event) (s : XpcServer) : XpcServer :=
  { s with trace := s.trace ++ events }

theorem record_record (xs ys : List Event) : (s.record xs).record ys = s.record (xs ++ ys) :=
  congrArg (fun trace ↦ { s with trace := trace }) (List.append_assoc s.trace xs ys)

/-! ### Signatures -/

/-- What is recorded if the signature is valid is given. -/
def validateXpcMessageOrConnection (os : MacOS) (valid : Event) (v : Validation) :
    List Event × Bool :=
  match os with
  | .macOS12 => ([], true)
  | .earlier | .macOS11 =>
    if v.createCode ≠ 0 then ([], false)
    else if v.createRequirement ≠ 0 then ([], false)
    else if v.checkValidity ≠ 0 then ([], false)
    else ([valid], true)

/-- `setRequirement` is what `xpc_connection_set_peer_code_signing_requirement` returns: zero if the
requirement has been installed. -/
def isClientSignatureValid (os : MacOS) (c : ℕ) (setRequirement : ℤ) (v : Validation) :
    List Event × Bool :=
  match os with
  | .macOS12 => (if setRequirement = 0 then [.requirementSet c] else [], setRequirement ≠ 0)
  | .macOS11 => ([], true)
  | .earlier => validateXpcMessageOrConnection os (.connectionValidated c) v

/-- `isMessageSignatureValid`, with the checks that it makes. -/
def isMessageSignatureValid (os : MacOS) (c : ℕ) (v : Validation) : List Event × Bool :=
  match os with
  | .earlier => ([], true)
  | .macOS11 | .macOS12 => validateXpcMessageOrConnection os (.messageValidated c) v

/-! ### Connections -/

/-- `handleIncomingConnection`: the connection is numbered, and activated if it is valid. -/
def handleIncomingConnection (os : MacOS) (setRequirement : ℤ) (v : Validation) (s : XpcServer) :
    XpcServer :=
  let c := s.arrived
  let s := { s with arrived := c + 1 }
  let (events, valid) := isClientSignatureValid os c setRequirement v
  if ¬ valid then s.record (events ++ [.dropped c])
  else
    XpcServer.record (events ++ [.activated c])
      { s with
        nextId := s.nextId + 1
        contexts := Function.update s.contexts c (some s.nextId) }

/-- The finaliser of a connection. -/
def cleanUpConnection (c : ℕ) (s : XpcServer) : XpcServer :=
  match s.contexts c with
  | none => s
  | some connectionId =>
    { s with
      connections := Function.update s.connections connectionId none
      contexts := Function.update s.contexts c none }

/-! ### Messages -/

/-- The low byte of a message type, which is appended to a text as a character. -/
def lowByte (value : Int64) : UInt8 := value.toInt8.toUInt8

/-- `handleOne`: what a message asks for is done by the service of its connection. -/
def handleOne (c : ℕ) (svc : AuthorizedService) (message : Message) (calls : Calls) :
    Attempt Message :=
  match message.type with
  | .hello => .throw "Hello message should have been handled elsewhere"
  | .getToolVersion => do
    let toolVersion ← svc.getCurrentVersion c calls
    return { type := message.type, payload := .uint64 toolVersion.toUInt64 }
  | .getProxyState => do
    let proxyState ← svc.getHttpProxyState c calls
    return { type := message.type, payload := proxyState.toXpc }
  | .setProxyState => do
    let updatedSettings ← Attempt.ofExcept (ProxyState.ofXpc message.payload)
    svc.setHttpProxyState c updatedSettings calls
    return { type := message.type, payload := .null }
  | .clearProxySettings => do
    svc.resetProxySettings c calls
    return { type := message.type, payload := .null }
  | .ack | .error | .disconnect | .other _ =>
    -- `std::string += std::int64_t` appends one character
    let description :=
      StdString.ofString "Unexpected MessageType: " ++ [lowByte message.type.toInt64]
    return { type := .error, payload := .string description.cStr }

/-- The bytes of an XPC data object. -/
def dataBytes : XpcObject → List UInt8
  | .data bytes => bytes
  | _ => []

/-- The `try` block of `handleIncomingMessage`. -/
def answer (c : ℕ) (connectionId : UInt64) (clientMessage : Message) (calls : Calls)
    (s : XpcServer) : XpcServer × Except String Message :=
  match s.connections connectionId with
  | some svc =>
    let (events, reply) := handleOne c svc clientMessage calls
    (s.record (.dispatched c :: events), reply)
  | none =>
    if clientMessage.type = .hello then
      match AuthorizedService.create (dataBytes clientMessage.payload) calls s.authorizations with
      | .error message => (s, .error message)
      | .ok svc =>
        (XpcServer.record [.accepted c svc.auth]
          { s with
            authorizations := s.authorizations + 1
            connections := Function.update s.connections connectionId (some svc) },
          .ok { type := .hello, payload := .null })
    else
      (s, .ok
        { type := .error
          payload := .string (StdString.ofString "Internal error - connection not found") })

/-- The reply to an exception. -/
def errorMessage (what : String) : Message :=
  { type := .error, payload := .string (StdString.ofString what).cStr }

/-- The last two calls of `handleIncomingMessage`: `wrap`, which writes to the reply that has been
created, and the sending of it. -/
def sendReply (c : ℕ) (calls : Calls) (replyMessage : Message) : Event :=
  if calls.createsReply then .replied c replyMessage else .crashed c

/-- `none` if an exception leaves the handler. -/
def handleIncomingMessage (os : MacOS) (c : ℕ) (event : XpcEvent) (calls : Calls) (s : XpcServer) :
    Option XpcServer :=
  match event with
  | .peerCodeSigningRequirement => if os = .macOS12 then some (s.record [.cancelled c]) else some s
  | .error => some s
  | .message object =>
    let (events, valid) := isMessageSignatureValid os c calls.validation
    if ¬ valid then some (s.record [.cancelled c])
    else
      match Message.unwrap object with
      | none => some (s.record events)
      | some clientMessage =>
        match s.contexts c with
        -- `getConnectionId` throws outside the `try` block
        | none => none
        | some connectionId =>
          let (s, reply) := answer c connectionId clientMessage calls (s.record events)
          match reply with
          | .ok replyMessage => some (s.record [sendReply c calls replyMessage])
          | .error what => some (s.record [sendReply c calls (errorMessage what)])

/-! ### The system -/

/-- What may happen next. -/
inductive Label
  | arrive (setRequirement : ℤ) (v : Validation)
  | finalise (c : ℕ)
  | message (c : ℕ) (event : XpcEvent) (calls : Calls)

/-- The handler of an event. -/
def handle (os : MacOS) : Label → XpcServer → Option XpcServer
  | .arrive setRequirement v, s => some (handleIncomingConnection os setRequirement v s)
  | .finalise c, s => some (cleanUpConnection c s)
  | .message c event calls, s => handleIncomingMessage os c event calls s

/-- The connection an event is for, if it is for one. -/
def Label.connection : Label → Option ℕ
  | arrive _ _ => none
  | finalise c => some c
  | message c _ _ => some c

/-- What a message asks for is answered: `xpc_dictionary_create_reply` has a reply to create. -/
def Label.ExpectsReply : Label → Prop
  | message _ _ calls => calls.createsReply = true
  | arrive _ _ | finalise _ => True

/-- **The server**, on one release of macOS. A run that goes on after a crash is more than the
process can do. -/
def system (os : MacOS) : LabelledSystem XpcServer Label where
  init s := s = {}
  step s l s' := (∀ c ∈ l.connection, s.contexts c ≠ none) ∧ handle os l s = some s'

/-! ### What an event does -/

@[simp]
theorem isMessageSignatureValid_macOS12 (c : ℕ) (v : Validation) :
    isMessageSignatureValid .macOS12 c v = ([], true) :=
  rfl

@[simp]
theorem isMessageSignatureValid_earlier (c : ℕ) (v : Validation) :
    isMessageSignatureValid .earlier c v = ([], true) :=
  rfl

/-- A validation records what it is for, and only if the signature is valid. -/
theorem events_of_validate (hos : os ≠ .macOS12) (valid : Event) (v : Validation) :
    (validateXpcMessageOrConnection os valid v).1 =
      if (validateXpcMessageOrConnection os valid v).2 then [valid] else [] := by
  cases os with
  | macOS12 => exact absurd rfl hos
  | earlier | macOS11 =>
    simp only [validateXpcMessageOrConnection]
    split
    · rfl
    · split
      · rfl
      · split <;> rfl

/-- A message is only validated on macOS 11. -/
theorem eq_of_mem_isMessageSignatureValid {c : ℕ} {v : Validation} {e : Event}
    (he : e ∈ (isMessageSignatureValid os c v).1) : os = .macOS11 ∧ e = .messageValidated c := by
  cases os with
  | earlier | macOS12 => exact absurd he List.not_mem_nil
  | macOS11 =>
    rw [isMessageSignatureValid, events_of_validate (by decide)] at he
    split at he
    · exact ⟨rfl, List.mem_singleton.1 he⟩
    · exact absurd he List.not_mem_nil

/-- A connection is given the requirement on macOS 12, and is validated before macOS 11. -/
theorem eq_of_mem_isClientSignatureValid {c : ℕ} {r : ℤ} {v : Validation} {e : Event}
    (he : e ∈ (isClientSignatureValid os c r v).1) :
    os = .macOS12 ∧ r = 0 ∧ e = .requirementSet c ∨ os = .earlier ∧ e = .connectionValidated c := by
  cases os with
  | macOS12 =>
    rw [isClientSignatureValid] at he
    split at he
    next hr => exact .inl ⟨rfl, hr, List.mem_singleton.1 he⟩
    next => exact absurd he List.not_mem_nil
  | macOS11 => exact absurd he List.not_mem_nil
  | earlier =>
    rw [isClientSignatureValid, events_of_validate (by decide)] at he
    split at he
    · exact .inr ⟨rfl, List.mem_singleton.1 he⟩
    · exact absurd he List.not_mem_nil

@[simp]
theorem eq_sendReply_iff {e : Event} {c : ℕ} {calls : Calls} {reply : Message} :
    e = sendReply c calls reply ↔ calls.createsReply = true ∧ e = .replied c reply ∨
      calls.createsReply = false ∧ e = .crashed c := by
  cases hcreates : calls.createsReply <;> simp [sendReply, hcreates]

/-- A message to a connection with a service calls one operation with its right, or none. -/
theorem events_of_handleOne (c : ℕ) (svc : AuthorizedService) (m : Message) (calls : Calls) :
    (handleOne c svc m calls).1 = [] ∨
      ∃ operation, (handleOne c svc m calls).1 = svc.authorized c operation := by
  rw [handleOne]
  cases m.type with
  | hello | ack | error | disconnect | other _ => exact .inl rfl
  | getToolVersion => exact svc.events_of_assertRight c .getCurrentVersion calls _ _ rfl
  | getProxyState => exact svc.events_of_assertRight c .getHttpProxyState calls _ _ rfl
  | clearProxySettings => exact svc.events_of_assertRight c .resetProxySettings calls _ _ rfl
  | setProxyState =>
    cases ProxyState.ofXpc m.payload with
    | error what => exact .inl rfl
    | ok state => exact svc.events_of_assertRight c (.setHttpProxyState state) calls _ _ rfl

/-- A message to a service records no more than a right and a call. -/
theorem eq_of_mem_handleOne {c : ℕ} {svc : AuthorizedService} {m : Message} {calls : Calls}
    {e : Event} (he : e ∈ (handleOne c svc m calls).1) :
    ∃ operation, e = .granted svc.auth operation.rightName ∨ e = .invoked c operation := by
  obtain hnil | ⟨operation, hevents⟩ := events_of_handleOne c svc m calls
  · exact absurd (hnil ▸ he) List.not_mem_nil
  · rw [hevents, AuthorizedService.authorized] at he
    exact ⟨operation, by simpa using he⟩

/-- A message that a connection with an id brings, and whose signature is not found invalid. -/
structure Received (os : MacOS) (s : XpcServer) (c : ℕ) (object : XpcObject) (calls : Calls)
    (m : Message) (id : UInt64) : Prop where
  valid : (isMessageSignatureValid os c calls.validation).2 = true
  unwrap : Message.unwrap object = some m
  context : s.contexts c = some id

/-- **What the `try` block does**: the events it records, the state after it, and the message or the
exception that it ends in. -/
inductive Answers (s : XpcServer) (c : ℕ) (id : UInt64) (m : Message) (calls : Calls) :
    List Event → XpcServer → Except String Message → Prop
  | dispatched (svc : AuthorizedService) (hsvc : s.connections id = some svc) :
    Answers s c id m calls (.dispatched c :: (handleOne c svc m calls).1) s
      (handleOne c svc m calls).2
  | accepted (hnone : s.connections id = none) (htype : m.type = .hello) (svc : AuthorizedService)
    (hsvc : AuthorizedService.create (dataBytes m.payload) calls s.authorizations = .ok svc) :
    Answers s c id m calls [.accepted c svc.auth]
      { s with
        authorizations := s.authorizations + 1
        connections := Function.update s.connections id (some svc) }
      (.ok { type := .hello, payload := .null })
  | rejected (hnone : s.connections id = none) (htype : m.type = .hello) (what : String)
    (hwhat : AuthorizedService.create (dataBytes m.payload) calls s.authorizations = .error what) :
    Answers s c id m calls [] s (.error what)
  | notFound (hnone : s.connections id = none) (htype : m.type ≠ .hello) :
    Answers s c id m calls [] s
      (.ok
        { type := .error
          payload := .string (StdString.ofString "Internal error - connection not found") })

/-- The `try` block does one of these. -/
theorem exists_answers (s : XpcServer) (c : ℕ) (id : UInt64) (m : Message) (calls : Calls) :
    ∃ events s₁ result, Answers s c id m calls events s₁ result := by
  cases hsvc : s.connections id with
  | some svc => exact ⟨_, _, _, .dispatched svc hsvc⟩
  | none =>
    by_cases htype : m.type = .hello
    · cases hcreate : AuthorizedService.create (dataBytes m.payload) calls s.authorizations with
      | error what => exact ⟨_, _, _, .rejected hsvc htype what hcreate⟩
      | ok svc => exact ⟨_, _, _, .accepted hsvc htype svc hcreate⟩
    · exact ⟨_, _, _, .notFound hsvc htype⟩

/-- It does so whatever has been recorded before. -/
theorem Answers.answer_record {c : ℕ} {id : UInt64} {m : Message} {calls : Calls}
    {events : List Event} {s₁ : XpcServer} {result : Except String Message}
    (hanswers : Answers s c id m calls events s₁ result) (before : List Event) :
    answer c id m calls (s.record before) = (s₁.record (before ++ events), result) := by
  cases hanswers with
  | dispatched svc hsvc =>
    rw [← record_record, answer, show (s.record before).connections id = some svc from hsvc]
    rfl
  | accepted hnone htype svc hcreate => simp [answer, record, hnone, htype, hcreate]
  | rejected hnone htype what hwhat => simp [answer, record, hnone, htype, hwhat]
  | notFound hnone htype => simp [answer, record, hnone, htype]

/-- The reply to a message or to an exception. -/
def replyMessage : Except String Message → Message
  | .ok message => message
  | .error what => errorMessage what

/-- A message that is received is answered. -/
theorem exists_answers_of_received {c : ℕ} {object : XpcObject} {calls : Calls} {m : Message}
    {id : UInt64} (hm : Received os s c object calls m id)
    (h : handleIncomingMessage os c (.message object) calls s = some s') :
    ∃ events s₁ result, Answers s c id m calls events s₁ result ∧
      s' = s₁.record ((isMessageSignatureValid os c calls.validation).1 ++ events ++
        [sendReply c calls (replyMessage result)]) := by
  obtain ⟨events, s₁, result, hanswers⟩ := exists_answers s c id m calls
  have heq := hanswers.answer_record (isMessageSignatureValid os c calls.validation).1
  refine ⟨events, s₁, result, hanswers, ?_⟩
  simp only [handleIncomingMessage, hm.valid, hm.unwrap, hm.context, heq, record_record,
    not_true_eq_false, if_false] at h
  cases result with
  | ok message => exact (Option.some.inj h).symm
  | error what => exact (Option.some.inj h).symm

/-- **What an event does**: the events it records, and the state after it. -/
inductive Does (os : MacOS) (s : XpcServer) : Label → List Event → XpcServer → Prop
  | dropped (r : ℤ) (v : Validation) (hv : (isClientSignatureValid os s.arrived r v).2 = false) :
    Does os s (.arrive r v) ((isClientSignatureValid os s.arrived r v).1 ++ [.dropped s.arrived])
      { s with arrived := s.arrived + 1 }
  | activated (r : ℤ) (v : Validation) (hv : (isClientSignatureValid os s.arrived r v).2 = true) :
    Does os s (.arrive r v) ((isClientSignatureValid os s.arrived r v).1 ++ [.activated s.arrived])
      { s with
        arrived := s.arrived + 1
        nextId := s.nextId + 1
        contexts := Function.update s.contexts s.arrived (some s.nextId) }
  | finalised (c : ℕ) (id : UInt64) (hc : s.contexts c = some id) :
    Does os s (.finalise c) []
      { s with
        connections := Function.update s.connections id none
        contexts := Function.update s.contexts c none }
  /-- No service is called, and no connection gets one. -/
  | answered (c : ℕ) (event : XpcEvent) (calls : Calls) (events : List Event)
    (hevents : ∀ e ∈ events, e ∈ (isMessageSignatureValid os c calls.validation).1 ∨
      e = .cancelled c ∨ ∃ reply, e = sendReply c calls reply)
    (hnone : ∀ object m id, event = .message object → Received os s c object calls m id →
      s.connections id = none ∧ (m.type = .hello → ∃ what,
        AuthorizedService.create (dataBytes m.payload) calls s.authorizations = .error what)) :
    Does os s (.message c event calls) events s
  | dispatched (c : ℕ) (object : XpcObject) (calls : Calls) (m : Message) (id : UInt64)
    (hm : Received os s c object calls m id) (svc : AuthorizedService)
    (hsvc : s.connections id = some svc) (reply : Message) :
    Does os s (.message c (.message object) calls)
      ((isMessageSignatureValid os c calls.validation).1 ++
        .dispatched c :: (handleOne c svc m calls).1 ++ [sendReply c calls reply]) s
  | accepted (c : ℕ) (object : XpcObject) (calls : Calls) (m : Message) (id : UInt64)
    (hm : Received os s c object calls m id) (hnone : s.connections id = none)
    (htype : m.type = .hello) (svc : AuthorizedService)
    (hsvc : AuthorizedService.create (dataBytes m.payload) calls s.authorizations = .ok svc)
    (reply : Message) :
    Does os s (.message c (.message object) calls)
      ((isMessageSignatureValid os c calls.validation).1 ++ [.accepted c svc.auth] ++
        [sendReply c calls reply])
      { s with
        authorizations := s.authorizations + 1
        connections := Function.update s.connections id (some svc) }

/-- What a message does is what its `try` block does, with a reply. -/
theorem Answers.does {c : ℕ} {object : XpcObject} {calls : Calls} {m : Message} {id : UInt64}
    {events : List Event} {s₁ : XpcServer} {result : Except String Message}
    (hanswers : Answers s c id m calls events s₁ result)
    (hm : Received os s c object calls m id) (reply : Message) :
    Does os s (.message c (.message object) calls)
      ((isMessageSignatureValid os c calls.validation).1 ++ events ++
        [sendReply c calls reply]) s₁ := by
  have hanswered (he : s.connections id = none ∧ (m.type = .hello → ∃ what,
      AuthorizedService.create (dataBytes m.payload) calls s.authorizations = .error what)) :
      Does os s (.message c (.message object) calls)
        ((isMessageSignatureValid os c calls.validation).1 ++ [] ++
          [sendReply c calls reply]) s := by
    rw [List.append_nil]
    refine .answered c _ calls _ (fun e he ↦ ?_) fun object' m' id' heq hm' ↦ ?_
    · exact (List.mem_append.1 he).imp_right fun he ↦ .inr ⟨reply, List.mem_singleton.1 he⟩
    · obtain rfl := XpcEvent.message.inj heq
      obtain rfl := Option.some.inj (hm.unwrap.symm.trans hm'.unwrap)
      obtain rfl := Option.some.inj (hm.context.symm.trans hm'.context)
      exact he
  cases hanswers with
  | dispatched svc hsvc => exact .dispatched c object calls m id hm svc hsvc reply
  | accepted hnone htype svc hsvc =>
    exact .accepted c object calls m id hm hnone htype svc hsvc reply
  | rejected hnone htype what hwhat => exact hanswered ⟨hnone, fun _ ↦ ⟨what, hwhat⟩⟩
  | notFound hnone htype => exact hanswered ⟨hnone, fun h ↦ absurd h htype⟩

/-- A handler does one of these, and records it. -/
theorem does_of_handle {l : Label} (hc : ∀ c ∈ l.connection, s.contexts c ≠ none)
    (h : handle os l s = some s') :
    ∃ events s₁, Does os s l events s₁ ∧ s' = s₁.record events := by
  cases l with
  | arrive r v =>
    obtain rfl := Option.some.inj h
    cases hv : (isClientSignatureValid os s.arrived r v).2 with
    | false => exact ⟨_, _, .dropped r v hv, by simp [handleIncomingConnection, hv, record]⟩
    | true => exact ⟨_, _, .activated r v hv, by simp [handleIncomingConnection, hv, record]⟩
  | finalise c =>
    obtain rfl := Option.some.inj h
    obtain ⟨id, hid⟩ := Option.ne_none_iff_exists'.1 (hc c rfl)
    exact ⟨_, _, .finalised c id hid, by simp [cleanUpConnection, hid, record]⟩
  | message c event calls =>
    obtain ⟨id, hid⟩ := Option.ne_none_iff_exists'.1 (hc c rfl)
    replace h : handleIncomingMessage os c event calls s = some s' := h
    cases event with
    | error =>
      obtain rfl := Option.some.inj h
      exact ⟨[], s, .answered c .error calls [] nofun nofun, by simp [record]⟩
    | peerCodeSigningRequirement =>
      rw [handleIncomingMessage] at h
      split at h
      · obtain rfl := Option.some.inj h
        exact ⟨[.cancelled c], s, .answered c _ calls _ (by simp) nofun, rfl⟩
      · obtain rfl := Option.some.inj h
        exact ⟨[], s, .answered c _ calls _ nofun nofun, by simp [record]⟩
    | message object =>
      cases hv : (isMessageSignatureValid os c calls.validation).2 with
      | false =>
        simp only [handleIncomingMessage, hv, Bool.false_eq_true, not_false_eq_true, if_true] at h
        obtain rfl := Option.some.inj h
        refine ⟨[.cancelled c], s, .answered c _ calls _ (by simp) ?_, rfl⟩
        intro object' m id' heq hm
        exact absurd hm.valid (by simp [hv])
      | true =>
        cases hunwrap : Message.unwrap object with
        | none =>
          simp only [handleIncomingMessage, hv, hunwrap, not_true_eq_false, if_false] at h
          obtain rfl := Option.some.inj h
          refine ⟨_, s, .answered c _ calls _ (fun e he ↦ .inl he) ?_, rfl⟩
          intro object' m id' heq hm
          obtain rfl := XpcEvent.message.inj heq
          exact absurd hm.unwrap (by simp [hunwrap])
        | some m =>
          have hm : Received os s c object calls m id := ⟨hv, hunwrap, hid⟩
          obtain ⟨_, s₁, _, hanswers, rfl⟩ := exists_answers_of_received hm h
          exact ⟨_, s₁, hanswers.does hm _, rfl⟩

theorem Does.trace_eq {l : Label} {events : List Event} {s₁ : XpcServer}
    (h : Does os s l events s₁) : s₁.trace = s.trace := by
  cases h <;> rfl

/-- What an arrival records. -/
theorem eq_of_mem_arrive {r : ℤ} {v : Validation} {events : List Event} {s₁ : XpcServer}
    (h : Does os s (.arrive r v) events s₁)
    {e : Event} (he : e ∈ events) :
    os = .macOS12 ∧ r = 0 ∧ e = .requirementSet s.arrived ∨
      os = .earlier ∧ e = .connectionValidated s.arrived ∨
      e = .dropped s.arrived ∨ e = .activated s.arrived := by
  have hsplit {last : Event}
      (he : e ∈ (isClientSignatureValid os s.arrived r v).1 ++ [last]) :
      (os = .macOS12 ∧ r = 0 ∧ e = .requirementSet s.arrived ∨
        os = .earlier ∧ e = .connectionValidated s.arrived) ∨ e = last :=
    (List.mem_append.1 he).imp eq_of_mem_isClientSignatureValid List.mem_singleton.1
  cases h with
  | dropped =>
    obtain hvalid | hlast := hsplit he
    · exact hvalid.imp_right .inl
    · exact .inr (.inr (.inl hlast))
  | activated =>
    obtain hvalid | hlast := hsplit he
    · exact hvalid.imp_right .inl
    · exact .inr (.inr (.inr hlast))

theorem Does.arrived_le {l : Label} {events : List Event} {s₁ : XpcServer}
    (h : Does os s l events s₁) : s.arrived ≤ s₁.arrived := by
  cases h
  all_goals first | exact le_rfl | exact Nat.le_succ _

/-- A connection gets a context when it arrives and is activated. -/
theorem Does.context_ne_none {l : Label} {events : List Event} {s₁ : XpcServer} {c : ℕ}
    (h : Does os s l events s₁) (hc : s₁.contexts c ≠ none) :
    s.contexts c ≠ none ∨ c = s.arrived ∧ s₁.arrived = s.arrived + 1 ∧ ∃ r v,
      (isClientSignatureValid os c r v).2 = true ∧
      events = (isClientSignatureValid os c r v).1 ++ [.activated c] := by
  cases h with
  | dropped | answered | dispatched | accepted => exact .inl hc
  | activated r v hv =>
    obtain rfl | hne := eq_or_ne c s.arrived
    · exact .inr ⟨rfl, rfl, r, v, hv, rfl⟩
    · exact .inl (by simpa [hne] using hc)
  | finalised c' id hc' =>
    obtain rfl | hne := eq_or_ne c c'
    · exact .inl (by simp [hc'])
    · exact .inl (by simpa [hne] using hc)

/-- What a move records. -/
def recorded (t : LabelledSystem.Move XpcServer Label) : List Event :=
  t.target.trace.drop t.source.trace.length

theorem Does.recorded_eq {l : Label} {events : List Event} {s₁ : XpcServer}
    (hdoes : Does os s l events s₁) : recorded ⟨s, l, s₁.record events⟩ = events := by
  show (s₁.trace ++ events).drop s.trace.length = events
  rw [hdoes.trace_eq, List.drop_left]

/-- **A step** does one of these, and records it. -/
theorem does_of_step {l : Label} (h : (system os).step s l s') :
    ∃ events s₁, Does os s l events s₁ ∧ s' = s₁.record events ∧ recorded ⟨s, l, s'⟩ = events := by
  obtain ⟨events, s₁, hdoes, rfl⟩ := does_of_handle h.1 h.2
  exact ⟨events, s₁, hdoes, rfl, hdoes.recorded_eq⟩

/-- A connection with a context has arrived. -/
theorem lt_arrived_of_run {h : List (LabelledSystem.Move XpcServer Label)}
    (hrun : (system os).Run h s) (c : ℕ) : s.contexts c ≠ none → c < s.arrived := by
  refine hrun.invariant (I := fun s ↦ s.contexts c ≠ none → c < s.arrived)
    (fun s hs hc ↦ ?_) (fun s l s' ih hstep hc ↦ ?_)
  · obtain rfl : s = {} := hs
    exact absurd rfl hc
  · obtain ⟨events, s₁, hdoes, rfl, -⟩ := does_of_step hstep
    obtain hc | ⟨rfl, harrived, -⟩ := hdoes.context_ne_none hc
    · exact (ih hc).trans_le hdoes.arrived_le
    · exact harrived ▸ Nat.lt_succ_self _

/-- A `Hello` whose payload is a valid external form. -/
def ValidHello (object : XpcObject) (calls : Calls) : Prop :=
  ∃ m, Message.unwrap object = some m ∧ m.type = .hello ∧
    (dataBytes m.payload).length = AuthorizedService.externalFormSize ∧
    calls.createFromExternalForm = 0 ∧ calls.createsNull = false

/-- A `Hello` with an external form. -/
def exampleHello : XpcObject :=
  .dictionary [("t", .int64 3), ("p", .data (List.replicate 32 0))]

theorem exampleHello_valid : ValidHello exampleHello {} :=
  ⟨_, rfl, rfl, rfl, rfl, rfl⟩

end XpcServer

end Trusty

end Amanuensis
