import Amanuensis.Trusty.ProxyState

/-!
# Authorized services

What happens in the helper while it handles a message is a list of events, and ends in a value or in
an exception (`Attempt`). `AuthorizedService` stands between a connection and the service: each of
its operations asserts the right that is named for it, and then delegates.

The outcomes of the calls of the system, and of the service delegated to, are given by `Calls`.
-/

namespace Amanuensis

namespace Trusty

/-! ### Calls of the system -/

/-- `OSStatus`: zero is success. -/
abbrev OSStatus := ℤ

/-- The three calls that check a code signature. -/
structure Validation where
  /-- `SecCodeCreateWithXPCMessage` or `SecCodeCopyGuestWithAttributes`. -/
  createCode : OSStatus := 0
  /-- `SecRequirementCreateWithString`. -/
  createRequirement : OSStatus := 0
  /-- `SecCodeCheckValidityWithErrors`. -/
  checkValidity : OSStatus := 0
  deriving DecidableEq, Repr

/-- The outcomes of the calls made while a message is handled. -/
structure Calls where
  validation : Validation := {}
  /-- `AuthorizationCreateFromExternalForm`. -/
  createFromExternalForm : OSStatus := 0
  /-- Whether it yields a null reference. -/
  createsNull : Bool := false
  /-- `AuthorizationCopyRights`, without interaction. -/
  copyRights : OSStatus := 0
  /-- `AuthorizationCopyRights`, with interaction. -/
  copyRightsInteractively : OSStatus := 0
  getHttpProxyState : Except String ProxyState := .ok .none
  setHttpProxyState : Except String Unit := .ok ()
  resetProxySettings : Except String Unit := .ok ()
  getCurrentVersion : Except String UInt32 := .ok 1
  /-- Whether `xpc_dictionary_create_reply` yields a dictionary: it does if the message expects a
  reply, and a null pointer if not. -/
  createsReply : Bool := true

/-! ### Messages -/

/-- `IMessage::MessageType`, the type that a message carries. -/
inductive MessageType
  | ack
  | error
  | hello
  | getProxyState
  | setProxyState
  | clearProxySettings
  | getToolVersion
  | disconnect
  /-- Any other value, which the cast from an integer admits. -/
  | other (value : Int64)
  deriving DecidableEq, Repr

namespace MessageType

/-- The enumerator's value. -/
def toInt64 : MessageType → Int64
  | ack => 1
  | error => 2
  | hello => 3
  | getProxyState => 4
  | setProxyState => 5
  | clearProxySettings => 6
  | getToolVersion => 7
  | disconnect => 255
  | other value => value

/-- The cast from an integer, which is not checked. -/
def ofInt64 (value : Int64) : MessageType :=
  if value = 1 then ack
  else if value = 2 then error
  else if value = 3 then hello
  else if value = 4 then getProxyState
  else if value = 5 then setProxyState
  else if value = 6 then clearProxySettings
  else if value = 7 then getToolVersion
  else if value = 255 then disconnect
  else other value

end MessageType

/-- A message of the protocol: its type, and an object that the type gives a meaning. -/
structure Message where
  type : MessageType
  payload : XpcObject

/-- `Protocol::unwrap`. -/
def Message.unwrap (wrapper : XpcObject) : Option Message :=
  match wrapper.getValue "t", wrapper.getValue "p" with
  | some (.int64 value), some payload =>
    some { type := MessageType.ofInt64 value, payload := payload }
  | _, _ => none

/-! ### Events -/

/-- The operations of the service. -/
inductive Operation
  | getHttpProxyState
  | setHttpProxyState (state : ProxyState)
  | resetProxySettings
  | getCurrentVersion
  deriving DecidableEq, Repr

/-- What happens in the helper, to its connections and to the authorizations it has created: both
are numbered. -/
inductive Event
  /-- The code-signing requirement has been installed on a connection. -/
  | requirementSet (c : ℕ)
  /-- The signature of the peer has been checked when it connected. -/
  | connectionValidated (c : ℕ)
  /-- The signature of the peer has been checked for a message. -/
  | messageValidated (c : ℕ)
  | activated (c : ℕ)
  | dropped (c : ℕ)
  | cancelled (c : ℕ)
  /-- `handleOne` is called. -/
  | dispatched (c : ℕ)
  /-- A `Hello` is accepted. -/
  | accepted (c : ℕ) (auth : ℕ)
  /-- A right is granted to an authorization. -/
  | granted (auth : ℕ) (right : String)
  /-- The service is called. -/
  | invoked (c : ℕ) (operation : Operation)
  | replied (c : ℕ) (reply : Message)
  /-- The reply is written to a null pointer. -/
  | crashed (c : ℕ)

/-- A computation that records events, and ends in a value or in an exception. -/
def Attempt (α : Type) := List Event × Except String α

namespace Attempt

instance : Monad Attempt where
  pure a := ([], .ok a)
  bind x f :=
    match x with
    | (events, .ok a) => (events ++ (f a).1, (f a).2)
    | (events, .error e) => (events, .error e)

/-- An exception, before anything has happened. -/
def throw {α : Type} (message : String) : Attempt α := ([], .error message)

/-- The result of a call, without an event. -/
def ofExcept {α : Type} (r : Except String α) : Attempt α := ([], r)

/-- An event and nothing else. -/
def record (e : Event) : Attempt Unit := ([e], .ok ())

/-- What follows without an event leaves the events. -/
theorem events_bind_pure {α β : Type} (x : Attempt α) (f : α → β) :
    (x >>= fun a ↦ pure (f a)).1 = x.1 := by
  obtain ⟨events, result⟩ := x
  cases result with
  | ok a => exact List.append_nil events
  | error message => rfl

end Attempt

/-! ### The service of a connection -/

/-- A service with its authorization. -/
structure AuthorizedService where
  auth : ℕ
  deriving DecidableEq, Repr

/-- The right for `GetProxyState`. -/
def getProxyStateRightName : String := "com.bendb.amanuensis.trusty.GetProxyState"

/-- The right for `SetProxyState`. -/
def setProxyStateRightName : String := "com.bendb.amanuensis.trusty.SetProxyState"

/-- The right for `ClearSettings`. -/
def clearSettingsRightName : String := "com.bendb.amanuensis.trusty.ClearSettings"

/-- The right for `GetToolVersion`. -/
def getToolVersionRightName : String := "com.bendb.amanuensis.trusty.GetToolVersion"

/-- The right that is named for an operation. -/
def Operation.rightName : Operation → String
  | getHttpProxyState => getProxyStateRightName
  | setHttpProxyState _ => setProxyStateRightName
  | resetProxySettings => clearSettingsRightName
  | getCurrentVersion => getToolVersionRightName

namespace AuthorizedService

/-- `sizeof(AuthorizationExternalForm)`. -/
def externalFormSize : ℕ := 32

/-- The constructor, with the number of the authorization that it creates. -/
def create (authExternalForm : List UInt8) (calls : Calls) (auth : ℕ) :
    Except String AuthorizedService :=
  if authExternalForm.length ≠ externalFormSize then .error "Payload isn't the right size"
  else if calls.createFromExternalForm ≠ 0 ∨ calls.createsNull = true then
    .error "payload couldn't be made into an AuthorizationRef"
  else .ok { auth := auth }

/-- When the constructor succeeds. -/
theorem create_eq_ok_iff {authExternalForm : List UInt8} {calls : Calls} {auth : ℕ}
    {svc : AuthorizedService} :
    create authExternalForm calls auth = .ok svc ↔
      (authExternalForm.length = externalFormSize ∧ calls.createFromExternalForm = 0 ∧
        calls.createsNull = false) ∧ svc = { auth := auth } := by
  rw [create]
  split
  next hlength => exact ⟨nofun, fun h ↦ absurd h.1.1 hlength⟩
  next hlength =>
    split
    next hfails =>
      refine ⟨nofun, fun h ↦ ?_⟩
      rw [h.1.2.1, h.1.2.2] at hfails
      exact absurd hfails (by decide)
    next hfails =>
      obtain ⟨hform, hnull⟩ := not_or.1 hfails
      have hvalid : authExternalForm.length = externalFormSize ∧ calls.createFromExternalForm = 0 ∧
          calls.createsNull = false :=
        ⟨not_not.1 hlength, not_not.1 hform, Bool.eq_false_iff.2 hnull⟩
      exact ⟨fun h ↦ ⟨hvalid, (Except.ok.inj h).symm⟩, fun h ↦ congrArg Except.ok h.2.symm⟩

/-- The right is asked for twice: as it is, and then with a dialog. Where both are refused the
operation is denied. -/
def assertRight (svc : AuthorizedService) (right : String) (calls : Calls) : Attempt Unit :=
  if calls.copyRights ≠ 0 then
    if calls.copyRightsInteractively ≠ 0 then .throw "Authorization denied"
    else .record (.granted svc.auth right)
  else .record (.granted svc.auth right)

/-- A call to the service, for a connection. -/
def delegate {α : Type} (c : ℕ) (operation : Operation) (result : Except String α) : Attempt α := do
  Attempt.record (.invoked c operation)
  Attempt.ofExcept result

/-- The settings in force, for those who may read them. -/
def getHttpProxyState (svc : AuthorizedService) (c : ℕ) (calls : Calls) : Attempt ProxyState := do
  svc.assertRight getProxyStateRightName calls
  delegate c .getHttpProxyState calls.getHttpProxyState

/-- New settings, for those who may write them. -/
def setHttpProxyState (svc : AuthorizedService) (c : ℕ) (endpoint : ProxyState) (calls : Calls) :
    Attempt Unit := do
  svc.assertRight setProxyStateRightName calls
  delegate c (.setHttpProxyState endpoint) calls.setHttpProxyState

/-- The settings are cleared, for those who may clear them. -/
def resetProxySettings (svc : AuthorizedService) (c : ℕ) (calls : Calls) : Attempt Unit := do
  svc.assertRight clearSettingsRightName calls
  delegate c .resetProxySettings calls.resetProxySettings

/-- The version of the helper, for those who may know it. -/
def getCurrentVersion (svc : AuthorizedService) (c : ℕ) (calls : Calls) : Attempt UInt32 := do
  svc.assertRight getToolVersionRightName calls
  delegate c .getCurrentVersion calls.getCurrentVersion

/-! ### Asserted rights -/

/-- What is recorded when an operation is called for a connection: the right that is named for it is
granted before the service is called. -/
def authorized (svc : AuthorizedService) (c : ℕ) (operation : Operation) : List Event :=
  [.granted svc.auth operation.rightName, .invoked c operation]

/-- What is recorded when an operation is called and its result is made into a reply: the operation
asserts its right and delegates, or does neither. -/
theorem events_of_assertRight {α β : Type} (svc : AuthorizedService) (c : ℕ) (operation : Operation)
    (calls : Calls) (result : Except String α) (f : α → β) {x : Attempt β}
    (hx : x = (svc.assertRight operation.rightName calls >>= fun _ ↦
      delegate c operation result) >>= fun a ↦ pure (f a)) :
    x.1 = [] ∨ ∃ operation, x.1 = svc.authorized c operation := by
  rw [hx, Attempt.events_bind_pure, assertRight]
  split
  · split
    · exact .inl rfl
    · exact .inr ⟨operation, rfl⟩
  · exact .inr ⟨operation, rfl⟩

end AuthorizedService

end Trusty

end Amanuensis
