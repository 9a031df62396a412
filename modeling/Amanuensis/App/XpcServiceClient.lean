import Amanuensis.Trusty.XpcServer

/-!
# The client of the helper

`XpcServiceClient` is the service as the application sees it: each of its methods sends a message to
the helper, waits for the reply, and makes the payload of the reply into its result. It throws if
the reply is an error, or anything else than the method expects.

The connection is given by what sending a message on it returns: the reply, or the description of an
XPC error.
-/

namespace Amanuensis

namespace Trusty

/-- `Protocol::wrap`, for a dictionary that is empty. -/
def Message.wrap (message : Message) : XpcObject :=
  .dictionary [("t", .int64 message.type.toInt64), ("p", message.payload)]

theorem Message.unwrap_wrap {message : Message}
    (htype : MessageType.ofInt64 message.type.toInt64 = message.type) :
    Message.unwrap message.wrap = some message := by
  show some (Message.mk (MessageType.ofInt64 message.type.toInt64) message.payload) = _
  rw [htype]

namespace XpcServiceClient

/-- How a call ends that does not return. -/
inductive Failure
  /-- An exception, and what it says. -/
  | thrown (what : StdString)
  /-- An exception is constructed from a null pointer. -/
  | crashed

/-- What sending a message returns. -/
abbrev Send := XpcObject → Except StdString XpcObject

/-! ### Methods -/

/-- `send_message`, which waits for the reply. -/
def sendMessage (send : Send) (type : MessageType) (payload : XpcObject) :
    Except Failure XpcObject :=
  match send (Message.wrap { type := type, payload := payload }) with
  | .error error => .error (.thrown error)
  | .ok replyWrapper =>
    match Message.unwrap replyWrapper with
    | none => .error (.thrown (StdString.ofString "wat"))
    | some reply =>
      if reply.type = .error then
        match reply.payload with
        | .string error => .error (.thrown error.cStr)
        -- `xpc_string_get_string_ptr` of another object is null
        | _ => .error .crashed
      else if reply.type ≠ type then .error (.thrown (StdString.ofString "nope"))
      else .ok reply.payload

/-- The constructor from the payload of a reply. -/
def proxyStateOf (reply : XpcObject) : Except Failure ProxyState :=
  match ProxyState.ofXpc reply with
  | .ok state => .ok state
  | .error what => .error (.thrown (StdString.ofString what))

theorem proxyStateOf_toXpc (state : ProxyState) :
    proxyStateOf state.toXpc = .ok { state with host := state.host.cStr } := by
  rw [proxyStateOf, ProxyState.ofXpc_toXpc]

/-- The reply of a method without a result is null. -/
def expectNull : XpcObject → Except Failure Unit
  | .null => .ok ()
  | _ => .error (.thrown (StdString.ofString "unexpected error"))

/-- The version in a reply. -/
def versionOf : XpcObject → Except Failure UInt32
  | .uint64 version => .ok version.toUInt32
  | _ => .error (.thrown (StdString.ofString "unexpected error"))

/-- The constructor, which says `Hello`. -/
def create (send : Send) (authBytes : List UInt8) : Except Failure Unit := do
  let _ ← sendMessage send .hello (.data authBytes)
  return ()

/-- `get_http_proxy_state`. -/
def getHttpProxyState (send : Send) : Except Failure ProxyState := do
  let reply ← sendMessage send .getProxyState .null
  proxyStateOf reply

/-- `set_http_proxy_state`. -/
def setHttpProxyState (send : Send) (state : ProxyState) : Except Failure Unit := do
  let reply ← sendMessage send .setProxyState state.toXpc
  expectNull reply

/-- `reset_proxy_settings`. -/
def resetProxySettings (send : Send) : Except Failure Unit := do
  let reply ← sendMessage send .clearProxySettings .null
  expectNull reply

/-- `get_current_version`. -/
def getCurrentVersion (send : Send) : Except Failure UInt32 := do
  let reply ← sendMessage send .getToolVersion .null
  versionOf reply

/-! ### Requests -/

/-- A call of one of the methods, or of the constructor. -/
inductive Request
  | create (authBytes : List UInt8)
  | getHttpProxyState
  | setHttpProxyState (state : ProxyState)
  | resetProxySettings
  | getCurrentVersion

namespace Request

/-- What the method returns. -/
def Result : Request → Type
  | getHttpProxyState => ProxyState
  | getCurrentVersion => UInt32
  | create _ | setHttpProxyState _ | resetProxySettings => Unit

/-- The message that the method sends. -/
def message : Request → Message
  | create authBytes => { type := .hello, payload := .data authBytes }
  | getHttpProxyState => { type := .getProxyState, payload := .null }
  | setHttpProxyState state => { type := .setProxyState, payload := state.toXpc }
  | resetProxySettings => { type := .clearProxySettings, payload := .null }
  | getCurrentVersion => { type := .getToolVersion, payload := .null }

/-- The method that sends a request. -/
def call (send : Send) : (r : Request) → Except Failure r.Result
  | create authBytes => XpcServiceClient.create send authBytes
  | getHttpProxyState => XpcServiceClient.getHttpProxyState send
  | setHttpProxyState state => XpcServiceClient.setHttpProxyState send state
  | resetProxySettings => XpcServiceClient.resetProxySettings send
  | getCurrentVersion => XpcServiceClient.getCurrentVersion send

/-- What the method makes of the payload of its reply. -/
def read : (r : Request) → XpcObject → Except Failure r.Result
  | create _, _ => .ok ()
  | getHttpProxyState, reply => proxyStateOf reply
  | setHttpProxyState _, reply => expectNull reply
  | resetProxySettings, reply => expectNull reply
  | getCurrentVersion, reply => versionOf reply

/-- The payload of a reply with a result. -/
def encode : (r : Request) → r.Result → XpcObject
  | getHttpProxyState, state => ProxyState.toXpc state
  | getCurrentVersion, version => .uint64 (UInt32.toUInt64 version)
  | create _, _ | setHttpProxyState _, _ | resetProxySettings, _ => .null

variable {r : Request} {send : Send} {reply : Message}

theorem ofInt64_type (r : Request) :
    MessageType.ofInt64 r.message.type.toInt64 = r.message.type := by
  cases r <;> rfl

theorem type_ne_error (r : Request) : r.message.type ≠ .error := by
  cases r <;> simp [message]

/-- A method sends its message, and reads the payload of the reply. -/
theorem call_eq (r : Request) (send : Send) :
    r.call send = sendMessage send r.message.type r.message.payload >>= r.read := by
  cases r <;> rfl

/-- A call reads the payload of a reply of its own type. -/
theorem call_of_reply {payload : XpcObject}
    (hsend : send r.message.wrap =
      .ok (Message.wrap { type := r.message.type, payload := payload })) :
    r.call send = r.read payload := by
  have hunwrap : Message.unwrap (Message.wrap { type := r.message.type, payload := payload }) =
      some { type := r.message.type, payload := payload } :=
    Message.unwrap_wrap r.ofInt64_type
  have hreply : sendMessage send r.message.type r.message.payload = .ok payload := by
    rw [sendMessage, hsend]
    simp only [hunwrap, r.type_ne_error, if_false, ne_eq, not_true_eq_false]
  rw [call_eq, hreply]
  rfl

end Request

end XpcServiceClient

end Trusty

end Amanuensis
