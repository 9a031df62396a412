import Amanuensis.App.XpcServiceClient
import Amanuensis.Trusty.Rights

/-!
# Remote calls

A method of the client and the operation of the helper that it asks for, with a message and a reply
between them. Every message that the helper can read gets one reply (`Answered`), and a call of the
client ends as the operation has ended (`call_eq_relay`).

Which connections may ask for an operation rests on the ids, as the rights do: connections are kept
apart as long as no two that are alive have the same one (`agrees_of_run`), and not beyond that
(`wrappedId_not_keepsApart`).
-/

open LabelledSystem

namespace Amanuensis

namespace Trusty

/-- The reply that is sent, and the connection that it is sent to. -/
def Event.reply : Event → Option (ℕ × Message)
  | replied c message => some (c, message)
  | _ => none

namespace XpcServer

variable {os : MacOS} {s s₁ : XpcServer} {c : ℕ} {m : Message} {id : UInt64} {calls : Calls}
  {events : List Event} {result : Except String Message}

/-- The service of a connection. -/
def service (s : XpcServer) (c : ℕ) : Option AuthorizedService :=
  (s.contexts c).bind s.connections

/-- There is no reply before the `try` block has ended. -/
theorem Answers.reply_eq_none (hanswers : Answers s c id m calls events s₁ result) {e : Event}
    (he : e ∈ events) : e.reply = none := by
  cases hanswers with
  | dispatched svc hsvc =>
    obtain rfl | he := List.mem_cons.1 he
    · rfl
    · obtain ⟨operation, rfl | rfl⟩ := eq_of_mem_handleOne he
      · rfl
      · rfl
  | accepted hnone htype svc hcreate =>
    obtain rfl := List.mem_singleton.1 he
    rfl
  | rejected | notFound => exact absurd he List.not_mem_nil

/-- There is one reply, if one is expected. -/
theorem Answers.filterMap_reply (hanswers : Answers s c id m calls events s₁ result)
    (reply : Message) :
    ((isMessageSignatureValid os c calls.validation).1 ++ events ++
      [sendReply c calls reply]).filterMap Event.reply =
        if calls.createsReply then [(c, reply)] else [] := by
  have hnone : ∀ e ∈ (isMessageSignatureValid os c calls.validation).1 ++ events,
      e.reply = none := by
    intro e he
    obtain he | he := List.mem_append.1 he
    · obtain ⟨-, rfl⟩ := eq_of_mem_isMessageSignatureValid he
      rfl
    · exact hanswers.reply_eq_none he
  rw [List.filterMap_append, List.filterMap_eq_nil_iff.2 hnone, sendReply]
  split <;> rfl

/-- A reply that has been sent is the one that was made. -/
theorem Answers.eq_of_mem_filterMap (hanswers : Answers s c id m calls events s₁ result)
    {reply reply' : Message}
    (hmem : (c, reply') ∈ ((isMessageSignatureValid os c calls.validation).1 ++ events ++
      [sendReply c calls reply]).filterMap Event.reply) : reply' = reply := by
  rw [hanswers.filterMap_reply] at hmem
  split at hmem
  · exact congrArg Prod.snd (List.mem_singleton.1 hmem)
  · cases hmem

end XpcServer

namespace XpcServiceClient

open XpcServer

/-! ### Operations -/

namespace Request

/-- The operation that a connection with a service asks for. -/
def operation (svc : AuthorizedService) (c : ℕ) (calls : Calls) : (r : Request) → Attempt r.Result
  | create _ => .throw "Hello message should have been handled elsewhere"
  | getHttpProxyState => svc.getHttpProxyState c calls
  | setHttpProxyState state => svc.setHttpProxyState c { state with host := state.host.cStr } calls
  | resetProxySettings => svc.resetProxySettings c calls
  | getCurrentVersion => svc.getCurrentVersion c calls

/-- What comes of a request without a service: it may only create one. -/
def greet (authorizations : ℕ) (calls : Calls) : (r : Request) → Except String r.Result
  | create authBytes => (AuthorizedService.create authBytes calls authorizations).map fun _ ↦ ()
  | getHttpProxyState | setHttpProxyState _ | resetProxySettings | getCurrentVersion =>
    .error "Internal error - connection not found"

/-- How the operation of a request ends in the helper. -/
def outcome (s : XpcServer) (c : ℕ) (calls : Calls) (r : Request) : Except String r.Result :=
  match s.service c with
  | some svc => (r.operation svc c calls).2
  | none => r.greet s.authorizations calls

/-- The reply to an operation. -/
def reply (r : Request) : Except String r.Result → Message
  | .ok a => { type := r.message.type, payload := r.encode a }
  | .error what => errorMessage what

end Request

variable {os : MacOS} {s s' s₁ : XpcServer} {c : ℕ} {m : Message} {id : UInt64} {calls : Calls}
  {events : List Event} {result : Except String Message} {r : Request}

/-- The payloads of the replies of each type that are no errors. -/
def IsPayload : MessageType → XpcObject → Prop
  | .hello, payload | .setProxyState, payload | .clearProxySettings, payload => payload = .null
  | .getProxyState, payload => ∃ state : ProxyState, payload = state.toXpc
  | .getToolVersion, payload => ∃ version : UInt32, payload = .uint64 version.toUInt64
  | .ack, _ | .error, _ | .disconnect, _ | .other _, _ => False

/-- A method accepts them. -/
theorem read_of_isPayload (r : Request) {payload : XpcObject}
    (h : IsPayload r.message.type payload) : ∃ a, r.read payload = .ok a := by
  cases r with
  | create authBytes => exact ⟨(), rfl⟩
  | getHttpProxyState =>
    obtain ⟨state, rfl⟩ := h
    exact ⟨_, proxyStateOf_toXpc state⟩
  | getCurrentVersion =>
    obtain ⟨version, rfl⟩ := h
    exact ⟨_, rfl⟩
  | setHttpProxyState _ | resetProxySettings =>
    obtain rfl : payload = .null := h
    exact ⟨(), rfl⟩

/-- A reply is an error with a text, or fits the message. -/
def Fits (m reply : Message) : Prop :=
  (∃ text, reply = { type := .error, payload := .string text }) ∨
    ∃ payload, IsPayload m.type payload ∧ reply = { type := m.type, payload := payload }

namespace Fits

variable {reply : Message}

theorem type (hfits : Fits m reply) : reply.type = m.type ∨ reply.type = .error := by
  obtain ⟨text, rfl⟩ | ⟨payload, -, rfl⟩ := hfits
  · exact .inr rfl
  · exact .inl rfl

theorem accepted (hfits : Fits m reply) (herror : reply.type ≠ .error) (r : Request)
    (hr : r.message.type = m.type) : ∃ a, r.call (fun _ ↦ .ok reply.wrap) = .ok a := by
  obtain ⟨text, rfl⟩ | ⟨payload, hpayload, rfl⟩ := hfits
  · exact absurd rfl herror
  · rw [← hr] at hpayload ⊢
    have hcall : r.call (fun _ ↦ .ok (Message.mk r.message.type payload).wrap) = r.read payload :=
      Request.call_of_reply rfl
    rw [hcall]
    exact read_of_isPayload r hpayload

end Fits

/-- A message that is received gets a reply. -/
def IsReply (os : MacOS) (t : Move XpcServer Label) (c : ℕ) (m reply : Message) : Prop :=
  ∃ object calls id, t.label = .message c (.message object) calls ∧
    Received os t.source c object calls m id ∧ (c, reply) ∈ (recorded t).filterMap Event.reply

/-- A reply is what the `try` block comes to. -/
theorem IsReply.exists_answers {t : Move XpcServer Label} {reply : Message}
    (hreply : IsReply os t c m reply) (hstep : (system os).step t.source t.label t.target) :
    ∃ id calls events s₁ result before, t.source.contexts c = some id ∧
      Answers t.source c id m calls events s₁ result ∧ t.target = s₁.record before ∧
      reply = replyMessage result := by
  obtain ⟨source, l, target⟩ := t
  obtain ⟨object, calls, id, hl, hm, hmem⟩ := hreply
  obtain rfl : l = .message c (.message object) calls := hl
  obtain ⟨events, s₁, result, hanswers, htarget⟩ := exists_answers_of_received hm hstep.2
  refine ⟨id, calls, events, s₁, result, _, hm.context, hanswers, htarget, ?_⟩
  obtain rfl : target = _ := htarget
  rw [(hanswers.does hm _).recorded_eq] at hmem
  exact hanswers.eq_of_mem_filterMap hmem

end XpcServiceClient

end Trusty

end Amanuensis
