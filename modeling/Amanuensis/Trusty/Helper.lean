import Amanuensis.Trusty.Hostname
import Amanuensis.Trusty.Settings
import Amanuensis.Trusty.XpcServer

/-!
# The helper and the settings of the system

The server of the helper, together with the preferences of the system that its service writes to.
An event of the server is a move of both: where the service is called, it answers as the service
does on the preferences. Others may change the preferences in between.

Nothing checks a host name on its way from a message to the preferences. So the host names that are
written are those that the clients ask for (`mem_written_iff`), and they are valid exactly if these
are (`written_valid_iff`).
-/

open LabelledSystem

namespace Amanuensis

namespace Trusty

open SystemConfiguration (Failure CallOutcomes Report)

/-- The helper, with the host names that it has written into the configuration. -/
structure Helper where
  server : XpcServer := {}
  prefs : SystemConfiguration.System
  written : List StdString := []

/-- The host name that a call has written: that of the configuration it has committed. -/
def SystemConfiguration.Report.written (report : Report) : List StdString :=
  match report.committed, report.stored with
  | true, some service =>
    match SystemConfiguration.entry service.configuration SystemConfiguration.httpProxyKey with
    | some (.string host) => [host.toByteArray.data.toList]
    | _ => []
  | _, _ => []

namespace Helper

/-! ### The system -/

/-- An event of the server, with the outcomes of the calls of the system that its service makes, or
a change that others make to the preferences. -/
inductive Label
  | serve (l : XpcServer.Label) (o : CallOutcomes)
  | change (prefs : SystemConfiguration.System)

/-- The state that an operation sets. -/
def state? : Operation → Option ProxyState
  | .setHttpProxyState state => some state
  | _ => none

/-- The state that the service is told to set. -/
def requested (events : List Event) : Option ProxyState :=
  events.findSome? fun e ↦
    match e with
    | .invoked _ operation => state? operation
    | _ => none

/-- What the server is answered is what the service returns. A service that crashes does not
answer. -/
def Answers {α : Type} (result : Except Failure α) (answer : Except String α) : Prop :=
  match result with
  | .ok a => answer = .ok a
  | .error (.thrown message) => answer = .error message
  | .error .crashed => False

/-- The service answers from the preferences. -/
structure Consistent (prefs : SystemConfiguration.System) (o : CallOutcomes) (events : List Event)
    (calls : Calls) : Prop where
  get (c : ℕ) : .invoked c .getHttpProxyState ∈ events →
    Answers (SystemConfiguration.getHttpProxyState prefs) calls.getHttpProxyState
  set (c : ℕ) (state : ProxyState) : .invoked c (.setHttpProxyState state) ∈ events →
    Answers (SystemConfiguration.setHttpProxyState o state prefs).result calls.setHttpProxyState

/-- The helper, after its server has told the service what to set. -/
def after (s : Helper) (server : XpcServer) (o : CallOutcomes) (request : Option ProxyState) :
    Helper :=
  match request with
  | none => { s with server := server }
  | some state =>
    let report := SystemConfiguration.setHttpProxyState o state s.prefs
    { server := server, prefs := report.system, written := s.written ++ report.written }

/-- **A step of the helper**: of its server, with what the calls of its service do to the settings,
or of somebody else who changes these. -/
inductive Step (os : MacOS) (s : Helper) : Label → Helper → Prop
  | serve (l : XpcServer.Label) (o : CallOutcomes) (server : XpcServer)
    (hserver : (XpcServer.system os).step s.server l server)
    (hcalls : ∀ c event calls, l = .message c event calls →
      Consistent s.prefs o (XpcServer.recorded ⟨s.server, l, server⟩) calls) :
    Step os s (.serve l o)
      (s.after server o (requested (XpcServer.recorded ⟨s.server, l, server⟩)))
  | change (prefs : SystemConfiguration.System) :
    Step os s (.change prefs) { s with prefs := prefs }

/-- **The helper**, on one release of macOS, from some preferences on. -/
def system (os : MacOS) (prefs : SystemConfiguration.System) : LabelledSystem Helper Label where
  init s := s = { prefs := prefs }
  step := Step os

/-! ### What is asked for -/

variable {os : MacOS} {prefs : SystemConfiguration.System} {s s' : Helper} {o : CallOutcomes}
  {server server' : XpcServer} {l : XpcServer.Label} {l' : Label} {state : ProxyState}
  {host : StdString} {t : Move Helper Label} {h : List (Move Helper Label)}

/-- A right is granted. -/
def granted (calls : Calls) : Bool := calls.copyRights = 0 || calls.copyRightsInteractively = 0

/-- **A client asks for a state**, and may: a `SetProxyState` message is delivered to a connection
with a service, whose right is granted. -/
def Asks (os : MacOS) (server : XpcServer) (l : XpcServer.Label) (state : ProxyState) : Prop :=
  ∃ c object calls m id svc, l = .message c (.message object) calls ∧
    XpcServer.Received os server c object calls m id ∧ server.connections id = some svc ∧
    m.type = .setProxyState ∧ ProxyState.ofXpc m.payload = .ok state ∧ granted calls = true

theorem requested_append (xs ys : List Event) :
    requested (xs ++ ys) = (requested xs).or (requested ys) :=
  List.findSome?_append

theorem requested_nil_ne : requested [] ≠ some state := (Option.some_ne_none state).symm

/-- An operation is called if its right is granted. -/
theorem requested_of_assertRight {α β : Type} (svc : AuthorizedService) (c : ℕ)
    (operation : Operation) (calls : Calls) (result : Except String α) (f : α → β)
    {x : Attempt β}
    (hx : x = (svc.assertRight operation.rightName calls >>= fun _ ↦
      AuthorizedService.delegate c operation result) >>= fun a ↦ pure (f a)) :
    requested x.1 = some state ↔ state? operation = some state ∧ granted calls = true := by
  have hcalled : requested [.granted svc.auth operation.rightName, .invoked c operation] =
      state? operation := by
    cases operation <;> rfl
  rw [hx, Attempt.events_bind_pure, AuthorizedService.assertRight]
  by_cases hfirst : calls.copyRights = 0
  · rw [if_neg (not_not.2 hfirst), and_iff_left (by simp [granted, hfirst]), ← hcalled]
    rfl
  · rw [if_pos hfirst]
    by_cases hsecond : calls.copyRightsInteractively = 0
    · rw [if_neg (not_not.2 hsecond), and_iff_left (by simp [granted, hsecond]), ← hcalled]
      rfl
    · rw [if_pos hsecond]
      refine iff_of_false requested_nil_ne fun h ↦ ?_
      exact absurd h.2 (by simp [granted, hfirst, hsecond])

/-- **What a message tells the service to set.** -/
theorem requested_handleOne (c : ℕ) (svc : AuthorizedService) (m : Message) (calls : Calls) :
    requested (XpcServer.handleOne c svc m calls).1 = some state ↔
      m.type = .setProxyState ∧ ProxyState.ofXpc m.payload = .ok state ∧
        granted calls = true := by
  rw [XpcServer.handleOne]
  cases m.type with
  | hello | ack | error | disconnect | other _ => exact iff_of_false requested_nil_ne (by simp)
  | getToolVersion =>
    refine (requested_of_assertRight svc c .getCurrentVersion calls _ _ rfl).trans ?_
    simp [state?]
  | getProxyState =>
    refine (requested_of_assertRight svc c .getHttpProxyState calls _ _ rfl).trans ?_
    simp [state?]
  | clearProxySettings =>
    refine (requested_of_assertRight svc c .resetProxySettings calls _ _ rfl).trans ?_
    simp [state?]
  | setProxyState =>
    cases ProxyState.ofXpc m.payload with
    | error what => exact iff_of_false requested_nil_ne (by simp)
    | ok endpoint =>
      refine (requested_of_assertRight svc c (.setHttpProxyState endpoint) calls _ _ rfl).trans ?_
      simp [state?]

/-- Where the service is not called, it is not told what to set. -/
theorem requested_eq_none {events : List Event}
    (hevents : ∀ c operation, .invoked c operation ∉ events) : requested events = none := by
  refine List.findSome?_eq_none_iff.2 fun e he ↦ ?_
  cases e with
  | invoked c operation => exact absurd he (hevents c operation)
  | _ => rfl

/-- An event that answers a message itself brings no state to a service. -/
theorem not_asks_of_connection {c : ℕ} {event : XpcEvent} {calls : Calls}
    (hnone : ∀ object m id, event = .message object →
      XpcServer.Received os server c object calls m id → server.connections id = none) :
    ¬ Asks os server (.message c event calls) state := by
  rintro ⟨c', object, calls', m, id, svc, hlabel, hm, hsvc, -⟩
  cases hlabel
  exact nomatch (hnone object m id rfl hm).symm.trans hsvc

/-- To validate a message is to call no service. -/
theorem invoked_not_mem_isMessageSignatureValid (os : MacOS) (c c' : ℕ) (v : Validation)
    (operation : Operation) :
    .invoked c' operation ∉ (XpcServer.isMessageSignatureValid os c v).1 := fun hmem ↦
  nomatch (XpcServer.eq_of_mem_isMessageSignatureValid hmem).2

theorem requested_isMessageSignatureValid (os : MacOS) (c : ℕ) (v : Validation) :
    requested (XpcServer.isMessageSignatureValid os c v).1 = none :=
  requested_eq_none fun _ ↦ invoked_not_mem_isMessageSignatureValid os c _ v

/-- To reply is to call no service. -/
theorem requested_sendReply (c : ℕ) (calls : Calls) (reply : Message) :
    requested [XpcServer.sendReply c calls reply] = none := by
  refine requested_eq_none fun c' operation hmem ↦ ?_
  simp at hmem

/-- What a message to the server tells the service to set. -/
theorem requested_of_does_message {c : ℕ} {event : XpcEvent} {calls : Calls} {events : List Event}
    (hdoes : XpcServer.Does os server (.message c event calls) events server') :
    requested events = some state ↔ Asks os server (.message c event calls) state := by
  cases hdoes with
  | answered _ _ _ _ hevents hnone =>
    have hquiet : requested events = none := by
      refine requested_eq_none fun c' operation hmem ↦ ?_
      obtain hmem | heq | ⟨_, heq⟩ := hevents _ hmem
      · exact invoked_not_mem_isMessageSignatureValid os c c' _ operation hmem
      · exact Event.noConfusion heq
      · simp at heq
    rw [hquiet]
    refine iff_of_false requested_nil_ne (not_asks_of_connection fun object m id heq hm ↦ ?_)
    exact (hnone object m id heq hm).1
  | accepted _ object _ m id hm hnone _ svc _ reply =>
    have hquiet : requested ((XpcServer.isMessageSignatureValid os c calls.validation).1 ++
        [.accepted c svc.auth] ++ [XpcServer.sendReply c calls reply]) = none := by
      rw [requested_append, requested_append, requested_isMessageSignatureValid,
        requested_sendReply]
      rfl
    rw [hquiet]
    refine iff_of_false requested_nil_ne (not_asks_of_connection fun object' m' id' heq hm' ↦ ?_)
    obtain rfl := XpcEvent.message.inj heq
    obtain rfl := Option.some.inj (hm.context.symm.trans hm'.context)
    exact hnone
  | dispatched _ object _ m id hm svc hsvc reply =>
    have hcalled : requested ((XpcServer.isMessageSignatureValid os c calls.validation).1 ++
        .dispatched c :: (XpcServer.handleOne c svc m calls).1 ++
          [XpcServer.sendReply c calls reply]) =
        requested (XpcServer.handleOne c svc m calls).1 := by
      rw [requested_append, requested_append, requested_isMessageSignatureValid,
        requested_sendReply, Option.none_or]
      exact Option.or_none
    rw [hcalled, requested_handleOne]
    constructor
    · rintro ⟨htype, hpayload, hgranted⟩
      exact ⟨c, object, calls, m, id, svc, rfl, hm, hsvc, htype, hpayload, hgranted⟩
    · rintro ⟨c', object', calls', m', id', svc', hlabel, hm', hsvc', hrest⟩
      cases hlabel
      obtain rfl := Option.some.inj (hm.unwrap.symm.trans hm'.unwrap)
      exact hrest

/-- **What an event of the server tells the service to set** is what a client asks for. -/
theorem requested_recorded (hstep : (XpcServer.system os).step server l server') :
    requested (XpcServer.recorded ⟨server, l, server'⟩) = some state ↔ Asks os server l state := by
  obtain ⟨events, server₁, hdoes, rfl, hrecorded⟩ := XpcServer.does_of_step hstep
  rw [hrecorded]
  cases l with
  | message c event calls => exact requested_of_does_message hdoes
  | arrive r v =>
    have hquiet : requested events = none := by
      refine requested_eq_none fun c operation hmem ↦ ?_
      obtain ⟨-, -, heq⟩ | ⟨-, heq⟩ | heq | heq := XpcServer.eq_of_mem_arrive hdoes hmem
      all_goals exact Event.noConfusion heq
    rw [hquiet]
    exact iff_of_false requested_nil_ne (by simp [Asks])
  | finalise c =>
    cases hdoes
    exact iff_of_false requested_nil_ne (by simp [Asks])

/-! ### What is written -/

/-- The calls of the system succeed that write a state. -/
structure Stores (o : CallOutcomes) (prefs : SystemConfiguration.System) (state : ProxyState) :
    Prop where
  lock : o.lock = true
  target : prefs.target? ≠ none
  host : state.host ≠ []
  encodable : SystemConfiguration.encodable state.host = true
  setConfiguration : o.setConfiguration = true
  commit : o.commit = true

/-- The host name in a configuration that has been written. -/
theorem written_finish {sys : SystemConfiguration.System}
    {services : List SystemConfiguration.Service} {target : SystemConfiguration.Service}
    {copy : Option SystemConfiguration.CFDictionary} (htarget : sys.target? = some target)
    (hcopy : SystemConfiguration.writeConfiguration state target.configuration = .ok copy) :
    (SystemConfiguration.finish o sys services (some (target.withConfiguration copy))).written =
      if o.commit = true ∧ state.host ≠ [] then [state.host.cStr] else [] := by
  obtain ⟨hfound, -⟩ := SystemConfiguration.exists_of_target htarget
  have hconfig := SystemConfiguration.Service.configuration_withConfiguration hfound copy
  cases hcommit : o.commit with
  | false => simp [Report.written, SystemConfiguration.finish, hcommit]
  | true =>
    cases SystemConfiguration.written_of_writeConfiguration hcopy with
    | removed hhost =>
      simp [Report.written, SystemConfiguration.finish, hcommit, hconfig, hhost,
        SystemConfiguration.entry]
    | updated copy hostRef hhost hcreate hproxy _ _ _ =>
      have hbytes := Except.ok.inj (SystemConfiguration.cfstringAsStdString_of_create hcreate)
      simp [Report.written, SystemConfiguration.finish, hcommit, hconfig, hhost,
        SystemConfiguration.entry, hproxy, hbytes]

/-- **A call writes** the host name of the state it is given, if the calls of the system succeed. -/
theorem mem_written_setHttpProxyState (o : CallOutcomes) (state : ProxyState)
    (prefs : SystemConfiguration.System) :
    host ∈ (SystemConfiguration.setHttpProxyState o state prefs).written ↔
      Stores o prefs state ∧ host = state.host.cStr := by
  have hdoes := SystemConfiguration.does_setHttpProxyState o state prefs
  generalize SystemConfiguration.setHttpProxyState o state prefs = report at hdoes ⊢
  cases hdoes with
  | locked hlock =>
    exact iff_of_false List.not_mem_nil fun h ↦ Bool.false_ne_true (hlock.symm.trans h.1.lock)
  | headless hlock hid =>
    refine iff_of_false List.not_mem_nil fun h ↦ h.1.target ?_
    rw [SystemConfiguration.System.target?, hid]
    rfl
  | nowhere hlock hid htarget =>
    exact iff_of_false List.not_mem_nil fun h ↦ h.1.target htarget
  | crashed target hlock htarget hhost =>
    exact iff_of_false List.not_mem_nil fun h ↦
      Bool.false_ne_true (hhost.symm.trans h.1.encodable)
  | refused target hlock htarget hhost hset =>
    exact iff_of_false List.not_mem_nil fun h ↦
      Bool.false_ne_true (hset.symm.trans h.1.setConfiguration)
  | stored before after target copy hlock htarget _ _ hcopy hset =>
    have hhost := SystemConfiguration.encodable_of_writeConfiguration hcopy
    rw [written_finish htarget hcopy]
    split_ifs with hcommitted
    · rw [List.mem_singleton]
      refine (and_iff_right ?_).symm
      exact ⟨hlock, by simp [htarget], hcommitted.2, hhost, hset, hcommitted.1⟩
    · exact iff_of_false List.not_mem_nil fun h ↦ hcommitted ⟨h.1.commit, h.1.host⟩

/-- **A move writes the host name of a state**: a client asks for it, and the calls of the system
succeed. -/
def Sets (os : MacOS) (t : Move Helper Label) (state : ProxyState) : Prop :=
  ∃ l o, t.label = .serve l o ∧ Asks os t.source.server l state ∧ Stores o t.source.prefs state

theorem mem_written_of_step (hstep : Step os s l' s') :
    host ∈ s'.written ↔
      host ∈ s.written ∨ ∃ state, Sets os ⟨s, l', s'⟩ state ∧ host = state.host.cStr := by
  cases hstep with
  | change prefs =>
    refine (or_iff_left ?_).symm
    rintro ⟨state, ⟨_, _, hlabel, -⟩, -⟩
    exact nomatch hlabel
  | serve l o server hserver hcalls =>
    have hasks (state : ProxyState) :
        Sets os ⟨s, .serve l o, s.after server o
          (requested (XpcServer.recorded ⟨s.server, l, server⟩))⟩ state ↔
          requested (XpcServer.recorded ⟨s.server, l, server⟩) = some state ∧
            Stores o s.prefs state := by
      rw [requested_recorded hserver]
      constructor
      · rintro ⟨_, _, hlabel, hasks, hstores⟩
        cases hlabel
        exact ⟨hasks, hstores⟩
      · rintro ⟨hasks, hstores⟩
        exact ⟨l, o, rfl, hasks, hstores⟩
    simp only [hasks]
    cases requested (XpcServer.recorded ⟨s.server, l, server⟩) with
    | none => simp [after]
    | some state =>
      show host ∈ s.written ++ _ ↔ _
      rw [List.mem_append, mem_written_setHttpProxyState]
      simp

/-- **The host names that have been written** are those that clients have asked for. -/
theorem mem_written_iff (hrun : (system os prefs).Run h s) :
    host ∈ s.written ↔ ∃ t ∈ h, ∃ state, Sets os t state ∧ host = state.host.cStr := by
  induction hrun with
  | start hs =>
    obtain rfl : _ = _ := hs
    simp
  | @move h s s' l _ hstep ih =>
    rw [mem_written_of_step hstep, ih]
    simp [or_and_right, exists_or]

/-- **When the host names written are valid**: exactly if those are that clients ask for. -/
theorem written_valid_iff (hrun : (system os prefs).Run h s) :
    (∀ host ∈ s.written, isValidHostnameOrEmpty host = true) ↔
      ∀ t ∈ h, ∀ state, Sets os t state → isValidHostnameOrEmpty state.host.cStr = true := by
  constructor
  · intro hvalid t ht state hsets
    exact hvalid _ ((mem_written_iff hrun).2 ⟨t, ht, state, hsets, rfl⟩)
  · intro hvalid host hhost
    obtain ⟨t, ht, state, hsets, rfl⟩ := (mem_written_iff hrun).1 hhost
    exact hvalid t ht state hsets

/-! ### Two hosts -/

/-- The server, with its first client connected. -/
def connected : XpcServer where
  nextId := 2
  contexts := Function.update (fun _ ↦ none) 0 (some 1)
  arrived := 1
  trace := [.activated 0]

/-- The `Hello` of the client has been accepted. -/
def authenticated : XpcServer :=
  { connected with
    connections := Function.update (fun _ ↦ none) 1 (some ⟨0⟩)
    authorizations := 1
    trace := [.activated 0, .messageValidated 0, .accepted 0 0, .replied 0 ⟨.hello, .null⟩] }

/-- A proxy, on the port 8080. -/
def proxy (host : StdString) : ProxyState := { enabled := true, host := host, port := 8080 }

/-- The message that sets a proxy. -/
def setMessage (host : StdString) : XpcObject :=
  .dictionary
    [("t", .int64 5), ("p", .dictionary
      [("enabled", .bool true), ("host", .string host), ("port", .int64 8080)])]

/-- The client has set a proxy. -/
def answered (host : StdString) : XpcServer :=
  { authenticated with
    trace := authenticated.trace ++
      [.messageValidated 0, .dispatched 0, .granted 0 setProxyStateRightName,
        .invoked 0 (.setHttpProxyState (proxy host)), .replied 0 ⟨.setProxyState, .null⟩] }

/-- An event for which the service is not called. -/
theorem step_of_recorded {events : List Event}
    (hserver : (XpcServer.system os).step s.server l server)
    (hrecorded : XpcServer.recorded ⟨s.server, l, server⟩ = events)
    (hquiet : ∀ c operation, .invoked c operation ∉ events) :
    Step os s (.serve l o) { s with server := server } := by
  have hcalls : ∀ c event calls, l = .message c event calls →
      Consistent s.prefs o (XpcServer.recorded ⟨s.server, l, server⟩) calls := by
    rw [hrecorded]
    exact fun _ _ _ _ ↦ ⟨fun c hc ↦ absurd hc (hquiet c _), fun c _ hc ↦ absurd hc (hquiet c _)⟩
  have hstep := Step.serve l o server hserver hcalls
  rw [hrecorded, requested_eq_none hquiet] at hstep
  exact hstep

/-- A service that is there is told to set a state, and all calls of the system succeed. -/
theorem result_of_stores (hstores : Stores {} prefs state) :
    (SystemConfiguration.setHttpProxyState {} state prefs).result = .ok () := by
  have hdoes := SystemConfiguration.does_setHttpProxyState {} state prefs
  generalize SystemConfiguration.setHttpProxyState {} state prefs = report at hdoes ⊢
  cases hdoes with
  | locked hlock => exact absurd hlock (by decide)
  | headless _ hid =>
    refine absurd ?_ hstores.target
    rw [SystemConfiguration.System.target?, hid]
    rfl
  | crashed _ _ _ hhost =>
    exact absurd (hhost.symm.trans hstores.encodable) Bool.false_ne_true
  | nowhere | refused | stored => rfl

/-- The settings the client finds. -/
def found : SystemConfiguration.System :=
  SystemConfiguration.oneService SystemConfiguration.httpsConfig

/-- A client connects and says `Hello`. -/
theorem exists_run_of_hello :
    ∃ h, (system .macOS11 found).Run h { server := authenticated, prefs := found } := by
  have harrive : (XpcServer.system .macOS11).step {} (.arrive 0 {}) connected := ⟨nofun, rfl⟩
  have hhello : (XpcServer.system .macOS11).step connected
      (.message 0 (.message XpcServer.exampleHello) {}) authenticated :=
    ⟨by rintro c ⟨⟩; nofun, rfl⟩
  have hconnect : Step .macOS11 { prefs := found } (.serve (.arrive 0 {}) {})
      { server := connected, prefs := found } :=
    step_of_recorded harrive (show _ = [.activated 0] from rfl) (by simp)
  have haccept : Step .macOS11 { server := connected, prefs := found }
      (.serve (.message 0 (.message XpcServer.exampleHello) {}) {})
      { server := authenticated, prefs := found } :=
    step_of_recorded hhello
      (show _ = [.messageValidated 0, .accepted 0 0, .replied 0 ⟨.hello, .null⟩] from rfl) (by simp)
  exact ⟨_, ((Run.start rfl).move hconnect).move haccept⟩

/-- The client sets a proxy, and its host name is what is written. -/
theorem exists_run_of_setMessage (hhost : host ≠ [])
    (hencodable : SystemConfiguration.encodable host = true) :
    ∃ h s, (system .macOS11 found).Run h s ∧ ∀ name, name ∈ s.written ↔ name = host.cStr := by
  obtain ⟨h, hrun⟩ := exists_run_of_hello
  have hset : (XpcServer.system .macOS11).step authenticated
      (.message 0 (.message (setMessage host)) {}) (answered host) :=
    ⟨by rintro c ⟨⟩; nofun, rfl⟩
  have hstores : Stores {} found (proxy host) := ⟨rfl, nofun, hhost, hencodable, rfl, rfl⟩
  have hrecorded : XpcServer.recorded
      ⟨authenticated, .message 0 (.message (setMessage host)) {}, answered host⟩ =
      [.messageValidated 0, .dispatched 0, .granted 0 setProxyStateRightName,
        .invoked 0 (.setHttpProxyState (proxy host)), .replied 0 ⟨.setProxyState, .null⟩] := rfl
  have hcalls : ∀ c event calls, .message 0 (.message (setMessage host)) {} =
      XpcServer.Label.message c event calls → Consistent found {} (XpcServer.recorded
        ⟨authenticated, .message 0 (.message (setMessage host)) {}, answered host⟩) calls := by
    rintro c event calls ⟨⟩
    rw [hrecorded]
    refine ⟨fun c hc ↦ ?_, fun c state hc ↦ ?_⟩
    · simp at hc
    · obtain ⟨-, rfl⟩ : c = 0 ∧ state = proxy host := by simpa using hc
      rw [result_of_stores hstores]
      rfl
  have hstep : Step .macOS11 { server := authenticated, prefs := found }
      (.serve (.message 0 (.message (setMessage host)) {}) {}) _ :=
    .serve _ {} (answered host) hset hcalls
  refine ⟨_, _, hrun.move hstep, fun name ↦ ?_⟩
  have hrequested : requested (XpcServer.recorded
      ⟨authenticated, .message 0 (.message (setMessage host)) {}, answered host⟩) =
      some (proxy host) := by
    rw [hrecorded]
    rfl
  rw [hrequested]
  show name ∈ [] ++ _ ↔ _
  rw [List.nil_append, mem_written_setHttpProxyState]
  exact and_iff_right hstores

/-- A host name that is valid. -/
theorem localhost_written_valid :
    ∃ h s, (system .macOS11 found).Run h s ∧ s.written ≠ [] ∧
      ∀ host ∈ s.written, isValidHostnameOrEmpty host = true := by
  obtain ⟨h, s, hrun, hwritten⟩ := exists_run_of_setMessage
    (show StdString.ofString "localhost" ≠ [] by decide) (by decide)
  refine ⟨h, s, hrun, List.ne_nil_of_mem ((hwritten _).2 rfl),
    (written_valid_iff hrun).2 fun t ht state hsets ↦ ?_⟩
  have hname := (hwritten _).1 ((mem_written_iff hrun).2 ⟨t, ht, state, hsets, rfl⟩)
  rw [hname]
  decide

/-- A host name that is not, since it starts with a hyphen. -/
theorem hyphen_not_written_valid :
    ∃ h s, (system .macOS11 found).Run h s ∧
      ¬ ∀ host ∈ s.written, isValidHostnameOrEmpty host = true := by
  obtain ⟨h, s, hrun, hwritten⟩ := exists_run_of_setMessage
    (show StdString.ofString "-foo.com" ≠ [] by decide) (by decide)
  exact ⟨h, s, hrun, fun hvalid ↦ absurd (hvalid _ ((hwritten _).2 rfl)) (by decide)⟩

end Helper

end Trusty

end Amanuensis
