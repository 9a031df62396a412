import Mathlib.Logic.Relation
import Amanuensis.Transaction.Equations

/-!
# What handlers are made of

A handler that returns is a sequence of acts (`does_of_handle`): it assigns members that nobody
observes, starts an operation, notifies, reports a phase, requests a connection, releases both
connections, fails or completes. The remote connection comes in only
once, at the beginning of the handler of a connect.

What all handlers keep is then proved act by act.
-/

namespace Amanuensis

namespace Transaction

open HttpMessageParser

/-- What the handler of an operation does at a time. -/
inductive Act (op : Operation) : Machine → Machine → Prop
  /-- Members that nobody observes. -/
  | assign (m m' : Machine) (htrace : m'.trace = m.trace) (hpending : m'.pending = m.pending)
      (hstate : m'.tx.notificationState = m.tx.notificationState)
      (herror : m'.tx.error = m.tx.error) (hclient : m'.tx.client = m.tx.client)
      (hremote : m'.tx.remote = m.tx.remote) : Act op m m'
  | start (m : Machine) (o : Operation) : Act op m (m.start o)
  | tryOpen (m : Machine) (host port : QString) : Act op m (m.record (.tryOpen host port))
  | notify (m : Machine) (ns : NotificationState) (hns : ns.code ≤ 7) :
      Act op m (doNotification ns m)
  | phase (m : Machine) (mode : Mode) (phase : ParsePhase)
      (hmode : mode = .request → op = .readClientRequest) :
      Act op m (m.record (.phaseNotified mode phase))
  | release (m : Machine) : Act op m m.released
  | fail (m : Machine) (ec : ErrorCode) :
      Act op m
        (Machine.emit .transactionFailed { m with tx.error := ec, tx.notificationState := .error })
  | complete (m : Machine) : Act op m (m.emit .transactionComplete)

/-- A sequence of acts. -/
abbrev Acts (op : Operation) : Machine → Machine → Prop := Relation.ReflTransGen (Act op)

/-- The remote connection comes in. -/
inductive Opens : Operation → Machine → Machine → Prop
  | none (op : Operation) (m : Machine) : Opens op m m
  | connect (callback : OpenCallback) (m : Machine) :
      Opens (.connect callback) m { m with tx.remote := some .remote }

/-- **What a handler does**: the remote connection may come in, and a sequence of acts follows. -/
def Does (op : Operation) (m m' : Machine) : Prop := ∃ m₁, Opens op m m₁ ∧ Acts op m₁ m'

/-- Acts alone, without a remote connection to begin with. -/
theorem Acts.does {op : Operation} {m m' : Machine} (h : Acts op m m') : Does op m m' :=
  ⟨m, .none op m, h⟩

variable {op : Operation} {m m' m₁ : Machine}

/-- **What every act keeps**, a handler keeps. -/
theorem Does.keeps {I : Machine → Prop} (h : Does op m m') (hopens : ∀ m₁, Opens op m m₁ → I m₁)
    (hact : ∀ m₁ m₂, I m₁ → Act op m₁ m₂ → I m₂) : I m' := by
  obtain ⟨m₁, hopened, hacts⟩ := h
  induction hacts with
  | refl => exact hopens m₁ hopened
  | tail _ hstep ih => exact hact _ _ ih hstep

/-- Members that nobody observes are assigned first. -/
theorem Acts.assigned (h : Acts op m₁ m') (htrace : m₁.trace = m.trace)
    (hpending : m₁.pending = m.pending)
    (hstate : m₁.tx.notificationState = m.tx.notificationState)
    (herror : m₁.tx.error = m.tx.error) (hclient : m₁.tx.client = m.tx.client)
    (hremote : m₁.tx.remote = m.tx.remote) : Acts op m m' :=
  .head (.assign m m₁ htrace hpending hstate herror hclient hremote) h

/-- The mutex is not observed: a guarded body acts as it does without it. -/
theorem acts_of_lockGuard {body : Machine → Except Halt Machine}
    (hbody : ∀ m₁ m₂, body m₁ = .ok m₂ → Acts op m₁ m₂) (hm : lockGuard m body = .ok m') :
    Acts op m m' := by
  obtain ⟨m₁, hresult, rfl⟩ := exists_of_lockGuard hm
  have hlock : Acts op m { m with tx.mutex := true } :=
    .single (.assign _ _ rfl rfl rfl rfl rfl rfl)
  have hunlock : Acts op m₁ { m₁ with tx.mutex := false } :=
    .single (.assign _ _ rfl rfl rfl rfl rfl rfl)
  exact hlock.trans ((hbody _ _ hresult).trans hunlock)

/-- To release is one act. -/
theorem acts_of_releaseConnections (hm : releaseConnections m = .ok m') : Acts op m m' := by
  refine acts_of_lockGuard (fun m₁ m₂ hbody ↦ ?_) hm
  obtain rfl := Except.ok.inj hbody
  exact .single (.release m₁)

/-- To complete is to release, and to say so. -/
theorem acts_of_completeTransaction (hm : completeTransaction m = .ok m') : Acts op m m' := by
  obtain ⟨m₁, hrelease, hemit⟩ := exists_ok_of_bind hm
  obtain rfl := Except.ok.inj hemit
  exact (acts_of_releaseConnections hrelease).tail (.complete m₁)

/-- To fail is to release, to fail and to complete. -/
theorem acts_of_notifyFailure {ec : ErrorCode} (hm : notifyFailure ec m = .ok m') :
    Acts op m m' := by
  obtain ⟨m₁, hrelease, hcomplete⟩ := exists_ok_of_bind hm
  have hreleased : Acts op m m₁ := acts_of_releaseConnections hrelease
  have hfail := hreleased.tail (.fail m₁ ec)
  exact hfail.trans (acts_of_completeTransaction hcomplete)

/-- A guarded function that fails if a connection is missing, and else starts an operation. -/
theorem acts_of_guarded {missing : Machine → Prop} [DecidablePred missing] {ec : ErrorCode}
    {next : Machine → Operation}
    (hm : (lockGuard m fun m ↦
      if missing m then notifyFailure ec m else .ok (m.start (next m))) = .ok m') :
    Acts op m m' := by
  refine acts_of_lockGuard (fun m₁ m₂ hbody ↦ ?_) hm
  split_ifs at hbody
  · exact acts_of_notifyFailure hbody
  · obtain rfl := Except.ok.inj hbody
    exact .single (.start m₁ _)

/-! ### Messages -/

/-- A phase is notified, where it stands for a state, and then recorded. The phases of the request
are reported by its reads alone. -/
theorem acts_notifyPhaseChange {mode : Mode} (hmode : mode = .request → op = .readClientRequest)
    (phase : ParsePhase) (m : Machine) : Acts op m (notifyPhaseChange mode phase m) := by
  rw [notifyPhaseChange]
  cases hns : notificationOfPhase phase m.tx.notificationState with
  | none => exact .single (.phase m mode phase hmode)
  | some ns =>
    have hcode : ns.code ≤ 7 := by
      cases phase <;> simp only [notificationOfPhase] at hns <;> grind [NotificationState.code]
    have hnotify : Acts op m (doNotification ns m) := .single (.notify m ns hcode)
    exact hnotify.tail (.phase _ mode phase hmode)

/-- The phases of a read are reported one by one. -/
theorem acts_foldl (op : Operation) {mode : Mode}
    (hmode : mode = .request → op = .readClientRequest) (phases : List ParsePhase) (m : Machine) :
    Acts op m (phases.foldl (fun m phase ↦ notifyPhaseChange mode phase m) m) := by
  induction phases generalizing m with
  | nil => exact .refl
  | cons phase phases ih => exact (acts_notifyPhaseChange hmode phase m).trans (ih _)

/-- What the parser makes of a read of the request. -/
theorem acts_readRequest (data : QByteArray) (m : Machine) :
    Acts .readClientRequest m (m.readRequest data) := by
  have hfill : Acts .readClientRequest m { m with tx.readBuffer := data } :=
    .single (.assign _ _ rfl rfl rfl rfl rfl rfl)
  have hfold := acts_foldl .readClientRequest (show .request = Mode.request → _ from fun _ ↦ rfl)
    (phaseChanges m.requestCursor data) { m with tx.readBuffer := data }
  exact (hfill.trans hfold).tail (.assign _ _ rfl rfl rfl rfl rfl rfl)

/-- What the parser makes of a read of the response. -/
theorem acts_readResponse (data : QByteArray) (m : Machine) :
    Acts .readRemoteResponse m (m.readResponse data) := by
  have hfill : Acts .readRemoteResponse m
      { m with tx.readBuffer := data, tx.rawInput := m.tx.rawInput ++ data } :=
    .single (.assign _ _ rfl rfl rfl rfl rfl rfl)
  have hfold := acts_foldl .readRemoteResponse (show .response = Mode.request → _ from nofun)
    (phaseChanges m.responseCursor data)
    { m with tx.readBuffer := data, tx.rawInput := m.tx.rawInput ++ data }
  exact (hfill.trans hfold).tail (.assign _ _ rfl rfl rfl rfl rfl rfl)

/-- To open is to name the endpoint and to start the resolver. -/
theorem acts_tryOpen (host port : QString) (callback : OpenCallback) (m : Machine) :
    Acts op m (tryOpen host port callback m) := by
  have hopen : Acts op m (m.record (.tryOpen host port)) := .single (.tryOpen m host port)
  exact hopen.tail (.start _ _)

/-- Without a `Host` the exchange fails; with one it is opened. -/
theorem acts_of_openRemoteConnection (hm : openRemoteConnection m = .ok m') : Acts op m m' := by
  rw [openRemoteConnection] at hm
  split at hm
  · exact acts_of_notifyFailure hm
  · obtain rfl := Except.ok.inj hm
    exact acts_tryOpen _ _ _ _

/-- The handler of a read of the request, answer by answer of the parser. -/
theorem acts_of_onReadClientRequest {c : Completion} (hm : onReadClientRequest c m = .ok m') :
    Acts .readClientRequest m m' := by
  rw [onReadClientRequest_eq] at hm
  split at hm
  · exact (acts_of_notifyFailure hm).assigned rfl rfl rfl rfl rfl rfl
  split at hm
  · exact (acts_of_notifyFailure hm).assigned rfl rfl rfl rfl rfl rfl
  · refine (acts_readRequest c.data m).trans ?_
    split at hm
    · exact acts_of_guarded hm
    · exact acts_of_notifyFailure hm
    · split_ifs at hm
      · obtain rfl := Except.ok.inj hm
        exact acts_tryOpen _ _ _ _
      · exact .head (.notify _ .requestComplete (by decide)) (acts_of_openRemoteConnection hm)
    · exact nomatch hm
    · exact nomatch hm

/-- The handler of a read of the response, answer by answer of the parser. -/
theorem acts_of_onReadRemoteResponse {c : Completion} (hm : onReadRemoteResponse c m = .ok m') :
    Acts .readRemoteResponse m m' := by
  rw [onReadRemoteResponse_eq] at hm
  split at hm
  · exact (acts_of_notifyFailure hm).assigned rfl rfl rfl rfl rfl rfl
  split at hm
  · exact (acts_of_notifyFailure hm).assigned rfl rfl rfl rfl rfl rfl
  · refine (acts_readResponse c.data m).trans ?_
    split at hm
    · exact acts_of_guarded hm
    · exact acts_of_notifyFailure hm
    · exact .head (.notify _ .responseComplete (by decide))
        (acts_of_guarded hm)
    · exact nomatch hm
    · exact nomatch hm

/-- The handler of the write of the request. -/
theorem acts_of_onSendClientRequest {c : Completion} (hm : onSendClientRequest c m = .ok m') :
    Acts op m m' := by
  rw [onSendClientRequest] at hm
  split_ifs at hm
  · exact acts_of_notifyFailure hm
  · exact (acts_of_guarded hm).assigned rfl rfl rfl rfl rfl rfl

/-- The handler of the write of the response. -/
theorem acts_of_onSendRemoteResponse {c : Completion} (hm : onSendRemoteResponse c m = .ok m') :
    Acts op m m' := by
  rw [onSendRemoteResponse] at hm
  split_ifs at hm
  · exact acts_of_notifyFailure hm
  · exact acts_of_completeTransaction hm

/-! ### The tunnel -/

/-- A direction of the tunnel goes on, or has lost a connection. -/
theorem acts_of_sendViaTunnel {d : Direction} (hm : sendViaTunnel d m = .ok m') : Acts op m m' := by
  refine acts_of_lockGuard (fun m₁ m₂ hbody ↦ ?_) hm
  split_ifs at hbody
  · obtain rfl := Except.ok.inj hbody
    exact .refl
  · obtain rfl := Except.ok.inj hbody
    exact .single (.start m₁ _)

/-- The handler of a read in the tunnel. -/
theorem acts_of_onTunnelRead {d : Direction} {c : Completion} (hm : onTunnelRead d c m = .ok m') :
    Acts op m m' := by
  have hfill : Acts op m (fillBuffer d c.data m) := by
    cases d <;> exact .single (.assign _ _ rfl rfl rfl rfl rfl rfl)
  refine hfill.trans ?_
  rw [onTunnelRead] at hm
  split_ifs at hm
  · exact acts_of_releaseConnections hm
  · exact acts_of_notifyFailure hm
  · refine acts_of_lockGuard (fun m₁ m₂ hbody ↦ ?_) hm
    split_ifs at hbody
    · obtain rfl := Except.ok.inj hbody
      exact .refl
    · obtain rfl := Except.ok.inj hbody
      exact .single (.start m₁ _)

/-- The handler of a write in the tunnel. -/
theorem acts_of_onTunnelWrite {d : Direction} {bytes : QByteArray} {c : Completion}
    (hm : onTunnelWrite d bytes c m = .ok m') : Acts op m m' := by
  rw [onTunnelWrite] at hm
  split_ifs at hm
  · exact acts_of_notifyFailure hm
  · exact acts_of_notifyFailure hm
  · exact acts_of_sendViaTunnel hm

/-- The handler of the reply to `CONNECT`: the directions start one after the other. -/
theorem acts_of_onConnectReply {ec : ErrorCode} {success : Bool} {c : Completion}
    (hm : onConnectReply ec success c m = .ok m') : Acts op m m' := by
  rw [onConnectReply] at hm
  split_ifs at hm
  · obtain ⟨m₁, hfirst, hsecond⟩ := exists_ok_of_bind hm
    have hacts : Acts op m m₁ :=
      (acts_of_sendViaTunnel hfirst).assigned rfl rfl rfl rfl rfl rfl
    exact hacts.trans (acts_of_sendViaTunnel hsecond)
  · exact acts_of_notifyFailure hm

/-! ### Opening the remote connection -/

/-- A callback with an error does not get a connection. -/
theorem acts_of_onOpened_of_error {callback : OpenCallback} {conn : Option Connection}
    {ec : ErrorCode} (herror : ec.isError = true) (hm : onOpened callback conn ec m = .ok m') :
    Acts op m m' := by
  cases callback with
  | request =>
    rw [onOpened] at hm
    dsimp only at hm
    rw [if_pos herror] at hm
    exact acts_of_notifyFailure hm
  | tunnel =>
    rw [onOpened] at hm
    dsimp only at hm
    rw [herror] at hm
    exact acts_of_guarded hm

/-- A callback without an error begins with the connection it gets. -/
theorem does_of_onOpened {callback callback' : OpenCallback} {ec : ErrorCode}
    (herror : ec.isError = false) (hm : onOpened callback (some .remote) ec m = .ok m') :
    Does (.connect callback') m m' := by
  refine ⟨_, .connect callback' m, ?_⟩
  cases callback with
  | request =>
    rw [onOpened] at hm
    dsimp only at hm
    rw [if_neg (by simp [herror])] at hm
    exact acts_of_guarded hm
  | tunnel =>
    rw [onOpened] at hm
    dsimp only at hm
    rw [herror] at hm
    exact acts_of_guarded hm

/-- **Every handler that returns** does a sequence of acts. -/
theorem does_of_handle {c : Completion} (hm : handle op c m = .ok m') : Does op m m' := by
  cases op with
  | readClientRequest => exact (acts_of_onReadClientRequest hm).does
  | resolve callback =>
    replace hm : onResolve callback c m = .ok m' := hm
    rw [onResolve] at hm
    split_ifs at hm with herror
    · exact (acts_of_onOpened_of_error herror hm).does
    · obtain rfl := Except.ok.inj hm
      exact Acts.does (.single (.start m _))
  | connect callback =>
    replace hm : onConnect callback c m = .ok m' := hm
    rw [onConnect] at hm
    split_ifs at hm with herror
    · exact (acts_of_onOpened_of_error herror hm).does
    · exact does_of_onOpened (by simpa using herror) hm
  | sendRequest bytes => exact (acts_of_onSendClientRequest hm).does
  | readRemoteResponse => exact (acts_of_onReadRemoteResponse hm).does
  | sendResponse bytes => exact (acts_of_onSendRemoteResponse hm).does
  | connectReply ec success bytes => exact (acts_of_onConnectReply hm).does
  | tunnelRead d => exact (acts_of_onTunnelRead hm).does
  | tunnelWrite d bytes => exact (acts_of_onTunnelWrite hm).does

end Transaction

end Amanuensis
