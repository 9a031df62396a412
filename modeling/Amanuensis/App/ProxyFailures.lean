import Amanuensis.App.MacProxy
import Amanuensis.Transaction.State

/-!
# Calls of the proxy that fail

`MacProxy::enable` and `MacProxy::disable` with all that can go wrong: the helper cannot be
installed, no rights are granted, a call of the helper throws, and it throws before or after the
helper has written the settings. The destructor calls `disable` and swallows what it throws.

Whatever fails, what is kept are the settings to go back to, so that a call of `disable` that
returns leaves them switched off (`switchesBack_of_run`). But `enabled_` is set last. When a call
throws after the settings have been written, `enabled_` is wrong from then on, and later calls do
nothing or do it again: it tells whether the system points to this proxy exactly if each such call
has been followed by one of its kind that returns (`enabled_tells_iff`).
-/

open LabelledSystem

namespace Amanuensis

namespace MacProxy

open Trusty

/-! ### Enabling and disabling -/

/-- How a call of the helper ends that writes settings. -/
inductive Reply
  /-- With an exception, before they are written. -/
  | refused
  /-- With an exception, after they are written. -/
  | lost
  | received
  deriving DecidableEq, Repr

/-- How the calls end that enabling makes. -/
structure Circumstances where
  /-- The version that is installed, unless there is an exception on the way to it. -/
  version : Option UInt32 := some 1
  /-- The error of each attempt to install the helper. -/
  bless : Fin 3 → ErrorCode := fun _ ↦ {}
  /-- The client is created, with the rights. -/
  client : Bool := true
  /-- The settings are read. -/
  get : Bool := true
  set : Reply := .received

/-- `kToolVersion`. -/
def toolVersion : UInt32 := 1

/-- `should_install_helper_tool`, by the version that the helper tells; `none` if it cannot be
asked. -/
def shouldInstallHelperTool : Option UInt32 → Bool
  | some version => version < toolVersion
  | none => true

/-- The loop that installs the helper: it ends with the first attempt without error. -/
def installHelperTool : List ErrorCode → ErrorCode → ErrorCode
  | [], ec => ec
  | ec :: ecs, _ => if ec.isError then installHelperTool ecs ec else ec

/-- The settings are read. An exception leaves the setup behind. -/
def getHttpProxyState (ok : Bool) (s : Setup) : Except Setup ProxyState :=
  if ok then
    match XpcServiceClient.getHttpProxyState s.prefs with
    | .ok state => .ok state
    | .error _ => .error s
  else .error s

/-- `set_http_proxy_state`, which may be refused, and whose reply may be lost. -/
def setHttpProxyState (reply : Reply) (state : ProxyState) (s : Setup) : Except Setup Setup :=
  match reply with
  | .refused => .error s
  | .lost =>
    match XpcServiceClient.setHttpProxyState state s.prefs with
    | .ok prefs => .error { s with prefs := prefs }
    | .error _ => .error s
  | .received =>
    match XpcServiceClient.setHttpProxyState state s.prefs with
    | .ok prefs => .ok { s with prefs := prefs }
    | .error _ => .error s

/-- `MacProxy::enable`. An exception leaves the state that is given with it. -/
def tryEnable (c : Circumstances) (s : Setup) : Except Setup Setup :=
  if s.proxy.enabled then .ok s
  else if shouldInstallHelperTool c.version ∧
      (installHelperTool (List.ofFn c.bless) {}).isError then .error s
  else if ¬ c.client then .error s
  else do
    let currentState ← getHttpProxyState c.get s
    if ¬ currentState.enabled ∨ currentState.host ≠ localhost ∨
        currentState.port ≠ s.proxy.port then
      -- what is replaced is kept before it is replaced
      let kept : Setup :=
        { s with
          proxy.hostnameToRestore := currentState.host
          proxy.portToRestore := currentState.port }
      let newState : ProxyState := { enabled := true, host := localhost, port := s.proxy.port }
      let s ← setHttpProxyState c.set newState kept
      return { s with proxy.enabled := true }
    else return { s with proxy.enabled := true }

/-- `MacProxy::disable`. An exception leaves the state that is given with it. -/
def tryDisable (client : Bool) (set : Reply) (s : Setup) : Except Setup Setup :=
  if s.proxy.enabled then
    if ¬ client then .error s
    else do
      let newState : ProxyState :=
        { enabled := false, host := s.proxy.hostnameToRestore, port := s.proxy.portToRestore }
      let s ← setHttpProxyState set newState s
      return { s with proxy.enabled := false }
  else .ok s

/-- A call, and how its own calls end. -/
inductive Attempt
  | enable (c : Circumstances)
  | disable (client : Bool) (set : Reply)

namespace Attempt

/-- What an attempt does. -/
def apply : Attempt → Setup → Except Setup Setup
  | enable c => tryEnable c
  | disable client set => tryDisable client set

/-- The call that is attempted. -/
def call : Attempt → Call
  | enable _ => .enable
  | disable _ _ => .disable

end Attempt

/-- The setup after a call, whether it has returned or thrown. -/
def left : Except Setup Setup → Setup
  | .ok s => s
  | .error s => s

/-- **The calls on one proxy**, when anything may fail; nobody else changes the preferences. -/
def attempts (s₀ : Setup) : LabelledSystem Setup Attempt where
  init s := s = s₀
  step s attempt s' := left (attempt.apply s) = s'

variable {s₀ s s' : Setup} {c : Circumstances} {r : Except Setup Setup} {state₀ state : ProxyState}
  {prefs : Preferences} {h : List (Move Setup Attempt)} {t : Move Setup Attempt}

/-! ### What a call does -/

/-- The settings are read as pointing to the proxy. -/
def PointsHere (proxy : MacProxy) (state : ProxyState) : Prop :=
  state.enabled = true ∧ state.host.cStr = localhost ∧ state.port = proxy.port

/-- What is written to point to the proxy. -/
def here (proxy : MacProxy) : ProxyState :=
  { enabled := true, host := localhost, port := proxy.port }

/-- What is written to switch the proxy off. -/
def back (proxy : MacProxy) : ProxyState :=
  { enabled := false, host := proxy.hostnameToRestore, port := proxy.portToRestore }

/-- The setup when the settings have been kept. -/
def keep (state : ProxyState) (s : Setup) : Setup :=
  { s with proxy.hostnameToRestore := state.host.cStr, proxy.portToRestore := state.port }

/-- **A call of `enable`**, case by case. -/
inductive Enables (s : Setup) : Except Setup Setup → Prop
  | already (henabled : s.proxy.enabled = true) : Enables s (.ok s)
  | failed (hdisabled : s.proxy.enabled = false) : Enables s (.error s)
  | pointing (state : ProxyState) (hdisabled : s.proxy.enabled = false)
    (hstate : settings s = .ok state) (hpoints : PointsHere s.proxy state) :
    Enables s (.ok { s with proxy.enabled := true })
  | refused (state : ProxyState) (hdisabled : s.proxy.enabled = false)
    (hstate : settings s = .ok state) (hpoints : ¬ PointsHere s.proxy state) :
    Enables s (.error (keep state s))
  | lost (state : ProxyState) (prefs : Preferences) (hdisabled : s.proxy.enabled = false)
    (hstate : settings s = .ok state) (hpoints : ¬ PointsHere s.proxy state)
    (hset : XpcServiceClient.setHttpProxyState (here s.proxy) s.prefs = .ok prefs) :
    Enables s (.error { keep state s with prefs := prefs })
  | received (state : ProxyState) (prefs : Preferences) (hdisabled : s.proxy.enabled = false)
    (hstate : settings s = .ok state) (hpoints : ¬ PointsHere s.proxy state)
    (hset : XpcServiceClient.setHttpProxyState (here s.proxy) s.prefs = .ok prefs) :
    Enables s (.ok { keep state s with prefs := prefs, proxy.enabled := true })

/-- **A call of `disable`**, case by case. -/
inductive Disables (s : Setup) : Except Setup Setup → Prop
  | already (hdisabled : s.proxy.enabled = false) : Disables s (.ok s)
  | failed (henabled : s.proxy.enabled = true) : Disables s (.error s)
  | lost (prefs : Preferences) (henabled : s.proxy.enabled = true)
    (hset : XpcServiceClient.setHttpProxyState (back s.proxy) s.prefs = .ok prefs) :
    Disables s (.error { s with prefs := prefs })
  | received (prefs : Preferences) (henabled : s.proxy.enabled = true)
    (hset : XpcServiceClient.setHttpProxyState (back s.proxy) s.prefs = .ok prefs) :
    Disables s (.ok { s with prefs := prefs, proxy.enabled := false })

/-- A call that writes settings. -/
theorem setHttpProxyState_cases (reply : Reply) (state : ProxyState) (s : Setup) :
    setHttpProxyState reply state s = .error s ∨
      ∃ prefs, XpcServiceClient.setHttpProxyState state s.prefs = .ok prefs ∧
        (setHttpProxyState reply state s = .error { s with prefs := prefs } ∨
          setHttpProxyState reply state s = .ok { s with prefs := prefs }) := by
  cases hset : XpcServiceClient.setHttpProxyState state s.prefs with
  | error what => cases reply <;> simp [setHttpProxyState, hset]
  | ok prefs => cases reply <;> simp [setHttpProxyState, hset]

theorem enables_tryEnable (c : Circumstances) (s : Setup) : Enables s (tryEnable c s) := by
  by_cases henabled : s.proxy.enabled = true
  · rw [tryEnable, if_pos henabled]
    exact .already henabled
  rw [tryEnable, if_neg henabled]
  replace henabled : s.proxy.enabled = false := by simpa using henabled
  split
  next => exact .failed henabled
  next =>
  split
  next => exact .failed henabled
  next =>
  cases hget : getHttpProxyState c.get s with
  | error s' =>
    obtain rfl : s' = s := by
      rw [getHttpProxyState] at hget
      grind
    exact .failed henabled
  | ok read =>
    obtain ⟨state, hstate, rfl⟩ : ∃ state, settings s = .ok state ∧
        read = { state with host := state.host.cStr } := by
      rw [getHttpProxyState] at hget
      have hread : XpcServiceClient.getHttpProxyState s.prefs = .ok read := by grind
      exact exists_of_getHttpProxyState hread
    show Enables s (if _ then _ else _)
    split
    next hnot =>
      have hpoints : ¬ PointsHere s.proxy state := fun ⟨h₁, h₂, h₃⟩ ↦ by
        simp [h₁, h₂, h₃] at hnot
      show Enables s (setHttpProxyState c.set (here s.proxy) (keep state s) >>= fun s' ↦
        .ok { s' with proxy.enabled := true })
      obtain hset | ⟨prefs, hset, heq | heq⟩ :=
        setHttpProxyState_cases c.set (here s.proxy) (keep state s)
      · rw [hset]
        exact .refused state henabled hstate hpoints
      · rw [heq]
        exact .lost state prefs henabled hstate hpoints hset
      · rw [heq]
        exact .received state prefs henabled hstate hpoints hset
    next hnot =>
      refine .pointing state henabled hstate ?_
      rw [PointsHere]
      grind

theorem disables_tryDisable (client : Bool) (set : Reply) (s : Setup) :
    Disables s (tryDisable client set s) := by
  by_cases henabled : s.proxy.enabled = true
  · rw [tryDisable, if_pos henabled]
    split
    next => exact .failed henabled
    next =>
    show Disables s (setHttpProxyState set (back s.proxy) s >>= fun s' ↦
      .ok { s' with proxy.enabled := false })
    obtain hset | ⟨prefs, hset, heq | heq⟩ := setHttpProxyState_cases set (back s.proxy) s
    · rw [hset]
      exact .failed henabled
    · rw [heq]
      exact .lost prefs henabled hset
    · rw [heq]
      exact .received prefs henabled hset
  · rw [tryDisable, if_neg henabled]
    exact .already (by simpa using henabled)

/-- The attempt in which nothing fails. -/
def Call.attempt : Call → Attempt
  | .enable => .enable {}
  | .disable => .disable true .received

theorem getHttpProxyState_of_ok {read : ProxyState}
    (hget : XpcServiceClient.getHttpProxyState s.prefs = .ok read) :
    getHttpProxyState true s = .ok read := by
  rw [getHttpProxyState, if_pos rfl, hget]

theorem setHttpProxyState_of_ok
    (hset : XpcServiceClient.setHttpProxyState state s.prefs = .ok prefs) :
    setHttpProxyState .received state s = .ok { s with prefs := prefs } := by
  simp only [setHttpProxyState, hset]

/-- **Calls that succeed** are attempts in which nothing fails. -/
theorem apply_attempt_of_ok {call : Call} (happly : call.apply s = .ok s') :
    call.attempt.apply s = .ok s' := by
  cases call with
  | enable =>
    replace happly : enable s = .ok s' := happly
    show tryEnable {} s = .ok s'
    rw [enable] at happly
    rw [tryEnable]
    by_cases henabled : s.proxy.enabled = true
    · rw [if_pos henabled] at happly ⊢
      rw [Except.ok.inj happly]
    rw [if_neg henabled] at happly ⊢
    obtain ⟨read, hget, hrest⟩ := exists_ok_of_bind happly
    rw [if_neg fun h ↦ absurd h.1 (by decide), if_neg (by simp), getHttpProxyState_of_ok hget]
    show (if _ then _ else _) = _
    split_ifs at hrest ⊢ with hnot
    · obtain ⟨prefs, hset, hrest⟩ := exists_ok_of_bind hrest
      have hkept : XpcServiceClient.setHttpProxyState
          { enabled := true, host := localhost, port := s.proxy.port }
          (Setup.mk { s.proxy with hostnameToRestore := read.host, portToRestore := read.port }
            s.prefs).prefs = .ok prefs := hset
      rw [setHttpProxyState_of_ok hkept, ← Except.ok.inj hrest]
      rfl
    · rw [← Except.ok.inj hrest]
      rfl
  | disable =>
    replace happly : disable s = .ok s' := happly
    show tryDisable true .received s = .ok s'
    rw [disable] at happly
    rw [tryDisable]
    by_cases henabled : s.proxy.enabled = true
    · rw [if_pos henabled] at happly ⊢
      obtain ⟨prefs, hset, hrest⟩ := exists_ok_of_bind happly
      show (setHttpProxyState .received (back s.proxy) s >>= fun s' ↦
        .ok { s' with proxy.enabled := false }) = _
      have hreceived :
          setHttpProxyState .received (back s.proxy) s = .ok { s with prefs := prefs } :=
        setHttpProxyState_of_ok hset
      rw [hreceived, ← Except.ok.inj hrest]
      rfl
    · rw [if_neg henabled] at happly ⊢
      rw [Except.ok.inj happly]

theorem step_attempts_of_step {call : Call} (hstep : (system s₀).step s call s') :
    (attempts s₀).step s call.attempt s' :=
  congrArg left (apply_attempt_of_ok hstep)

/-! ### Settings that are written -/

/-- What is read back of settings that a client has written. -/
def written (s : Setup) (state : ProxyState) : ProxyState :=
  settled s { state with host := state.host.cStr }

/-- Settings that are switched off. -/
def off (s : Setup) (state : ProxyState) : ProxyState := written s { state with enabled := false }

theorem settings_of_set (proxy : MacProxy)
    (hset : XpcServiceClient.setHttpProxyState state s.prefs = .ok prefs) :
    settings { proxy := proxy, prefs := prefs } = .ok (written s state) ∧
      writable { proxy := proxy, prefs := prefs } = writable s := by
  rw [setHttpProxyState_eq] at hset
  exact TrustyService.getHttpProxyState_of_set hset

theorem written_of_not_writable (hnot : writable s = false) (state : ProxyState) :
    written s state = .none := by
  rw [written, settled, hnot]
  rfl

theorem written_congr (hsame : writable s' = writable s) : written s' = written s := by
  funext state
  rw [written, written, settled, settled, hsame]

theorem cStr_localhost : localhost.cStr = localhost := by decide

/-- Nothing is lost of what points to the proxy. -/
theorem written_here (hwritable : writable s = true) (proxy : MacProxy) :
    written s (here proxy) = here proxy := by
  have hne : localhost ≠ [] := by decide
  rw [written, settled, hwritable, if_pos rfl, TrustyService.settled, here, cStr_localhost,
    cStr_localhost, if_pos hne]

/-- What is kept of settings leads back to them, switched off. -/
theorem written_back_keep (s₀ : Setup) (state : ProxyState) (s : Setup) :
    written s₀ (back (keep state s).proxy) = off s₀ state := by
  rw [off, written, written, back, keep, StdString.cStr_cStr]

/-- Settings that have been switched off lead back to themselves. -/
theorem off_off (s : Setup) (state : ProxyState) : off s (off s state) = off s state := by
  cases hwritable : writable s with
  | false => rw [off, written_of_not_writable hwritable, off, written_of_not_writable hwritable]
  | true =>
    by_cases hhost : state.host.cStr = []
    · simp [off, written, settled, TrustyService.settled, hwritable, hhost, ProxyState.none]
      decide
    · simp [off, written, settled, TrustyService.settled, hwritable, hhost, StdString.cStr_cStr]

/-! ### What is kept -/

/-- **What a run may find and leave**: the settings it starts from, those that point to the proxy
and those that are switched off; and what has been kept leads back. -/
structure Leads (s₀ : Setup) (state₀ : ProxyState) (s : Setup) : Prop where
  port : s.proxy.port = s₀.proxy.port
  writable : writable s = writable s₀
  settings : settings s = .ok state₀ ∨ settings s = .ok (written s₀ (here s₀.proxy)) ∨
    settings s = .ok (off s₀ state₀)
  kept : s.proxy.enabled = true ∨ MacProxy.settings s = .ok (written s₀ (here s₀.proxy)) →
    written s₀ (back s.proxy) = off s₀ state₀

theorem here_congr {proxy proxy' : MacProxy} (hport : proxy'.port = proxy.port) :
    here proxy' = here proxy := by
  rw [here, here, hport]

/-- Settings that do not point to the proxy are those of the start, or switched off. -/
theorem Leads.off_eq (hleads : Leads s₀ state₀ s) (hstate : MacProxy.settings s = .ok state)
    (hpoints : ¬ PointsHere s.proxy state) : off s₀ state = off s₀ state₀ := by
  obtain hread | hread | hread := hleads.settings
  · rw [Except.ok.inj (hstate.symm.trans hread)]
  · obtain rfl := Except.ok.inj (hstate.symm.trans hread)
    cases hwritable : MacProxy.writable s₀ with
    | false => rw [off, off, written_of_not_writable hwritable, written_of_not_writable hwritable]
    | true =>
      refine absurd ?_ hpoints
      rw [written_here hwritable]
      exact ⟨rfl, cStr_localhost, hleads.port.symm⟩
  · obtain rfl := Except.ok.inj (hstate.symm.trans hread)
    exact off_off s₀ state₀

theorem enabled_off (s : Setup) (state : ProxyState) : (off s state).enabled = false :=
  enabled_settled rfl

/-- Settings that point to the proxy have been written. -/
theorem Leads.eq_of_pointsHere (hleads : Leads s₀ state₀ s)
    (hforeign : ¬ PointsHere s₀.proxy state₀) (hstate : MacProxy.settings s = .ok state)
    (hpoints : PointsHere s.proxy state) :
    MacProxy.settings s = .ok (written s₀ (here s₀.proxy)) := by
  obtain ⟨henabled, hhost, hport⟩ := hpoints
  obtain hread | hread | hread := hleads.settings
  · obtain rfl := Except.ok.inj (hstate.symm.trans hread)
    exact absurd ⟨henabled, hhost, hport.trans hleads.port⟩ hforeign
  · exact hread
  · obtain rfl := Except.ok.inj (hstate.symm.trans hread)
    exact absurd henabled (by simp [enabled_off])

/-- What is written to point to the proxy. -/
theorem Leads.settings_of_here (hleads : Leads s₀ state₀ s) (proxy : MacProxy)
    (hset : XpcServiceClient.setHttpProxyState (here s.proxy) s.prefs = .ok prefs) :
    MacProxy.settings ⟨proxy, prefs⟩ = .ok (written s₀ (here s₀.proxy)) ∧
      MacProxy.writable ⟨proxy, prefs⟩ = MacProxy.writable s₀ := by
  have hread := settings_of_set proxy hset
  rwa [written_congr hleads.writable, here_congr hleads.port, hleads.writable] at hread

/-- A call of `enable` keeps what leads back. -/
theorem Leads.enable (hleads : Leads s₀ state₀ s) (hforeign : ¬ PointsHere s₀.proxy state₀)
    (henables : Enables s r) : Leads s₀ state₀ (left r) := by
  have hback {state : ProxyState} (hstate : MacProxy.settings s = .ok state)
      (hpoints : ¬ PointsHere s.proxy state) :
      written s₀ (back (keep state s).proxy) = off s₀ state₀ :=
    (written_back_keep s₀ state s).trans (hleads.off_eq hstate hpoints)
  cases henables with
  | already | failed => exact hleads
  | pointing state hdisabled hstate hpoints =>
    have hread := hleads.eq_of_pointsHere hforeign hstate hpoints
    exact ⟨hleads.port, hleads.writable, .inr (.inl hread), fun _ ↦ hleads.kept (.inr hread)⟩
  | refused state hdisabled hstate hpoints =>
    exact ⟨hleads.port, hleads.writable, hleads.settings, fun _ ↦ hback hstate hpoints⟩
  | lost state prefs hdisabled hstate hpoints hset
  | received state prefs hdisabled hstate hpoints hset =>
    obtain ⟨hsettings, hwritable⟩ := hleads.settings_of_here _ hset
    exact ⟨hleads.port, hwritable, .inr (.inl hsettings), fun _ ↦ hback hstate hpoints⟩

/-- What is written to switch back. -/
theorem Leads.settings_of_back (hleads : Leads s₀ state₀ s) (henabled : s.proxy.enabled = true)
    (proxy : MacProxy)
    (hset : XpcServiceClient.setHttpProxyState (back s.proxy) s.prefs = .ok prefs) :
    MacProxy.settings ⟨proxy, prefs⟩ = .ok (off s₀ state₀) ∧
      MacProxy.writable ⟨proxy, prefs⟩ = MacProxy.writable s₀ := by
  have hread := settings_of_set proxy hset
  rwa [written_congr hleads.writable, hleads.writable, hleads.kept (.inl henabled)] at hread

/-- A call of `disable` switches back. -/
theorem Leads.disable (hleads : Leads s₀ state₀ s) (hdisables : Disables s r) :
    Leads s₀ state₀ (left r) := by
  cases hdisables with
  | already | failed => exact hleads
  | lost prefs henabled hset | received prefs henabled hset =>
    obtain ⟨hsettings, hwritable⟩ := hleads.settings_of_back henabled _ hset
    exact ⟨hleads.port, hwritable, .inr (.inr hsettings), fun _ ↦ hleads.kept (.inl henabled)⟩

theorem leads_of_run (hs₀ : s₀.proxy.enabled = false) (hstate : settings s₀ = .ok state₀)
    (hforeign : ¬ PointsHere s₀.proxy state₀) (hrun : (attempts s₀).Run h s) :
    Leads s₀ state₀ s := by
  refine hrun.invariant (fun s hs ↦ ?_) fun s attempt s' hleads hstep ↦ ?_
  · obtain rfl : s = s₀ := hs
    refine ⟨rfl, rfl, .inl hstate, ?_⟩
    rintro (henabled | hread)
    · exact absurd (hs₀.symm.trans henabled) (by simp)
    · obtain rfl := Except.ok.inj (hstate.symm.trans hread)
      cases hwritable : writable s with
      | false => rw [off, written_of_not_writable hwritable, written_of_not_writable hwritable]
      | true =>
        refine absurd ?_ hforeign
        rw [written_here hwritable]
        exact ⟨rfl, cStr_localhost, rfl⟩
  · obtain rfl : left (attempt.apply s) = s' := hstep
    cases attempt with
    | enable c => exact hleads.enable hforeign (enables_tryEnable c s)
    | disable client set => exact hleads.disable (disables_tryDisable client set s)

/-- The call returns. -/
def Returned (t : Move Setup Attempt) : Prop := (t.label.apply t.source).isOk = true

instance : DecidablePred Returned := fun _ ↦ inferInstanceAs (Decidable (_ = _))

theorem not_isOk_error (s : Setup) : ¬ (Except.error s : Except Setup Setup).isOk = true :=
  Bool.false_ne_true

/-- **A call that switches the proxy off and returns** has switched off the settings that were there
at the start, and that are there again if they are such that they can be. -/
theorem switchesBack_of_run (port portToRestore : Int32) (initial : Preferences)
    (hstate : TrustyService.getHttpProxyState initial = .ok state₀)
    (hforeign : ¬ PointsHere (constructed port portToRestore initial).proxy state₀)
    (hrun : (attempts (constructed port portToRestore initial)).Run h s) :
    ∀ t ∈ h, t.label.call = .disable → t.source.proxy.enabled = true → Returned t →
      settings t.target = .ok (off (constructed port portToRestore initial) state₀) ∧
        (settings t.target = .ok state₀ ↔ Restorable state₀) := by
  have hstart : settings (constructed port portToRestore initial) = .ok state₀ := hstate
  intro t ht hcall henabled hreturned
  obtain ⟨h₁, -, hbefore, hstep⟩ := hrun.exists_of_mem ht
  have hleads := leads_of_run rfl hstart hforeign hbefore
  obtain ⟨source, attempt, target⟩ := t
  cases attempt with
  | enable c => exact absurd hcall (by simp [Attempt.call])
  | disable client set =>
    have hdisables := disables_tryDisable client set source
    replace hstep : left (tryDisable client set source) = target := hstep
    replace hreturned : (tryDisable client set source).isOk = true := hreturned
    have hoff : settings target = .ok (off (constructed port portToRestore initial) state₀) := by
      rw [← hstep]
      generalize tryDisable client set source = r at hdisables hreturned
      cases hdisables with
      | already hdisabled => exact absurd (hdisabled.symm.trans henabled) (by simp)
      | failed | lost => exact absurd hreturned (not_isOk_error _)
      | received prefs _ hset => exact (hleads.settings_of_back henabled _ hset).1
    refine ⟨hoff, ?_⟩
    rw [hoff, Except.ok.injEq]
    have hsettled := settled_eq_iff (s := constructed port portToRestore initial) hstart
    rwa [StdString.cStr_cStr] at hsettled

/-! ### What `enabled_` tells -/

variable {call : Call}

/-- A call that throws although the settings have been written. -/
def Unreported (call : Call) (t : Move Setup Attempt) : Prop :=
  t.label.call = call ∧ ¬ Returned t ∧ settings t.target ≠ settings t.source

/-- A call that returns. -/
def Reported (call : Call) (t : Move Setup Attempt) : Prop := t.label.call = call ∧ Returned t

theorem followed_of_returned (hcall : t.label.call = call) (hreturned : Returned t) :
    Followed (Unreported call) (Reported call) (h ++ [t]) :=
  followed_concat_of_goal (fun hunreported ↦ hunreported.2.1 hreturned) ⟨hcall, hreturned⟩

/-- Calls of the other kind do not count. -/
theorem followed_of_call_ne (hcall : t.label.call ≠ call) :
    Followed (Unreported call) (Reported call) (h ++ [t]) ↔
      Followed (Unreported call) (Reported call) h :=
  followed_concat_iff (fun hunreported ↦ hcall hunreported.1) fun hreported ↦ hcall hreported.1

theorem followed_of_same (hthrown : ¬ Returned t)
    (hsame : settings t.target = settings t.source) :
    Followed (Unreported call) (Reported call) (h ++ [t]) ↔
      Followed (Unreported call) (Reported call) h :=
  followed_concat_iff (fun hunreported ↦ hunreported.2.2 hsame)
    fun hreported ↦ hthrown hreported.2

/-- **How far `enabled_` can be trusted**: whether the system points to the proxy, and the calls
that have not been made up for. -/
inductive Tells (s₀ : Setup) (h : List (Move Setup Attempt)) (s : Setup) : Prop
  | disabled (henabled : s.proxy.enabled = false)
      (hsettings : settings s ≠ .ok (here s₀.proxy))
      (hfollowed : ∀ call, Followed (Unreported call) (Reported call) h)
  | enabled (henabled : s.proxy.enabled = true) (hsettings : settings s = .ok (here s₀.proxy))
      (hfollowed : ∀ call, Followed (Unreported call) (Reported call) h)
  /-- The system points to the proxy, which is not known. -/
  | hidden (henabled : s.proxy.enabled = false) (hsettings : settings s = .ok (here s₀.proxy))
      (hnot : ¬ Followed (Unreported .enable) (Reported .enable) h)
      (hfollowed : Followed (Unreported .disable) (Reported .disable) h)
  /-- The system does not point to the proxy any more. -/
  | stale (henabled : s.proxy.enabled = true) (hsettings : settings s ≠ .ok (here s₀.proxy))
      (hfollowed : Followed (Unreported .enable) (Reported .enable) h)
      (hnot : ¬ Followed (Unreported .disable) (Reported .disable) h)

theorem Tells.followed_enable (htells : Tells s₀ h s) (henabled : s.proxy.enabled = true) :
    Followed (Unreported .enable) (Reported .enable) h := by
  cases htells with
  | disabled hdisabled | hidden hdisabled =>
    exact absurd (hdisabled.symm.trans henabled) (by simp)
  | enabled _ _ hfollowed => exact hfollowed .enable
  | stale _ _ hfollowed _ => exact hfollowed

theorem Tells.followed_disable (htells : Tells s₀ h s) (hdisabled : s.proxy.enabled = false) :
    Followed (Unreported .disable) (Reported .disable) h := by
  cases htells with
  | enabled henabled | stale henabled =>
    exact absurd (hdisabled.symm.trans henabled) (by simp)
  | disabled _ _ hfollowed => exact hfollowed .disable
  | hidden _ _ _ hfollowed => exact hfollowed

/-- A call that leaves what it has found, and throws or has nothing to do. -/
theorem Tells.keep (htells : Tells s₀ h s) {attempt : Attempt}
    (hreturned : Returned ⟨s, attempt, s'⟩ → (attempt.call = .enable ↔ s.proxy.enabled = true))
    (henabled : s'.proxy.enabled = s.proxy.enabled) (hsettings : settings s' = settings s) :
    Tells s₀ (h ++ [⟨s, attempt, s'⟩]) s' := by
  have hfollowed (call : Call) (hfollowed : Followed (Unreported call) (Reported call) h) :
      Followed (Unreported call) (Reported call) (h ++ [⟨s, attempt, s'⟩]) := by
    by_cases hreturned : attempt.call = call ∧ Returned ⟨s, attempt, s'⟩
    · exact followed_of_returned hreturned.1 hreturned.2
    · have hquiet : ¬ Unreported call ⟨s, attempt, s'⟩ := fun h ↦ h.2.2 hsettings
      exact (followed_concat_iff hquiet hreturned).2 hfollowed
  have hnot {call : Call} (hnot : ¬ Followed (Unreported call) (Reported call) h)
      (hcall : call = .enable ↔ s.proxy.enabled = false) :
      ¬ Followed (Unreported call) (Reported call) (h ++ [⟨s, attempt, s'⟩]) := by
    refine fun hafter ↦ hnot ((followed_concat_iff (fun hunreported ↦ hunreported.2.2 hsettings)
      fun hreported ↦ ?_).1 hafter)
    have hiff := hreturned hreported.2
    rw [hreported.1, hcall] at hiff
    cases henabled : s.proxy.enabled <;> simp [henabled] at hiff
  obtain ⟨h₁, h₂, h₃⟩ | ⟨h₁, h₂, h₃⟩ | ⟨h₁, h₂, h₃, h₄⟩ | ⟨h₁, h₂, h₃, h₄⟩ := htells
  · exact .disabled (henabled.trans h₁) (hsettings ▸ h₂) fun call ↦ hfollowed call (h₃ call)
  · exact .enabled (henabled.trans h₁) (hsettings.trans h₂) fun call ↦ hfollowed call (h₃ call)
  · exact .hidden (henabled.trans h₁) (hsettings.trans h₂) (hnot h₃ (iff_of_true rfl h₁))
      (hfollowed _ h₄)
  · exact .stale (henabled.trans h₁) (hsettings ▸ h₂) (hfollowed _ h₃)
      (hnot h₄ (iff_of_false (by simp) (by simp [h₁])))

/-- **A call of `enable`.** -/
theorem Tells.enable (htells : Tells s₀ h s) (hleads : Leads s₀ state₀ s)
    (hwritable : writable s₀ = true) (hforeign : ¬ PointsHere s₀.proxy state₀)
    (happly : tryEnable c s = r) (henables : Enables s r) :
    Tells s₀ (h ++ [⟨s, .enable c, left r⟩]) (left r) := by
  have hreturned {s' : Setup} : Returned ⟨s, .enable c, s'⟩ ↔ r.isOk = true := by
    rw [← happly]
    rfl
  have hhere := written_here hwritable s₀.proxy
  have hdifferent {state : ProxyState} (hstate : settings s = .ok state)
      (hpoints : ¬ PointsHere s.proxy state) : settings s ≠ .ok (here s₀.proxy) := by
    intro hread
    obtain rfl := Except.ok.inj (hstate.symm.trans hread)
    exact hpoints ⟨rfl, cStr_localhost, hleads.port.symm⟩
  -- enabling makes up for earlier calls
  have henabled (s' : Setup) (hok : r.isOk = true) (hdisabled : s.proxy.enabled = false)
      (call : Call) :
      Followed (Unreported call) (Reported call) (h ++ [⟨s, .enable c, s'⟩]) := by
    cases call with
    | enable => exact followed_of_returned rfl (hreturned.2 hok)
    | disable =>
      exact (followed_of_call_ne (by simp [Attempt.call])).2 (htells.followed_disable hdisabled)
  cases henables with
  | already h => exact htells.keep (fun _ ↦ iff_of_true rfl h) rfl rfl
  | failed => exact htells.keep (fun h ↦ absurd (hreturned.1 h) (not_isOk_error _)) rfl rfl
  | pointing state hdisabled hstate hpoints =>
    have hread := hleads.eq_of_pointsHere hforeign hstate hpoints
    exact .enabled rfl (hhere ▸ hread) (henabled _ rfl hdisabled)
  | refused => exact htells.keep (fun h ↦ absurd (hreturned.1 h) (not_isOk_error _)) rfl rfl
  | lost state prefs hdisabled hstate hpoints hset =>
    have hread := (hleads.settings_of_here (MacProxy.keep state s).proxy hset).1
    rw [hhere] at hread
    refine .hidden hdisabled hread (not_followed_concat ⟨rfl, fun h ↦ ?_, ?_⟩) ?_
    · exact absurd (hreturned.1 h) (not_isOk_error _)
    · exact fun hsame ↦ hdifferent hstate hpoints (hsame ▸ hread)
    · exact (followed_of_call_ne (by simp [Attempt.call])).2 (htells.followed_disable hdisabled)
  | received state prefs hdisabled hstate hpoints hset =>
    refine .enabled rfl ?_ (henabled _ rfl hdisabled)
    exact hhere ▸ (hleads.settings_of_here _ hset).1

/-- **A call of `disable`.** -/
theorem Tells.disable (htells : Tells s₀ h s) (hleads : Leads s₀ state₀ s) {client : Bool}
    {set : Reply} (happly : tryDisable client set s = r) (hdisables : Disables s r) :
    Tells s₀ (h ++ [⟨s, .disable client set, left r⟩]) (left r) := by
  have hreturned {s' : Setup} : Returned ⟨s, .disable client set, s'⟩ ↔ r.isOk = true := by
    rw [← happly]
    rfl
  have hdifferent {s' : Setup} (hread : settings s' = .ok (off s₀ state₀)) :
      settings s' ≠ .ok (here s₀.proxy) := by
    rw [hread, ne_eq, Except.ok.injEq]
    exact fun heq ↦ absurd (congrArg ProxyState.enabled heq) (by simp [enabled_off, here])
  cases hdisables with
  | already h =>
    exact htells.keep (fun _ ↦ iff_of_false (by simp [Attempt.call]) (by simp [h])) rfl rfl
  | failed => exact htells.keep (fun h ↦ absurd (hreturned.1 h) (not_isOk_error _)) rfl rfl
  | lost prefs henabled hset =>
    have hread := hdifferent (hleads.settings_of_back henabled s.proxy hset).1
    have hthrown : ¬ Returned ⟨s, .disable client set, { s with prefs := prefs }⟩ :=
      fun h ↦ absurd (hreturned.1 h) (not_isOk_error _)
    refine .stale henabled hread ?_ ?_
    · exact (followed_of_call_ne (by simp [Attempt.call])).2 (htells.followed_enable henabled)
    by_cases hsame : settings { s with prefs := prefs } = settings s
    · -- what is written was there already, so that an earlier call has not been made up for
      rw [left, followed_of_same hthrown hsame]
      cases htells with
      | disabled hdisabled | hidden hdisabled =>
        exact absurd (hdisabled.symm.trans henabled) (by simp)
      | enabled _ hsettings => exact absurd (hsame.trans hsettings) hread
      | stale _ _ _ hnot => exact hnot
    · exact not_followed_concat ⟨rfl, hthrown, hsame⟩
  | received prefs henabled hset =>
    refine .disabled rfl (hdifferent (hleads.settings_of_back henabled _ hset).1) fun call ↦ ?_
    cases call with
    | disable => exact followed_of_returned rfl (hreturned.2 rfl)
    | enable =>
      exact (followed_of_call_ne (by simp [Attempt.call])).2 (htells.followed_enable henabled)

theorem tells_of_run (hs₀ : s₀.proxy.enabled = false) (hwritable : writable s₀ = true)
    (hstate : settings s₀ = .ok state₀) (hforeign : ¬ PointsHere s₀.proxy state₀)
    (hrun : (attempts s₀).Run h s) : Tells s₀ h s := by
  induction hrun with
  | @start s hs =>
    obtain rfl : s = s₀ := hs
    refine .disabled hs₀ (fun hread ↦ hforeign ?_) fun _ ↦ followed_nil
    obtain rfl := Except.ok.inj (hstate.symm.trans hread)
    exact ⟨rfl, cStr_localhost, rfl⟩
  | @move h s s' attempt hrun hstep ih =>
    have hleads := leads_of_run hs₀ hstate hforeign hrun
    obtain rfl : left (attempt.apply s) = s' := hstep
    cases attempt with
    | enable c => exact ih.enable hleads hwritable hforeign rfl (enables_tryEnable c s)
    | disable client set => exact ih.disable hleads rfl (disables_tryDisable client set s)

/-- **What `enabled_` tells**: exactly if each call that has thrown after it had changed the
settings has been followed by one of its kind that returns, it is set while the system points to the
proxy and not otherwise. -/
theorem enabled_tells_iff (port portToRestore : Int32) (initial : Preferences)
    (hwritable : TrustyService.hasTarget initial = true)
    (hstate : TrustyService.getHttpProxyState initial = .ok state₀)
    (hforeign : ¬ PointsHere (constructed port portToRestore initial).proxy state₀)
    (hrun : (attempts (constructed port portToRestore initial)).Run h s) :
    (s.proxy.enabled = true ↔
        settings s = .ok { enabled := true, host := localhost, port := port }) ↔
      ∀ call, Followed (Unreported call) (Reported call) h := by
  have hstart : settings (constructed port portToRestore initial) = .ok state₀ := hstate
  have htarget : writable (constructed port portToRestore initial) = true := hwritable
  obtain ⟨h₁, h₂, h₃⟩ | ⟨h₁, h₂, h₃⟩ | ⟨h₁, h₂, h₃, -⟩ | ⟨h₁, h₂, -, h₄⟩ :=
    tells_of_run rfl htarget hstart hforeign hrun
  · exact iff_of_true (iff_of_false (by simp [h₁]) h₂) h₃
  · exact iff_of_true (iff_of_true h₁ h₂) h₃
  · exact iff_of_false (fun hiff ↦ absurd (hiff.2 h₂) (by simp [h₁])) fun hall ↦ h₃ (hall _)
  · exact iff_of_false (fun hiff ↦ h₂ (hiff.1 h₁)) fun hall ↦ h₄ (hall _)

/-! ### Calls that fail, by computation -/

/-- Attempts whose run passes a test. -/
theorem exists_run_of_attempts (s₀ : Setup) (labels : List Attempt)
    (test : List (Move Setup Attempt) → Setup → Prop) [∀ h s, Decidable (test h s)]
    (htest : (follow (fun s a ↦ some (left (Attempt.apply a s))) s₀ labels).any
      (fun r ↦ test r.1 r.2) = true) :
    ∃ h s, (attempts s₀).Run h s ∧ test h s :=
  Run.exists_of_follow (fun _ _ _ ↦ Option.some.inj) rfl labels test htest

/-- The helper is too old and is installed at the second attempt; its reply to the first call is
lost. -/
def unlucky : Circumstances where
  version := some 0
  bless i := if i = 0 then { value := 1 } else {}
  set := .lost

/-- Enabling works at last, and disabling after one more failure. -/
theorem unlucky_switchesBack :
    ∃ h s, (attempts (constructed 9999 0 (preferences 0 "proxy" 8080))).Run h s ∧
      ∃ t ∈ h, t.source.proxy.enabled = true ∧ settings t.target =
        .ok { enabled := false, host := StdString.ofString "proxy", port := 8080 } := by
  obtain ⟨h, s, hrun, t, ht, hcall, henabled, hreturned⟩ := exists_run_of_attempts
    (constructed 9999 0 (preferences 0 "proxy" 8080))
    [.enable unlucky, .enable { get := false }, .enable {}, .disable true .lost,
      .disable true .received]
    (fun h _ ↦ ∃ t ∈ h, t.label.call = .disable ∧ t.source.proxy.enabled = true ∧ Returned t)
    (by decide +kernel)
  refine ⟨h, s, hrun, t, ht, henabled, ?_⟩
  have hback := switchesBack_of_run 9999 0 (preferences 0 "proxy" 8080) rfl
    (fun h ↦ absurd h.1 (by decide)) hrun t ht hcall henabled hreturned
  exact hback.2.2 ⟨rfl, by decide, .inl (by decide)⟩

/-- A reply that is lost leaves the system pointing to a proxy that is not enabled. -/
theorem unlucky_not_tells :
    ∃ h s, (attempts (constructed 9999 0 (preferences 0 "proxy" 8080))).Run h s ∧
      s.proxy.enabled = false ∧
        settings s = .ok { enabled := true, host := localhost, port := 9999 } ∧
          ¬ ∀ call, Followed (Unreported call) (Reported call) h := by
  obtain ⟨h, s, hrun, henabled, hsettings⟩ := exists_run_of_attempts
    (constructed 9999 0 (preferences 0 "proxy" 8080)) [.enable unlucky, .disable true .received]
    (fun _ s ↦ s.proxy.enabled = false ∧
      settings s = .ok { enabled := true, host := localhost, port := 9999 })
    (by decide +kernel)
  refine ⟨h, s, hrun, henabled, hsettings, ?_⟩
  rw [← enabled_tells_iff 9999 0 (preferences 0 "proxy" 8080) rfl rfl
    (fun h ↦ absurd h.1 (by decide)) hrun, henabled, hsettings]
  simp

end MacProxy

end Amanuensis
