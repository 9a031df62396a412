import Amanuensis.Foundation.Runs
import Amanuensis.Trusty.TrustyService

/-!
# The proxy of the system

`MacProxy::enable` points the system to this proxy and keeps what it has replaced: the host name and
the port, but not whether the proxy was enabled. `MacProxy::disable` writes back a proxy that is
disabled. So the settings are restored exactly when there was no enabled proxy to begin with, and
when its host name and port are such that a disabled proxy with them reads back as it was
(`restores_iff`).
-/

namespace Amanuensis

open Trusty LabelledSystem

/-! ### The client of the helper -/

namespace XpcServiceClient

/-- The state travels in an XPC object, either way. -/
def getHttpProxyState (prefs : Preferences) : Except String ProxyState := do
  let state ← TrustyService.getHttpProxyState prefs
  ProxyState.ofXpc state.toXpc

/-- `set_http_proxy_state`, where no call fails: the state goes to the helper as a dictionary. -/
def setHttpProxyState (state : ProxyState) (prefs : Preferences) : Except String Preferences := do
  let state ← ProxyState.ofXpc state.toXpc
  TrustyService.setHttpProxyState state prefs

end XpcServiceClient

/-! ### The proxy -/

/-- The members of a `MacProxy`. -/
structure MacProxy where
  port : Int32
  enabled : Bool := false
  hostnameToRestore : StdString := []
  /-- Not initialised. -/
  portToRestore : Int32
  deriving DecidableEq, Repr

namespace MacProxy

/-- A proxy and the preferences of the system it runs on. -/
structure Setup where
  proxy : MacProxy
  prefs : Preferences
  deriving DecidableEq, Repr

/-- The host that the proxy is reached at. -/
def localhost : StdString := StdString.ofString "localhost"

/-- With the helper installed. -/
def enable (s : Setup) : Except String Setup :=
  if s.proxy.enabled then .ok s
  else do
    let currentState ← XpcServiceClient.getHttpProxyState s.prefs
    if ¬ currentState.enabled ∨ currentState.host ≠ localhost ∨
        currentState.port ≠ s.proxy.port then
      let newState : ProxyState := { enabled := true, host := localhost, port := s.proxy.port }
      let prefs ← XpcServiceClient.setHttpProxyState newState s.prefs
      -- whether the proxy was enabled is not kept
      let proxy : MacProxy :=
        { s.proxy with
          enabled := true
          hostnameToRestore := currentState.host
          portToRestore := currentState.port }
      return { proxy := proxy, prefs := prefs }
    -- the system points to this proxy already: what an earlier period has kept stays
    else return { s with proxy.enabled := true }

/-- `MacProxy::disable`, where no call fails. -/
def disable (s : Setup) : Except String Setup :=
  if s.proxy.enabled then do
    -- written back as disabled, whatever it was
    let newState : ProxyState :=
      { enabled := false, host := s.proxy.hostnameToRestore, port := s.proxy.portToRestore }
    let prefs ← XpcServiceClient.setHttpProxyState newState s.prefs
    return { proxy := { s.proxy with enabled := false }, prefs := prefs }
  else .ok s

/-- A call of the user. -/
inductive Call
  | enable
  | disable
  deriving DecidableEq, Repr

/-- A call. -/
def Call.apply : Call → Setup → Except String Setup
  | .enable => MacProxy.enable
  | .disable => MacProxy.disable

/-- A proxy that has just been constructed. -/
def constructed (port portToRestore : Int32) (prefs : Preferences) : Setup :=
  { proxy := { port := port, portToRestore := portToRestore }, prefs := prefs }

/-- **The calls on one proxy**: all of them succeed, and nobody else changes the preferences. -/
def system (s₀ : Setup) : LabelledSystem Setup Call where
  init s := s = s₀
  step s call s' := call.apply s = .ok s'

variable {s₀ s s' : Setup} {h : List (Move Setup Call)}

/-! ### The calls -/

/-- The settings of the system. -/
def settings (s : Setup) : Except String ProxyState := TrustyService.getHttpProxyState s.prefs

/-- There are settings to write to. -/
def writable (s : Setup) : Bool := TrustyService.hasTarget s.prefs

/-- What a setting is replaced by, when it is read back. -/
def settled (s : Setup) (state : ProxyState) : ProxyState :=
  if writable s then TrustyService.settled state else .none

/-- The client reads the settings up to the first null character of the host name. -/
theorem exists_of_getHttpProxyState {prefs : Preferences} {read : ProxyState}
    (hget : XpcServiceClient.getHttpProxyState prefs = .ok read) :
    ∃ state, TrustyService.getHttpProxyState prefs = .ok state ∧
      read = { state with host := state.host.cStr } := by
  obtain ⟨state, hstate, hread⟩ := exists_ok_of_bind hget
  rw [ProxyState.ofXpc_toXpc] at hread
  exact ⟨state, hstate, (Except.ok.inj hread).symm⟩

/-- The client writes settings whose host name is a C string. -/
theorem setHttpProxyState_eq (state : ProxyState) (prefs : Preferences) :
    XpcServiceClient.setHttpProxyState state prefs =
      TrustyService.setHttpProxyState { state with host := state.host.cStr } prefs := by
  rw [XpcServiceClient.setHttpProxyState, ProxyState.ofXpc_toXpc]
  rfl

/-- **Disabling** an enabled proxy. -/
theorem settings_of_disable (henabled : s.proxy.enabled = true) (hdisable : disable s = .ok s') :
    s'.proxy.enabled = false ∧ writable s' = writable s ∧
      settings s' = .ok (settled s
        { enabled := false, host := s.proxy.hostnameToRestore.cStr,
          port := s.proxy.portToRestore }) := by
  rw [disable, if_pos henabled] at hdisable
  obtain ⟨prefs, hset, heq⟩ := exists_ok_of_bind hdisable
  obtain rfl := Except.ok.inj heq
  rw [setHttpProxyState_eq] at hset
  obtain ⟨hread, htarget⟩ := TrustyService.getHttpProxyState_of_set hset
  exact ⟨rfl, htarget, hread⟩

/-- **Enabling** a disabled proxy: unless the system points to it already, it keeps what it
replaces. -/
theorem enable_cases (henabled : s.proxy.enabled = false) (henable : enable s = .ok s') :
    ∃ state, settings s = .ok state ∧ s'.proxy.enabled = true ∧ writable s' = writable s ∧
      (state.enabled = true ∨
        s'.proxy.hostnameToRestore = state.host.cStr ∧ s'.proxy.portToRestore = state.port) := by
  rw [enable, if_neg (by simp [henabled])] at henable
  obtain ⟨read, hget, hrest⟩ := exists_ok_of_bind henable
  obtain ⟨state, hstate, rfl⟩ := exists_of_getHttpProxyState hget
  refine ⟨state, hstate, ?_⟩
  split_ifs at hrest with hreplace
  · obtain ⟨prefs, hset, heq⟩ := exists_ok_of_bind hrest
    obtain rfl := Except.ok.inj heq
    rw [setHttpProxyState_eq] at hset
    exact ⟨rfl, (TrustyService.getHttpProxyState_of_set hset).2, Or.inr ⟨rfl, rfl⟩⟩
  · obtain rfl := Except.ok.inj hrest
    refine ⟨rfl, rfl, Or.inl ?_⟩
    by_contra hnot
    exact hreplace (Or.inl hnot)

/-! ### Restoring -/

/-- A call that starts an enabled period. -/
def Starts (t : Move Setup Call) : Prop := t.label = .enable ∧ t.source.proxy.enabled = false

/-- A call that ends one. -/
def Ends (t : Move Setup Call) : Prop := t.label = .disable ∧ t.source.proxy.enabled = true

variable {t : Move Setup Call}

theorem Starts.enable_eq (hstarts : Starts t)
    (hstep : (system s₀).step t.source t.label t.target) : enable t.source = .ok t.target := by
  rw [hstarts.1] at hstep
  exact hstep

theorem Ends.disable_eq (hend : Ends t) (hstep : (system s₀).step t.source t.label t.target) :
    disable t.source = .ok t.target := by
  rw [hend.1] at hstep
  exact hstep

/-- **What enabling replaces is restored**, at the end of every enabled period. -/
def Restores (h : List (Move Setup Call)) : Prop :=
  ∀ h₁ t h₂ t' h₃, h = h₁ ++ t :: (h₂ ++ t' :: h₃) → Starts t → (∀ u ∈ h₂, ¬ Ends u) → Ends t' →
    settings t'.target = settings t.source

/-- The settings that survive: a disabled proxy, with a host name that is a C string and not empty,
or without a port. -/
def Restorable (state : ProxyState) : Prop :=
  state.enabled = false ∧ 0 ∉ state.host ∧ (state.host ≠ [] ∨ state.port = 0)

/-- A disabled proxy with these settings reads back as it was. -/
theorem settled_eq_iff {state : ProxyState} (hstate : settings s = .ok state) :
    settled s { enabled := false, host := state.host.cStr.cStr, port := state.port } = state ↔
      Restorable state := by
  obtain ⟨enabled, host, port⟩ := state
  cases hwritable : writable s with
  | false =>
    have hnone := TrustyService.eq_none_of_not_hasTarget hstate hwritable
    rw [settled, hwritable, hnone]
    simp [Restorable, ProxyState.none]
  | true =>
    have hcstr := StdString.cStr_eq_self_iff (s := host)
    rw [settled, hwritable, if_pos rfl, TrustyService.settled, StdString.cStr_cStr, Restorable]
    by_cases hhost : host.cStr ≠ []
    · have hne : host ≠ [] := fun hnil ↦ hhost (by rw [hnil]; rfl)
      rw [if_pos hhost, ← hcstr]
      simp [hne, eq_comm]
    · -- The settings are removed: they must have been none.
      have hnil : host.cStr = [] := not_not.1 hhost
      rw [if_neg hhost, ← hcstr, hnil]
      simp only [ProxyState.none, ProxyState.mk.injEq]
      constructor
      · rintro ⟨henabled, hhost, hport⟩
        exact ⟨henabled.symm, hhost, Or.inr hport.symm⟩
      · rintro ⟨henabled, hhost, hport⟩
        exact ⟨henabled.symm, hhost, (hport.resolve_left (absurd hhost.symm)).symm⟩

theorem enabled_settled {state : ProxyState} (henabled : state.enabled = false) :
    (settled s state).enabled = false := by
  rw [settled, TrustyService.settled]
  split_ifs
  · exact henabled
  · rfl
  · rfl

/-- How far a run has come with its first enabled period. -/
inductive Stage (s₀ : Setup) (h : List (Move Setup Call)) (s : Setup) : Prop
  | before (hends : ∀ t ∈ h, ¬ Ends t) (hsame : s = s₀)
  | during (h₁ h₂ : List (Move Setup Call)) (t : Move Setup Call) (hsplit : h = h₁ ++ t :: h₂)
      (hsource : t.source = s₀) (hstarts : Starts t) (hends : ∀ u ∈ h, ¬ Ends u)
      (hsame : s = t.target)
  | after (h₁ h₂ h₃ : List (Move Setup Call)) (t t' : Move Setup Call)
      (hsplit : h = h₁ ++ t :: (h₂ ++ t' :: h₃)) (hsource : t.source = s₀) (hstarts : Starts t)
      (hends : ∀ u ∈ h₂, ¬ Ends u) (hend : Ends t') (hsame : t'.source = t.target)

/-- Of an enabled period, the calls that change nothing. -/
theorem eq_of_apply {call : Call} (happly : call.apply s = .ok s')
    (hsame : s.proxy.enabled = true ↔ call = .enable) : s' = s := by
  cases call with
  | enable =>
    have henable : enable s = .ok s := if_pos (hsame.2 rfl)
    exact (Except.ok.inj (henable.symm.trans happly)).symm
  | disable =>
    have hdisable : disable s = .ok s := if_neg fun henabled ↦ nomatch hsame.1 henabled
    exact (Except.ok.inj (hdisable.symm.trans happly)).symm

theorem stage_of_run (hs₀ : s₀.proxy.enabled = false) (hrun : (system s₀).Run h s) :
    Stage s₀ h s := by
  induction hrun with
  | start hs => exact .before (by simp) hs
  | @move h s s' call hrun hstep ih =>
    have happly : call.apply s = .ok s' := hstep
    rcases ih with ⟨hends, rfl⟩ | ⟨h₁, h₂, t, rfl, hsource, hstarts, hends, hsame⟩ |
      ⟨h₁, h₂, h₃, t, t', rfl, hsource, hstarts, hends, hend, hsame⟩
    · cases call with
      | enable =>
        refine .during h [] ⟨s, .enable, s'⟩ rfl rfl ⟨rfl, hs₀⟩ ?_ rfl
        exact List.forall_mem_append.2 ⟨hends, by simp [Ends]⟩
      | disable =>
        refine .before (List.forall_mem_append.2 ⟨hends, by simp [Ends, hs₀]⟩) ?_
        exact eq_of_apply happly (by simp [hs₀])
    -- the period has begun, so that the proxy is enabled until it ends
    · have henable := hstarts.enable_eq (hrun.of_append rfl).2
      obtain ⟨state, -, henabled, -, -⟩ := enable_cases hstarts.2 henable
      rw [← hsame] at henabled
      cases call with
      | enable =>
        refine .during h₁ (h₂ ++ [⟨s, .enable, s'⟩]) t (by simp) hsource hstarts ?_ ?_
        · exact List.forall_mem_append.2 ⟨hends, by simp [Ends]⟩
        · rw [eq_of_apply happly (by simp [henabled]), hsame]
      | disable =>
        refine .after h₁ h₂ [] t ⟨s, .disable, s'⟩ (by simp) hsource hstarts ?_ ⟨rfl, henabled⟩
          hsame
        exact fun u hu ↦ hends u (by simp [hu])
    · exact .after h₁ h₂ (h₃ ++ [⟨s, call, s'⟩]) t t' (by simp) hsource hstarts hends hend hsame

/-- The settings a proxy has replaced are kept, and restored in between. -/
structure Keeps (s₀ : Setup) (state : ProxyState) (s : Setup) : Prop where
  writable : writable s = writable s₀
  restored : s.proxy.enabled = false → settings s = .ok state
  kept : s.proxy.enabled = true →
    s.proxy.hostnameToRestore = state.host ∧ s.proxy.portToRestore = state.port

theorem keeps_of_run (hs₀ : s₀.proxy.enabled = false) {state : ProxyState}
    (hstate : settings s₀ = .ok state) (hrestorable : Restorable state)
    (hrun : (system s₀).Run h s) : Keeps s₀ state s := by
  have hcstr : state.host.cStr = state.host := StdString.cStr_eq_self_iff.2 hrestorable.2.1
  refine hrun.invariant (fun s hs ↦ ?_) fun s call s' hkeeps happly ↦ ?_
  · obtain rfl : s = s₀ := hs
    exact ⟨rfl, fun _ ↦ hstate, fun henabled ↦ nomatch hs₀.symm.trans henabled⟩
  · by_cases hsame : s.proxy.enabled = true ↔ call = .enable
    · exact eq_of_apply happly hsame ▸ hkeeps
    cases call with
    | enable =>
      have hdisabled : s.proxy.enabled = false := by simpa using hsame
      obtain ⟨state', hread, henabled, hwritable, hcases⟩ := enable_cases hdisabled happly
      obtain rfl : state' = state :=
        Except.ok.inj (hread.symm.trans (hkeeps.restored hdisabled))
      refine ⟨hwritable.trans hkeeps.writable, fun h ↦ (nomatch henabled.symm.trans h), fun _ ↦ ?_⟩
      rcases hcases with hcontra | ⟨hhost, hport⟩
      · exact nomatch hrestorable.1.symm.trans hcontra
      · exact ⟨hhost.trans hcstr, hport⟩
    | disable =>
      have henabled : s.proxy.enabled = true := by simpa using hsame
      obtain ⟨hdisabled, hwritable, hsettings⟩ := settings_of_disable henabled happly
      obtain ⟨hhost, hport⟩ := hkeeps.kept henabled
      refine ⟨hwritable.trans hkeeps.writable, fun _ ↦ ?_, fun h ↦ (nomatch hdisabled.symm.trans h)⟩
      have hsettled := (settled_eq_iff hstate).2 hrestorable
      rw [hcstr] at hsettled
      rw [hsettings, hhost, hport, settled, hkeeps.writable, ← settled, hsettled]

/-- **When the settings are restored**: in a run that ends an enabled period, exactly when the
settings it started from survive. -/
theorem restores_iff (port portToRestore : Int32) (prefs : Preferences)
    (hrun : (system (constructed port portToRestore prefs)).Run h s) :
    Restores h ↔
      ((∃ t ∈ h, Ends t) →
        ∃ state, TrustyService.getHttpProxyState prefs = .ok state ∧ Restorable state) := by
  have hs₀ : (constructed port portToRestore prefs).proxy.enabled = false := rfl
  constructor
  · rintro hrestores ⟨u, hu, hend⟩
    rcases stage_of_run hs₀ hrun with ⟨hends, -⟩ | ⟨h₁, h₂, t, -, -, -, hends, -⟩ |
      ⟨h₁, h₂, h₃, t, t', hsplit, hsource, hstarts, hends, hend, hsame⟩
    · exact absurd hend (hends u hu)
    · exact absurd hend (hends u hu)
    · have hsplit' : h = (h₁ ++ t :: h₂) ++ t' :: h₃ := by
        rw [hsplit, List.append_assoc, List.cons_append]
      obtain ⟨hrun₂, hdisable⟩ := hrun.of_append hsplit'
      obtain ⟨state, hstate, -, hwritable, hkept⟩ :=
        enable_cases hstarts.2 (hstarts.enable_eq (hrun.of_append hsplit).2)
      obtain ⟨-, -, hsettings⟩ := settings_of_disable hend.2 (hend.disable_eq hdisable)
      have hrestored := hrestores h₁ t h₂ t' h₃ hsplit hstarts hends hend
      rw [hstate, hsettings, settled, hsame, hwritable, ← settled] at hrestored
      have hrestored := Except.ok.inj hrestored
      refine ⟨state, ?_, ?_⟩
      · rw [hsource] at hstate
        exact hstate
      rcases hkept with henabled | ⟨hhost, hport⟩
      · have hdisabled : state.enabled = false := by
          rw [← hrestored]
          exact enabled_settled rfl
        exact nomatch henabled.symm.trans hdisabled
      · rw [hhost, hport] at hrestored
        exact (settled_eq_iff hstate).1 hrestored
  · intro hcondition h₁ t h₂ t' h₃ hsplit hstarts hends hend
    obtain ⟨state, hstate, hrestorable⟩ := hcondition ⟨t', by simp [hsplit], hend⟩
    have hsplit' : h = (h₁ ++ t :: h₂) ++ t' :: h₃ := by
      rw [hsplit, List.append_assoc, List.cons_append]
    obtain ⟨hrun₁, -⟩ := hrun.of_append hsplit
    obtain ⟨hrun₂, hmove⟩ := hrun.of_append hsplit'
    -- what is kept is the same before and after the period
    have hbefore := (keeps_of_run hs₀ hstate hrestorable hrun₁).restored hstarts.2
    have hafter := keeps_of_run hs₀ hstate hrestorable (hrun₂.move hmove)
    have hdisabled := (settings_of_disable hend.2 (hend.disable_eq hmove)).1
    rw [hafter.restored hdisabled, hbefore]

/-! ### Two systems -/

/-- The preferences of a system with one network service. -/
def preferences (enabled : ℤ) (host : String) (port : ℤ) : Preferences where
  primaryService := some "en0"
  services :=
    [{ id := "en0"
       proxies := some
        { enabled := true
          configuration := some
            { httpProxy := some (StdString.ofString host)
              httpPort := some port
              httpEnable := some enabled } } }]

/-- The setups after some calls. -/
def next (s : Setup) (call : Call) : Option Setup := (call.apply s).toOption

theorem step_of_next {call : Call} (hnext : next s call = some s') :
    (system s₀).step s call s' := by
  rw [next] at hnext
  cases happly : call.apply s with
  | error e =>
    rw [happly] at hnext
    exact nomatch hnext
  | ok s₁ =>
    rw [happly] at hnext
    show call.apply s = .ok s'
    rw [happly, Option.some_inj.1 hnext]

instance : DecidablePred Starts := fun _ ↦ inferInstanceAs (Decidable (_ ∧ _))

instance : DecidablePred Ends := fun _ ↦ inferInstanceAs (Decidable (_ ∧ _))

/-- Calls whose run passes a test. -/
theorem exists_run_of_follow (s₀ : Setup) (calls : List Call)
    (test : List (Move Setup Call) → Setup → Prop) [∀ h s, Decidable (test h s)]
    (htest : (follow next s₀ calls).any (fun r ↦ test r.1 r.2) = true) :
    ∃ h s, (system s₀).Run h s ∧ test h s :=
  Run.exists_of_follow (fun _ _ _ ↦ step_of_next) rfl calls test htest

/-- A system whose proxy has been switched off. -/
theorem disabledProxy_restores :
    ∃ h s, (system (constructed 9999 0 (preferences 0 "proxy" 8080))).Run h s ∧
      (∃ t ∈ h, Ends t) ∧ Restores h := by
  obtain ⟨h, s, hrun, hends⟩ := exists_run_of_follow
    (constructed 9999 0 (preferences 0 "proxy" 8080)) [.disable, .enable, .enable, .disable]
    (fun h _ ↦ ∃ t ∈ h, Ends t) (by decide +kernel)
  exact ⟨h, s, hrun, hends, (restores_iff _ _ _ hrun).2 fun _ ↦
    ⟨{ enabled := false, host := StdString.ofString "proxy", port := 8080 }, rfl, rfl, by decide,
      Or.inl (by decide)⟩⟩

/-- A system with a proxy of its own: it is left switched off. -/
theorem enabledProxy_not_restores :
    ∃ h s, (system (constructed 9999 0 (preferences 1 "proxy" 8080))).Run h s ∧ ¬ Restores h := by
  obtain ⟨h, s, hrun, hlength, hstarts, hends, hsettings⟩ := exists_run_of_follow
    (constructed 9999 0 (preferences 1 "proxy" 8080)) [.enable, .disable]
    (fun h _ ↦ h.length = 2 ∧ (∀ t ∈ h.head?, Starts t) ∧ (∀ t ∈ h.getLast?, Ends t) ∧
      ∀ t ∈ h.head?, ∀ t' ∈ h.getLast?, settings t'.target ≠ settings t.source)
    (by decide +kernel)
  obtain ⟨t, t', rfl⟩ := List.length_eq_two.1 hlength
  refine ⟨_, s, hrun, fun hrestores ↦ hsettings t rfl t' rfl ?_⟩
  exact hrestores [] t [] t' [] rfl (hstarts t rfl) (by simp) (hends t' rfl)

end MacProxy

end Amanuensis
