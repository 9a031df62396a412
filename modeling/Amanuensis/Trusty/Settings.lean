import Amanuensis.Trusty.SystemConfiguration

/-!
# What setting promises

Setting the HTTP proxy keeps to the entries for HTTP of one service, unless the host name is empty:
then the whole configuration goes (`changesOnly_of_setHttpProxyState`). What has been stored and
committed is read back (`getHttpProxyState_of_setHttpProxyState`). But that `set_http_proxy_state`
returns says little, since it only logs that there is no service to write to, or that a call has
failed: it means that the setting is in force just where all of them succeed
(`putsInForce_iff`).
-/

namespace Amanuensis

namespace Trusty

namespace SystemConfiguration

variable {o : CallOutcomes} {state : ProxyState} {sys : System} {id : String}
  {services : List Service} {stored : Option Service} {config copy : Option CFDictionary}

/-! ### After the loop -/

theorem services_finish :
    (finish o sys services stored).system.services =
      if (stored.isSome && o.commit) = true then services else sys.services := by
  simp only [finish]
  split_ifs <;> rfl

theorem primaryService_finish :
    (finish o sys services stored).system.primaryService = sys.primaryService := by
  simp only [finish]
  split_ifs <;> rfl

theorem active_finish :
    (finish o sys services stored).system.active = sys.active ∨
      (finish o sys services stored).system.active =
        (finish o sys services stored).system.services := by
  simp only [finish]
  split_ifs
  · exact .inr rfl
  · exact .inr rfl
  · exact .inl rfl
  · exact .inl rfl

/-! ### What is changed -/

/-- The other entries are the same. -/
def KeepsOthers (config config' : Option CFDictionary) : Prop :=
  ∀ key ∉ httpKeys, entry config' key = entry config key

/-- **What a state may change** in a configuration. -/
def Permits (state : ProxyState) (config config' : Option CFDictionary) : Prop :=
  if state.host = [] then config' = none else KeepsOthers config config'

/-- **At most one configuration changes**, that of a primary service, and only in some way. -/
structure ChangesOnly (R : Option CFDictionary → Option CFDictionary → Prop)
    (sys sys' : System) : Prop where
  primaryService : sys'.primaryService = sys.primaryService
  services : sys'.services = sys.services ∨
    ∃ before service after config, sys.services = before ++ service :: after ∧
      sys.primaryService = some service.id ∧
      sys'.services = before ++ service.withConfiguration config :: after ∧
      R service.configuration config
  active : sys'.active = sys.active ∨ sys'.active = sys'.services

theorem ChangesOnly.refl (R : Option CFDictionary → Option CFDictionary → Prop) (sys : System) :
    ChangesOnly R sys sys :=
  ⟨rfl, .inl rfl, .inl rfl⟩

theorem permits_of_writeConfiguration (hcopy : writeConfiguration state config = .ok copy) :
    Permits state config copy := by
  rw [Permits]
  cases written_of_writeConfiguration hcopy with
  | removed hhost => rw [if_pos hhost]
  | updated copy _ hhost _ _ _ _ hothers =>
    rw [if_neg hhost]
    exact hothers

/-- **What setting changes**: the entries for HTTP of the primary service, or, for a state without a
host name, the whole configuration of that service. -/
theorem changesOnly_of_setHttpProxyState (o : CallOutcomes) (state : ProxyState) (sys : System) :
    ChangesOnly (Permits state) sys (setHttpProxyState o state sys).system := by
  have hdoes := does_setHttpProxyState o state sys
  generalize setHttpProxyState o state sys = report at hdoes ⊢
  cases hdoes with
  | locked | headless | crashed => exact .refl _ sys
  | nowhere | refused => exact .refl _ sys
  | stored before after target copy _ htarget hservices _ hcopy _ =>
    refine ⟨primaryService_finish, ?_, active_finish⟩
    rw [services_finish]
    split_ifs
    · refine .inr ⟨before, target, after, copy, hservices, ?_, rfl, ?_⟩
      · exact (exists_of_target htarget).2.1
      · exact permits_of_writeConfiguration hcopy
    · exact .inl rfl

/-- A system with one network service, and its configuration. -/
def oneService (config : CFDictionary) : System where
  primaryService := some "en0"
  services := [{ id := "en0", proxies := some { enabled := true, configuration := some config } }]
  active := [{ id := "en0", proxies := some { enabled := true, configuration := some config } }]

/-- A proxy for HTTPS only. -/
def httpsConfig : CFDictionary :=
  Function.update (fun _ ↦ none) "HTTPSEnable" (some (.number 1))

/-- A state without a host name removes the proxy for HTTPS, too. -/
theorem emptyHost_not_keepsOthers :
    ¬ ChangesOnly KeepsOthers (oneService httpsConfig)
      (setHttpProxyState {} .none (oneService httpsConfig)).system := by
  intro hchanges
  have hremoved : (setHttpProxyState {} .none (oneService httpsConfig)).system.services =
      [{ id := "en0", proxies := some { enabled := true, configuration := none } }] := rfl
  have hentry : entry (some httpsConfig) "HTTPSEnable" = some (.number 1) := rfl
  rcases hchanges.services with hsame | ⟨before, service, after, config, hold, -, hnew, hkeeps⟩
  · rw [hremoved] at hsame
    exact nomatch hsame
  · cases before with
    | cons _ before =>
      have hempty : [] = before ++ service :: after := (List.cons.inj hold).2
      exact List.append_ne_nil_of_right_ne_nil before (List.cons_ne_nil _ _) hempty.symm
    | nil =>
      obtain ⟨rfl, -⟩ := List.cons.inj hold
      rw [hremoved] at hnew
      have hnone : none = config :=
        congrArg Service.configuration (List.cons.inj hnew).1
      rw [← hnone] at hkeeps
      have hlost := hkeeps "HTTPSEnable" (by decide)
      exact nomatch hlost.trans hentry

/-! ### What is in force -/

/-- **The setting has been put in force**: the configuration of the service it is for has been
stored, committed and applied. -/
def PutInForce (state : ProxyState) (sys : System) (report : Report) : Prop :=
  ∃ target ∈ sys.target?, ∃ copy,
    writeConfiguration state target.configuration = .ok copy ∧
      report.stored = some (target.withConfiguration copy) ∧
      report.committed = true ∧ report.applied = true

/-- **What returning means**, where it means that the setting is in force. -/
def PutsInForce (o : CallOutcomes) (state : ProxyState) (sys : System) : Prop :=
  (setHttpProxyState o state sys).result = .ok () →
    PutInForce state sys (setHttpProxyState o state sys)

/-- The service to write to is there, and the calls succeed that write to it. -/
def Writes (o : CallOutcomes) (sys : System) : Prop :=
  sys.target? ≠ none ∧ o.setConfiguration = true ∧ o.commit = true ∧ o.apply = true

/-- An exception is thrown anyway, or the host name cannot be made into a string. -/
def Throws (o : CallOutcomes) (state : ProxyState) (sys : System) : Prop :=
  o.lock = false ∨ sys.primaryService = none ∨ o.unlock = false ∨
    sys.target? ≠ none ∧ encodable state.host = false

/-- The last call fails. -/
theorem result_finish : (finish o sys services stored).result = .ok () ↔ o.unlock = true := by
  simp only [finish]
  split_ifs with hunlock
  · exact iff_of_true rfl hunlock
  · exact iff_of_false nofun hunlock

theorem putInForce_of_stored {target : Service} (htarget : sys.target? = some target)
    (hcopy : writeConfiguration state target.configuration = .ok copy) :
    PutInForce state sys (finish o sys services (some (target.withConfiguration copy))) ↔
      o.commit = true ∧ o.apply = true := by
  constructor
  · rintro ⟨-, -, -, -, -, hcommitted, happlied⟩
    exact ⟨hcommitted, happlied⟩
  · rintro ⟨hcommit, happly⟩
    exact ⟨target, htarget, copy, hcopy, rfl, hcommit, happly⟩

/-- Nothing has been stored. -/
theorem not_putInForce : ¬ PutInForce state sys (finish o sys services none) := by
  rintro ⟨_, -, _, -, heq, -⟩
  exact nomatch heq

/-- **When returning means that the setting is in force**: an exception is thrown, or there is a
service to write to and all calls succeed. -/
theorem putsInForce_iff (o : CallOutcomes) (state : ProxyState) (sys : System) :
    PutsInForce o state sys ↔ Throws o state sys ∨ Writes o sys := by
  rw [PutsInForce, Throws, Writes]
  have hdoes := does_setHttpProxyState o state sys
  generalize setHttpProxyState o state sys = report at hdoes ⊢
  cases hdoes with
  | locked hlock => exact iff_of_true nofun (.inl (.inl hlock))
  | headless _ hid => exact iff_of_true nofun (.inl (.inr (.inl hid)))
  | crashed target _ htarget hhost =>
    exact iff_of_true nofun (.inl (.inr (.inr (.inr ⟨by simp [htarget], hhost⟩))))
  | nowhere hlock hid htarget =>
    rw [result_finish, htarget]
    simp [hlock, hid, not_putInForce]
  | refused target hlock htarget hhost hset =>
    obtain ⟨_, hid, -⟩ := exists_of_target htarget
    rw [result_finish]
    simp [hlock, hid, hhost, hset, not_putInForce]
  | stored before after target copy hlock htarget _ _ hcopy hset =>
    obtain ⟨_, hid, -⟩ := exists_of_target htarget
    have hhost := encodable_of_writeConfiguration hcopy
    rw [result_finish, putInForce_of_stored htarget hcopy]
    simp only [hlock, hid, hhost, hset, htarget]
    cases o.unlock <;> simp

/-- Without a service, or when the change is not committed, `set_http_proxy_state` returns as
well. -/
theorem returns_not_putInForce :
    ¬ PutsInForce {} .none { primaryService := some "en0", services := [], active := [] } ∧
      ¬ PutsInForce { commit := false } .none (oneService httpsConfig) := by
  constructor
  · intro hputs
    obtain ⟨target, htarget, -⟩ := hputs rfl
    exact nomatch htarget
  · intro hputs
    obtain ⟨target, -, copy, -, -, hcommitted, -⟩ := hputs rfl
    exact nomatch hcommitted

/-! ### Reading what has been set -/

/-- A configuration that has been written reads back. -/
theorem readConfiguration_of_write (hcopy : writeConfiguration state config = .ok copy) :
    readConfiguration copy = .ok (TrustyService.settled state) := by
  rw [TrustyService.settled]
  cases written_of_writeConfiguration hcopy with
  | removed hhost =>
    rw [if_neg (not_not.2 hhost)]
    rfl
  | updated copy hostRef hhost hcreate hproxy hport henable _ =>
    have hread := cfstringAsStdString_of_create hcreate
    have hportRead : TrustyService.cfnumberAsInt32 state.port.toInt = state.port :=
      Int32.ofInt_toInt _
    have henableRead : TrustyService.cfnumberAsBool (if state.enabled then 1 else 0) =
        state.enabled := by
      cases state.enabled <;> rfl
    rw [if_pos hhost, readConfiguration]
    simp only [hproxy, hread, hport, henable, cfnumberAsInt32, cfnumberAsBool, hportRead,
      henableRead]
    rfl

/-- **Reading a target** whose configuration has been written. -/
theorem readServices_of_write {before after : List Service} {target : Service}
    (htarget : target.isTarget id = true)
    (hbefore : ∀ service ∈ before, service.isTarget id = false)
    (hcopy : writeConfiguration state target.configuration = .ok copy) :
    readServices id (before ++ target.withConfiguration copy :: after) =
      .ok (TrustyService.settled state) := by
  have hwritten : (target.withConfiguration copy).isTarget id = true := by
    rw [Service.isTarget_withConfiguration, htarget]
  rw [readServices_append _ hbefore, readServices_target hwritten,
    Service.configuration_withConfiguration htarget, readConfiguration_of_write hcopy]

/-- Without a service that is suitable, there is no proxy. -/
theorem getHttpProxyState_of_target_eq_none (hid : sys.primaryService = some id)
    (htarget : sys.target? = none) : getHttpProxyState sys = .ok .none := by
  have hnot : ∀ service ∈ sys.services, service.isTarget id = false := by
    rw [System.target?, hid] at htarget
    exact fun service hmem ↦ Bool.eq_false_iff.2 (List.find?_eq_none.1 htarget service hmem)
  rw [getHttpProxyState, hid]
  exact (loops_of_not {} .none hnot).1

/-- What is read after a configuration has been stored and committed. -/
theorem getHttpProxyState_of_committed
    (hstored : (setHttpProxyState o state sys).stored ≠ none)
    (hcommitted : (setHttpProxyState o state sys).committed = true) :
    getHttpProxyState (setHttpProxyState o state sys).system =
      .ok (TrustyService.settled state) := by
  have hdoes := does_setHttpProxyState o state sys
  generalize setHttpProxyState o state sys = report at hdoes hstored hcommitted ⊢
  cases hdoes with
  | locked | headless | crashed | nowhere | refused => exact absurd rfl hstored
  | stored before after target copy _ htarget hservices hbefore hcopy _ =>
    obtain ⟨hfound, hid, -⟩ := exists_of_target htarget
    have hcommit : o.commit = true := hcommitted
    rw [getHttpProxyState, primaryService_finish, hid, services_finish, hcommit]
    exact readServices_of_write hfound hbefore hcopy

/-- **Getting undoes setting**: what has been stored, committed and applied is read back, but for a
state without a host name, which is read as no proxy. Without a service that is suitable nothing
changes, and there is no proxy to read. -/
theorem getHttpProxyState_of_setHttpProxyState (o : CallOutcomes) {state : ProxyState}
    (hid : sys.primaryService = some id) (hnul : 0 ∉ state.host) :
    (PutInForce state sys (setHttpProxyState o state sys) →
      getHttpProxyState (setHttpProxyState o state sys).system =
        .ok (if state.host ≠ [] then state else .none)) ∧
    (sys.target? = none → (setHttpProxyState o state sys).system = sys ∧
      getHttpProxyState (setHttpProxyState o state sys).system = .ok .none) := by
  constructor
  · rintro ⟨target, -, copy, -, hstored, hcommitted, -⟩
    rw [getHttpProxyState_of_committed (by simp [hstored]) hcommitted, TrustyService.settled,
      StdString.cStr_eq_self_iff.2 hnul]
  · intro htarget
    have hsame : (setHttpProxyState o state sys).system = sys := by
      have hdoes := does_setHttpProxyState o state sys
      generalize setHttpProxyState o state sys = report at hdoes ⊢
      cases hdoes with
      | locked | headless | nowhere => rfl
      | crashed _ _ hfound | refused _ _ hfound | stored _ _ _ _ _ hfound =>
        exact absurd (hfound.symm.trans htarget) (Option.some_ne_none _)
    rw [hsame]
    exact ⟨rfl, getHttpProxyState_of_target_eq_none hid htarget⟩

/-- This proxy is set, and read. -/
theorem localhost_getHttpProxyState :
    getHttpProxyState (setHttpProxyState {}
        { enabled := true, host := StdString.ofString "localhost", port := 9999 }
        (oneService httpsConfig)).system =
      .ok { enabled := true, host := StdString.ofString "localhost", port := 9999 } :=
  (getHttpProxyState_of_setHttpProxyState {} rfl (by decide)).1 ⟨_, rfl, _, rfl, rfl, rfl, rfl⟩

end SystemConfiguration

end Trusty

end Amanuensis
