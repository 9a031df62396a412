import Mathlib.Data.Int.Notation
import Amanuensis.Trusty.ProxyState

/-!
# The settings of the system

`TrustyService` reads and writes the HTTP proxy settings of the primary network service, in the
preferences of the system. A host name that is empty removes the settings, so that what is read
back is not always what has been set (`getHttpProxyState_of_set`).

The calls of the system succeed. A `CFString` is given by its bytes in UTF-8 and a `CFNumber` by its
integer.
-/

namespace Amanuensis

namespace Trusty

/-- The configuration dictionary of the proxies. -/
structure ProxiesConfig where
  httpProxy : Option StdString := none
  httpPort : Option ℤ := none
  httpEnable : Option ℤ := none
  /-- The entries under other keys. -/
  others : List (String × StdString) := []
  deriving DecidableEq, Repr

/-- The proxies protocol of a network service. -/
structure ProxiesProtocol where
  enabled : Bool
  configuration : Option ProxiesConfig
  deriving DecidableEq, Repr

/-- A network service, with its proxies if it has any. -/
structure NetworkService where
  id : String
  proxies : Option ProxiesProtocol
  deriving DecidableEq, Repr

/-- The system preferences. -/
structure Preferences where
  primaryService : Option String
  services : List NetworkService
  deriving DecidableEq, Repr

namespace TrustyService

/-! ### Reading -/

/-- `cfnumber_as_int32_t`. -/
def cfnumberAsInt32 (number : ℤ) : Int32 := Int32.ofInt number

/-- `cfnumber_as_bool`, which reads the number as an `int`. -/
def cfnumberAsBool (number : ℤ) : Bool := Int32.ofInt number ≠ 0

/-- The state a configuration stands for. -/
def readConfiguration (config : Option ProxiesConfig) : ProxyState :=
  match config with
  | some config =>
    { enabled := config.httpEnable.elim false cfnumberAsBool
      host := config.httpProxy.getD []
      port := config.httpPort.elim 0 cfnumberAsInt32 }
  | none => .none

/-- The loop of `get_http_proxy_state` over the services. -/
def readServices (primaryServiceId : String) : List NetworkService → ProxyState
  | [] => .none
  | service :: services =>
    if service.id ≠ primaryServiceId then readServices primaryServiceId services
    else
      match service.proxies with
      | none => readServices primaryServiceId services
      | some proxies =>
        if ¬ proxies.enabled then readServices primaryServiceId services
        -- the first service that is enabled decides, whatever its configuration holds
        else readConfiguration proxies.configuration

/-- `get_http_proxy_state`, where no call fails. -/
def getHttpProxyState (prefs : Preferences) : Except String ProxyState :=
  match prefs.primaryService with
  | none => .error "no primary network service?"
  | some primaryServiceId => .ok (readServices primaryServiceId prefs.services)

/-! ### Writing -/

/-- The configuration that is saved: none at all for an empty host name. -/
def writeConfiguration (state : ProxyState) (config : Option ProxiesConfig) :
    Option ProxiesConfig :=
  if state.host ≠ [] then
    some
      { config.getD {} with
        httpProxy := some state.host.cStr
        httpPort := some state.port.toInt
        httpEnable := some (if state.enabled then 1 else 0) }
  else none

/-- The loop of `set_http_proxy_state` over the services. -/
def writeServices (primaryServiceId : String) (state : ProxyState) :
    List NetworkService → List NetworkService
  | [] => []
  | service :: services =>
    if service.id ≠ primaryServiceId then
      service :: writeServices primaryServiceId state services
    else
      match service.proxies with
      | none => service :: writeServices primaryServiceId state services
      | some proxies =>
        if ¬ proxies.enabled then service :: writeServices primaryServiceId state services
        else
          { service with
            proxies := some
              { proxies with configuration := writeConfiguration state proxies.configuration } } ::
            services

/-- `set_http_proxy_state`, where no call fails. -/
def setHttpProxyState (state : ProxyState) (prefs : Preferences) : Except String Preferences :=
  match prefs.primaryService with
  | none => .error "no primary network service?"
  | some primaryServiceId =>
    .ok { prefs with services := writeServices primaryServiceId state prefs.services }

/-! ### Reading what has been written -/

/-- What is read back of a state. -/
def settled (state : ProxyState) : ProxyState :=
  if state.host ≠ [] then { state with host := state.host.cStr } else .none

theorem readConfiguration_writeConfiguration (state : ProxyState) (config : Option ProxiesConfig) :
    readConfiguration (writeConfiguration state config) = settled state := by
  have hport : cfnumberAsInt32 state.port.toInt = state.port := Int32.ofInt_toInt _
  have henabled : cfnumberAsBool (if state.enabled then 1 else 0) = state.enabled := by
    cases state.enabled <;> rfl
  rw [writeConfiguration, settled]
  by_cases hhost : state.host ≠ []
  · rw [if_pos hhost, if_pos hhost]
    show ProxyState.mk (cfnumberAsBool (if state.enabled then 1 else 0)) state.host.cStr
      (cfnumberAsInt32 state.port.toInt) = _
    rw [hport, henabled]
  · rw [if_neg hhost, if_neg hhost]
    rfl

variable {primaryServiceId : String} {state : ProxyState} {service : NetworkService}
  {services : List NetworkService}

/-- The service at which the loops stop. -/
def isTarget (primaryServiceId : String) (service : NetworkService) : Bool :=
  service.id = primaryServiceId && service.proxies.any fun proxies ↦ proxies.enabled

/-- The loops pass over the other services. -/
theorem readServices_cons_of_not (state : ProxyState) (services : List NetworkService)
    (hnot : isTarget primaryServiceId service = false) :
    readServices primaryServiceId (service :: services) = readServices primaryServiceId services ∧
      writeServices primaryServiceId state (service :: services) =
        service :: writeServices primaryServiceId state services := by
  obtain ⟨id, _ | ⟨enabled, config⟩⟩ := service <;>
    simp_all [isTarget, readServices, writeServices]

theorem exists_of_isTarget (state : ProxyState) (services : List NetworkService)
    (htarget : isTarget primaryServiceId service = true) :
    ∃ written, isTarget primaryServiceId written = true ∧
      writeServices primaryServiceId state (service :: services) = written :: services ∧
      readServices primaryServiceId (written :: services) = settled state := by
  obtain ⟨id, _ | ⟨enabled, config⟩⟩ := service
  · simp [isTarget] at htarget
  · obtain ⟨rfl, rfl⟩ : id = primaryServiceId ∧ enabled = true := by
      simpa [isTarget] using htarget
    refine ⟨⟨id, some ⟨true, writeConfiguration state config⟩⟩, by simp [isTarget], ?_, ?_⟩
    · simp [writeServices]
    · simp [readServices, readConfiguration_writeConfiguration]

/-- **Reading back**: the state as it has settled, if there is a service to write to. -/
theorem readServices_writeServices (primaryServiceId : String) (state : ProxyState)
    (services : List NetworkService) :
    readServices primaryServiceId (writeServices primaryServiceId state services) =
        (if services.any (isTarget primaryServiceId) then settled state else .none) ∧
      (writeServices primaryServiceId state services).any (isTarget primaryServiceId) =
        services.any (isTarget primaryServiceId) := by
  induction services with
  | nil => exact ⟨rfl, rfl⟩
  | cons service services ih =>
    cases htarget : isTarget primaryServiceId service with
    | false =>
      obtain ⟨-, hwrite⟩ := readServices_cons_of_not state services htarget
      obtain ⟨hread, -⟩ :=
        readServices_cons_of_not state (writeServices primaryServiceId state services) htarget
      rw [hwrite, hread]
      simpa [htarget] using ih
    | true =>
      obtain ⟨written, hwritten, hwrite, hread⟩ := exists_of_isTarget state services htarget
      rw [hwrite, hread]
      simp [htarget, hwritten]

/-- Without a service to write to, there is no proxy. -/
theorem readServices_of_not (hnot : services.any (isTarget primaryServiceId) = false) :
    readServices primaryServiceId services = .none := by
  induction services with
  | nil => rfl
  | cons service services ih =>
    rw [List.any_cons, Bool.or_eq_false_iff] at hnot
    rw [(readServices_cons_of_not .none services hnot.1).1]
    exact ih hnot.2

/-! ### Preferences -/

/-- There is a service to write to. -/
def hasTarget (prefs : Preferences) : Bool :=
  prefs.primaryService.any fun primaryServiceId ↦ prefs.services.any (isTarget primaryServiceId)

variable {prefs prefs' : Preferences}

/-- **Reading what has been written.** -/
theorem getHttpProxyState_of_set (hset : setHttpProxyState state prefs = .ok prefs') :
    getHttpProxyState prefs' = .ok (if hasTarget prefs then settled state else .none) ∧
      hasTarget prefs' = hasTarget prefs := by
  obtain ⟨_ | primaryServiceId, services⟩ := prefs
  · exact nomatch hset
  · obtain rfl := Except.ok.inj hset
    obtain ⟨hread, hany⟩ := readServices_writeServices primaryServiceId state services
    exact ⟨congrArg Except.ok hread, hany⟩

theorem eq_none_of_not_hasTarget {read : ProxyState} (hget : getHttpProxyState prefs = .ok read)
    (hnot : hasTarget prefs = false) : read = .none := by
  obtain ⟨_ | primaryServiceId, services⟩ := prefs
  · exact nomatch hget
  · exact (Except.ok.inj hget).symm.trans (readServices_of_not hnot)

end TrustyService

end Trusty

end Amanuensis
