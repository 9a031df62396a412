import Mathlib.Logic.Function.Basic
import Amanuensis.Foundation.Runs
import Amanuensis.Trusty.TrustyService

/-!
# The settings of the system, when its calls fail

`TrustyService` once more, over dictionaries with any entries and with calls of the system that may
fail. What is stored in a session of the preferences is there for others when it is committed, and
in force when it is applied. Where all calls succeed, this is the service of `TrustyService.lean`
(`setHttpProxyState_view`, `getHttpProxyState_view`).
-/

namespace Amanuensis

namespace Trusty

namespace SystemConfiguration

/-! ### Core Foundation -/

/-- The property lists that a configuration may hold. -/
inductive CFType
  | string (s : String)
  | number (value : ℤ)
  | array (values : List CFType)
  | dictionary (entries : List (String × CFType))

/-- A dictionary, as what is found under each key. -/
abbrev CFDictionary := String → Option CFType

/-- How a function may fail to return. -/
inductive Failure
  | thrown (message : String)
  /-- A null value is put into a dictionary, or an object is taken for one of another type. -/
  | crashed
  deriving DecidableEq, Repr

/-- `CFStringCreateWithCString` in UTF-8: null for bytes that are not. -/
def cfStringCreateWithCString (s : StdString) : Option String :=
  String.fromUTF8? ⟨s.cStr.toArray⟩

/-- The bytes of a string; a null reference is an empty one, and another type is a crash. -/
def cfstringAsStdString (ref : Option CFType) : Except Failure StdString :=
  match ref with
  | none => .ok []
  | some (.string s) => .ok s.toByteArray.data.toList
  | some _ => .error .crashed

/-- The value of a number; a null reference is zero, and another type is a crash. -/
def cfnumberAsInt32 (ref : Option CFType) : Except Failure Int32 :=
  match ref with
  | none => .ok 0
  | some (.number value) => .ok (TrustyService.cfnumberAsInt32 value)
  | some _ => .error .crashed

/-- Whether a number is not zero; a null reference is, and another type is a crash. -/
def cfnumberAsBool (ref : Option CFType) : Except Failure Bool :=
  match ref with
  | none => .ok false
  | some (.number value) => .ok (TrustyService.cfnumberAsBool value)
  | some _ => .error .crashed

/-- A string that could be created holds the bytes it was created from. -/
theorem cfstringAsStdString_of_create {s : StdString} {hostRef : String}
    (hcreate : cfStringCreateWithCString s = some hostRef) :
    cfstringAsStdString (some (.string hostRef)) = .ok s.cStr := by
  rw [cfStringCreateWithCString, String.fromUTF8?] at hcreate
  split at hcreate
  · obtain rfl := Option.some.inj hcreate
    rfl
  · exact nomatch hcreate

/-! ### Services -/

/-- The proxies protocol of a network service. -/
structure Protocol where
  enabled : Bool
  configuration : Option CFDictionary

/-- A network service: its identifier, and its proxies protocol where it has one. -/
structure Service where
  id : String
  proxies : Option Protocol

/-- The preferences of the system. -/
structure System where
  primaryService : Option String
  /-- As committed. -/
  services : List Service
  /-- As applied. -/
  active : List Service

/-- What the calls return that may fail, and the text of `SCErrorString`. -/
structure CallOutcomes where
  lock : Bool := true
  setConfiguration : Bool := true
  commit : Bool := true
  apply : Bool := true
  unlock : Bool := true
  error : String := ""

/-- `kSCPropNetProxiesHTTPProxy`, the key of the host. -/
def httpProxyKey : String := "HTTPProxy"

/-- `kSCPropNetProxiesHTTPPort`, the key of the port. -/
def httpPortKey : String := "HTTPPort"

/-- `kSCPropNetProxiesHTTPEnable`, the key of the switch. -/
def httpEnableKey : String := "HTTPEnable"

/-- The entries for HTTP. -/
def httpKeys : List String := [httpProxyKey, httpPortKey, httpEnableKey]

/-- What a configuration has under a key; there is nothing in a missing one. -/
def entry (config : Option CFDictionary) (key : String) : Option CFType := config.bind (· key)

namespace Service

/-- The service at which the loops stop. -/
def isTarget (primaryServiceId : String) (service : Service) : Bool :=
  service.id = primaryServiceId && service.proxies.any fun proxies ↦ proxies.enabled

/-- The configuration of the proxies, where there is one. -/
def configuration (service : Service) : Option CFDictionary :=
  service.proxies.bind fun proxies ↦ proxies.configuration

/-- The service with another configuration of its proxies. -/
def withConfiguration (config : Option CFDictionary) (service : Service) : Service :=
  { service with
    proxies := service.proxies.map fun proxies ↦ { proxies with configuration := config } }

/-- A configuration does not make a target. -/
theorem isTarget_withConfiguration (id : String) (config : Option CFDictionary)
    (service : Service) : (service.withConfiguration config).isTarget id = service.isTarget id := by
  obtain ⟨_, _ | _⟩ := service <;> rfl

/-- A target has the configuration that it is given. -/
theorem configuration_withConfiguration {id : String} {service : Service}
    (htarget : service.isTarget id = true) (config : Option CFDictionary) :
    (service.withConfiguration config).configuration = config := by
  obtain ⟨_, _ | _⟩ := service
  · simp [isTarget] at htarget
  · rfl

end Service

/-! ### Reading -/

/-- The state that a configuration holds. -/
def readConfiguration (config : Option CFDictionary) : Except Failure ProxyState :=
  match config with
  | none => .ok .none
  | some config => do
    let host ← cfstringAsStdString (config httpProxyKey)
    let port ← cfnumberAsInt32 (config httpPortKey)
    let enabled ← cfnumberAsBool (config httpEnableKey)
    return { enabled := enabled, host := host, port := port }

/-- The loop of `get_http_proxy_state`. -/
def readServices (primaryServiceId : String) : List Service → Except Failure ProxyState
  | [] => .ok .none
  | service :: services =>
    if service.id ≠ primaryServiceId then readServices primaryServiceId services
    else
      match service.proxies with
      | none => readServices primaryServiceId services
      | some proxies =>
        if ¬ proxies.enabled then readServices primaryServiceId services
        else readConfiguration proxies.configuration

/-- The state of the primary service; without a primary service an exception is thrown. -/
def getHttpProxyState (sys : System) : Except Failure ProxyState :=
  match sys.primaryService with
  | none => .error (.thrown "no primary network service?")
  | some primaryServiceId => readServices primaryServiceId sys.services

/-! ### Writing -/

/-- The copy that is stored. -/
def writeConfiguration (state : ProxyState) (config : Option CFDictionary) :
    Except Failure (Option CFDictionary) :=
  if state.host ≠ [] then
    let copy : CFDictionary := config.getD fun _ ↦ none
    match cfStringCreateWithCString state.host with
    | none => .error .crashed
    | some hostRef =>
      let copy := Function.update copy httpProxyKey (some (.string hostRef))
      let copy := Function.update copy httpPortKey (some (.number state.port.toInt))
      .ok (some (Function.update copy httpEnableKey
        (some (.number (if state.enabled then 1 else 0)))))
  -- the host name is empty: the entire dictionary is removed
  else .ok none

/-- The loop of `set_http_proxy_state`, with the service whose configuration has been set. -/
def storeServices (o : CallOutcomes) (primaryServiceId : String) (state : ProxyState) :
    List Service → Except Failure (List Service × Option Service)
  | [] => .ok ([], none)
  | service :: services =>
    let skip : Except Failure (List Service × Option Service) := do
      let (services, stored) ← storeServices o primaryServiceId state services
      return (service :: services, stored)
    if service.id ≠ primaryServiceId then skip
    else
      match service.proxies with
      | none => skip
      | some proxies =>
        if ¬ proxies.enabled then skip
        else do
          let copy ← writeConfiguration state proxies.configuration
          if o.setConfiguration then
            let service := { service with proxies := some { proxies with configuration := copy } }
            return (service :: services, some service)
          else return (service :: services, none)

/-- What `set_http_proxy_state` does: how it ends, the system it leaves, and what has succeeded. -/
structure Report where
  result : Except Failure Unit
  system : System
  /-- The service with the configuration that has been set. -/
  stored : Option Service := none
  committed : Bool := false
  applied : Bool := false

/-- What follows the loop. -/
def finish (o : CallOutcomes) (sys : System) (services : List Service) (stored : Option Service) :
    Report :=
  let didUpdate := stored.isSome
  let committed := didUpdate && o.commit
  let applied := didUpdate && o.apply
  let sys := if committed then { sys with services := services } else sys
  let sys := if applied then { sys with active := sys.services } else sys
  { result := if o.unlock then .ok () else .error (.thrown o.error)
    system := sys
    stored := stored
    committed := committed
    applied := applied }

/-- The state is stored for the primary service, committed and applied under a lock. A failed commit
or apply is not reported. -/
def setHttpProxyState (o : CallOutcomes) (state : ProxyState) (sys : System) : Report :=
  if ¬ o.lock then { result := .error (.thrown o.error), system := sys }
  else
    match sys.primaryService with
    | none => { result := .error (.thrown "no primary network service?"), system := sys }
    | some primaryServiceId =>
      match storeServices o primaryServiceId state sys.services with
      | .error e => { result := .error e, system := sys }
      | .ok (services, stored) => finish o sys services stored

/-! ### What the loops do -/

variable {o : CallOutcomes} {state : ProxyState} {sys : System} {id : String}
  {service target : Service} {services before after : List Service}
  {config copy : Option CFDictionary}

/-- Reading passes over what is no target. -/
theorem readServices_cons_of_not (hnot : service.isTarget id = false) :
    readServices id (service :: services) = readServices id services := by
  obtain ⟨_, _ | ⟨enabled, _⟩⟩ := service <;> simp_all [Service.isTarget, readServices]

/-- Writing passes over what is no target. -/
theorem storeServices_cons_of_not (hnot : service.isTarget id = false) :
    storeServices o id state (service :: services) = do
      let (services, stored) ← storeServices o id state services
      return (service :: services, stored) := by
  obtain ⟨_, _ | ⟨enabled, _⟩⟩ := service <;> simp_all [Service.isTarget, storeServices]

/-- **Reading**: the loop passes over the services before the first target. -/
theorem readServices_append (services : List Service)
    (hbefore : ∀ service ∈ before, service.isTarget id = false) :
    readServices id (before ++ services) = readServices id services := by
  induction before with
  | nil => rfl
  | cons service before ih =>
    obtain ⟨hnot, hbefore⟩ := List.forall_mem_cons.1 hbefore
    rw [List.cons_append, readServices_cons_of_not hnot, ih hbefore]

/-- Reading stops at the first target. -/
theorem readServices_target (htarget : target.isTarget id = true) :
    readServices id (target :: after) = readConfiguration target.configuration := by
  obtain ⟨_, _ | ⟨enabled, _⟩⟩ := target <;>
    simp_all [Service.isTarget, readServices, Service.configuration]

/-- **Writing**: the loop passes over the same services. -/
theorem storeServices_append (o : CallOutcomes) (state : ProxyState) (services : List Service)
    (hbefore : ∀ service ∈ before, service.isTarget id = false) :
    storeServices o id state (before ++ services) = do
      let (services, stored) ← storeServices o id state services
      return (before ++ services, stored) := by
  induction before with
  | nil => cases hstore : storeServices o id state services <;> simp [hstore]
  | cons service before ih =>
    obtain ⟨hnot, hbefore⟩ := List.forall_mem_cons.1 hbefore
    rw [List.cons_append, storeServices_cons_of_not hnot, ih hbefore]
    cases storeServices o id state services <;> rfl

/-- Writing stops at the first target. -/
theorem storeServices_target (htarget : target.isTarget id = true) :
    storeServices o id state (target :: after) = do
      let copy ← writeConfiguration state target.configuration
      if o.setConfiguration then
        return (target.withConfiguration copy :: after, some (target.withConfiguration copy))
      else return (target :: after, none) := by
  obtain ⟨_, _ | ⟨enabled, _⟩⟩ := target <;>
    simp_all [Service.isTarget, storeServices, Service.configuration, Service.withConfiguration]

/-- Without a target nothing is found. -/
theorem loops_of_not (o : CallOutcomes) (state : ProxyState)
    (hnot : ∀ service ∈ services, service.isTarget id = false) :
    readServices id services = .ok .none ∧
      storeServices o id state services = .ok (services, none) := by
  have hread := readServices_append [] hnot
  have hstore := storeServices_append o state [] hnot
  rw [List.append_nil] at hread hstore
  refine ⟨hread, hstore.trans ?_⟩
  show Except.ok (services ++ [], none) = _
  rw [List.append_nil]

/-! ### What setting does -/

/-- **What is written** for a state, in the place of a configuration. -/
inductive Written (state : ProxyState) (config : Option CFDictionary) : Option CFDictionary → Prop
  | removed (hhost : state.host = []) : Written state config none
  | updated (copy : CFDictionary) (hostRef : String) (hhost : state.host ≠ [])
    (hcreate : cfStringCreateWithCString state.host = some hostRef)
    (hproxy : copy httpProxyKey = some (.string hostRef))
    (hport : copy httpPortKey = some (.number state.port.toInt))
    (henable : copy httpEnableKey = some (.number (if state.enabled then 1 else 0)))
    (hothers : ∀ key ∉ httpKeys, copy key = entry config key) : Written state config (some copy)

/-- What the code stores is what is written for the state: three entries, and the others as they
were. -/
theorem written_of_writeConfiguration (hcopy : writeConfiguration state config = .ok copy) :
    Written state config copy := by
  rw [writeConfiguration] at hcopy
  by_cases hhost : state.host ≠ []
  · rw [if_pos hhost] at hcopy
    cases hcreate : cfStringCreateWithCString state.host with
    | none => simp [hcreate] at hcopy
    | some hostRef =>
      simp only [hcreate] at hcopy
      obtain rfl := Except.ok.inj hcopy
      refine .updated _ hostRef hhost hcreate ?_ ?_ ?_ fun key hkey ↦ ?_
      · simp [httpProxyKey, httpPortKey, httpEnableKey]
      · simp [httpPortKey, httpEnableKey]
      · simp
      · simp only [httpKeys, List.mem_cons, List.not_mem_nil, or_false, not_or] at hkey
        obtain ⟨hproxy, hport, henable⟩ := hkey
        cases config <;> simp [entry, hproxy, hport, henable]
  · rw [if_neg hhost] at hcopy
    obtain rfl := Except.ok.inj hcopy
    exact .removed (not_not.1 hhost)

/-- The service that is read and written. -/
def System.target? (sys : System) : Option Service :=
  sys.primaryService.bind fun id ↦ sys.services.find? (Service.isTarget id)

/-- The host name can be made into a string. -/
def encodable (host : StdString) : Bool := host = [] || (cfStringCreateWithCString host).isSome

/-- A host in UTF-8 can be written. -/
theorem exists_writeConfiguration (hhost : encodable state.host = true)
    (config : Option CFDictionary) : ∃ copy, writeConfiguration state config = .ok copy := by
  rw [encodable, Bool.or_eq_true, decide_eq_true_iff] at hhost
  rw [writeConfiguration]
  by_cases hnil : state.host ≠ []
  · obtain ⟨hostRef, hcreate⟩ := Option.isSome_iff_exists.1 (hhost.resolve_left hnil)
    rw [if_pos hnil, hcreate]
    exact ⟨_, rfl⟩
  · rw [if_neg hnil]
    exact ⟨_, rfl⟩

/-- Any other host is a null string, which a dictionary does not take. -/
theorem writeConfiguration_of_not (hhost : encodable state.host = false)
    (config : Option CFDictionary) : writeConfiguration state config = .error .crashed := by
  rw [encodable, Bool.or_eq_false_iff, decide_eq_false_iff_not, Option.isSome_eq_false_iff,
    Option.isNone_iff_eq_none] at hhost
  rw [writeConfiguration, if_pos hhost.1, hhost.2]

/-- Only hosts in UTF-8 are written. -/
theorem encodable_of_writeConfiguration (hcopy : writeConfiguration state config = .ok copy) :
    encodable state.host = true := by
  by_contra hnot
  rw [writeConfiguration_of_not (Bool.eq_false_iff.2 hnot)] at hcopy
  exact nomatch hcopy

/-- **What setting does**, with the services around the target. -/
inductive Does (o : CallOutcomes) (state : ProxyState) (sys : System) : Report → Prop
  | locked (hlock : o.lock = false) :
    Does o state sys { result := .error (.thrown o.error), system := sys }
  | headless (hlock : o.lock = true) (hid : sys.primaryService = none) :
    Does o state sys { result := .error (.thrown "no primary network service?"), system := sys }
  | nowhere (hlock : o.lock = true) (hid : sys.primaryService ≠ none)
    (htarget : sys.target? = none) : Does o state sys (finish o sys sys.services none)
  | crashed (target : Service) (hlock : o.lock = true) (htarget : sys.target? = some target)
    (hhost : encodable state.host = false) :
    Does o state sys { result := .error .crashed, system := sys }
  | refused (target : Service) (hlock : o.lock = true) (htarget : sys.target? = some target)
    (hhost : encodable state.host = true) (hset : o.setConfiguration = false) :
    Does o state sys (finish o sys sys.services none)
  | stored (before after : List Service) (target : Service) (copy : Option CFDictionary)
    (hlock : o.lock = true) (htarget : sys.target? = some target)
    (hservices : sys.services = before ++ target :: after)
    (hbefore : ∀ service ∈ before, service.isTarget target.id = false)
    (hcopy : writeConfiguration state target.configuration = .ok copy)
    (hset : o.setConfiguration = true) :
    Does o state sys (finish o sys (before ++ target.withConfiguration copy :: after)
      (some (target.withConfiguration copy)))

/-- The target, and what stands before and after it. -/
theorem exists_of_target (htarget : sys.target? = some target) :
    target.isTarget target.id = true ∧ sys.primaryService = some target.id ∧
      ∃ before after, sys.services = before ++ target :: after ∧
        ∀ service ∈ before, service.isTarget target.id = false := by
  obtain ⟨id, hid, hfind⟩ := Option.bind_eq_some_iff.1 htarget
  obtain ⟨hfound, before, after, hservices, hbefore⟩ := List.find?_eq_some_iff_append.1 hfind
  obtain rfl : target.id = id := by
    rw [Service.isTarget, Bool.and_eq_true, decide_eq_true_iff] at hfound
    exact hfound.1
  exact ⟨hfound, hid, before, after, hservices, fun service hservice ↦ by
    simpa using hbefore service hservice⟩

/-- **Each call** does one of these things. -/
theorem does_setHttpProxyState (o : CallOutcomes) (state : ProxyState) (sys : System) :
    Does o state sys (setHttpProxyState o state sys) := by
  cases hlock : o.lock with
  | false =>
    rw [setHttpProxyState, if_pos (by simp [hlock])]
    exact .locked hlock
  | true =>
    rw [setHttpProxyState, if_neg (by simp [hlock])]
    cases hid : sys.primaryService with
    | none => exact .headless hlock hid
    | some id =>
      cases htarget : sys.target? with
      | none =>
        have hfind : sys.services.find? (Service.isTarget id) = none := by
          rw [System.target?, hid] at htarget
          exact htarget
        have hnot : ∀ service ∈ sys.services, service.isTarget id = false := fun service hmem ↦
          Bool.eq_false_iff.2 (List.find?_eq_none.1 hfind service hmem)
        simp only [(loops_of_not o state hnot).2]
        exact .nowhere hlock (by simp [hid]) htarget
      | some target =>
        obtain ⟨hfound, hid', before, after, hservices, hbefore⟩ := exists_of_target htarget
        obtain rfl : target.id = id := Option.some.inj (hid'.symm.trans hid)
        have hstore := storeServices_append o state (target :: after) hbefore
        rw [← hservices, storeServices_target hfound] at hstore
        simp only [hstore]
        cases hhost : encodable state.host with
        | false =>
          rw [writeConfiguration_of_not hhost]
          exact .crashed target hlock htarget hhost
        | true =>
          obtain ⟨copy, hcopy⟩ := exists_writeConfiguration hhost target.configuration
          rw [hcopy]
          cases hset : o.setConfiguration with
          | false =>
            show Does o state sys (finish o sys (before ++ target :: after) none)
            rw [← hservices]
            exact .refused target hlock htarget hhost hset
          | true =>
            exact .stored before after target copy hlock htarget hservices hbefore hcopy hset

/-! ### The service whose calls succeed -/

/-- A configuration, with its entries for HTTP. -/
def viewConfiguration (config : CFDictionary) : ProxiesConfig where
  httpProxy :=
    match config httpProxyKey with
    | some (.string s) => some s.toByteArray.data.toList
    | _ => none
  httpPort :=
    match config httpPortKey with
    | some (.number value) => some value
    | _ => none
  httpEnable :=
    match config httpEnableKey with
    | some (.number value) => some value
    | _ => none

/-- A service as `TrustyService.lean` has it. -/
def Service.view (service : Service) : NetworkService where
  id := service.id
  proxies := service.proxies.map fun proxies ↦
    { enabled := proxies.enabled, configuration := proxies.configuration.map viewConfiguration }

/-- The committed settings as `TrustyService.lean` has them. -/
def System.view (sys : System) : Preferences where
  primaryService := sys.primaryService
  services := sys.services.map Service.view

/-- Both services read the same state. -/
theorem readConfiguration_view {read : ProxyState} (hread : readConfiguration config = .ok read) :
    TrustyService.readConfiguration (config.map viewConfiguration) = read := by
  cases config with
  | none => exact Except.ok.inj hread
  | some config =>
    obtain ⟨host, hhost, hread⟩ := exists_ok_of_bind hread
    obtain ⟨port, hport, hread⟩ := exists_ok_of_bind hread
    obtain ⟨enabled, henabled, hread⟩ := exists_ok_of_bind hread
    obtain rfl := Except.ok.inj hread
    have hhost' : (viewConfiguration config).httpProxy.getD [] = host := by
      rw [viewConfiguration]
      rcases hentry : config httpProxyKey with _ | ⟨_ | _ | _ | _⟩ <;>
        simp_all [cfstringAsStdString]
    have hport' : (viewConfiguration config).httpPort.elim 0 TrustyService.cfnumberAsInt32 =
        port := by
      rw [viewConfiguration]
      rcases hentry : config httpPortKey with _ | ⟨_ | _ | _ | _⟩ <;> simp_all [cfnumberAsInt32]
    have henabled' : (viewConfiguration config).httpEnable.elim false
        TrustyService.cfnumberAsBool = enabled := by
      rw [viewConfiguration]
      rcases hentry : config httpEnableKey with _ | ⟨_ | _ | _ | _⟩ <;> simp_all [cfnumberAsBool]
    rw [Option.map_some, TrustyService.readConfiguration, hhost', hport', henabled']

/-- **Reading** finds what the service reads whose calls succeed. -/
theorem getHttpProxyState_view {read : ProxyState} (hget : getHttpProxyState sys = .ok read) :
    TrustyService.getHttpProxyState sys.view = .ok read := by
  obtain ⟨_ | id, services, active⟩ := sys
  · exact nomatch hget
  have hread : readServices id services = .ok read := hget
  show Except.ok (TrustyService.readServices id (services.map Service.view)) = _
  refine congrArg Except.ok ?_
  clear hget
  induction services with
  | nil => exact Except.ok.inj hread
  | cons service services ih =>
    rw [List.map_cons]
    cases htarget : service.isTarget id with
    | false =>
      rw [readServices_cons_of_not htarget] at hread
      have hnot : TrustyService.isTarget id service.view = false := by
        obtain ⟨_, _ | _⟩ := service <;> exact htarget
      rw [(TrustyService.readServices_cons_of_not .none _ hnot).1, ih hread]
    | true =>
      rw [readServices_target htarget] at hread
      obtain ⟨_, _ | ⟨enabled, config⟩⟩ := service
      · simp [Service.isTarget] at htarget
      · have hview := readConfiguration_view hread
        simp_all [Service.isTarget, Service.view, TrustyService.readServices,
          Service.configuration]

/-- Both services store the same entries. -/
theorem writeConfiguration_view (hcopy : writeConfiguration state config = .ok copy) :
    TrustyService.writeConfiguration state (config.map viewConfiguration) =
      copy.map viewConfiguration := by
  rw [TrustyService.writeConfiguration]
  cases written_of_writeConfiguration hcopy with
  | removed hhost =>
    rw [if_neg (not_not.2 hhost)]
    rfl
  | updated copy hostRef hhost hcreate hproxy hport henable _ =>
    have hbytes := Except.ok.inj (cfstringAsStdString_of_create hcreate)
    rw [if_pos hhost, Option.map_some, viewConfiguration, hproxy, hport, henable, ← hbytes]
    cases config <;> rfl

/-- Both services stop at the same target. -/
theorem isTarget_view (id : String) (service : Service) :
    TrustyService.isTarget id service.view = service.isTarget id := by
  obtain ⟨_, _ | _⟩ := service <;> rfl

/-- The services before a target stay. -/
theorem writeServices_view (state : ProxyState) (services : List NetworkService)
    (hbefore : ∀ service ∈ before, service.isTarget id = false) :
    TrustyService.writeServices id state (before.map Service.view ++ services) =
      before.map Service.view ++ TrustyService.writeServices id state services := by
  induction before with
  | nil => rfl
  | cons service before ih =>
    obtain ⟨hnot, hbefore⟩ := List.forall_mem_cons.1 hbefore
    have hview : TrustyService.isTarget id service.view = false := by
      rw [isTarget_view, hnot]
    rw [List.map_cons, List.cons_append,
      (TrustyService.readServices_cons_of_not state _ hview).2, ih hbefore]
    rfl

/-- Both loops change the target and nothing else. -/
theorem writeServices_target_view (htarget : target.isTarget id = true)
    (hcopy : writeConfiguration state target.configuration = .ok copy) :
    TrustyService.writeServices id state (target.view :: after.map Service.view) =
      (target.withConfiguration copy).view :: after.map Service.view := by
  obtain ⟨_, _ | ⟨enabled, config⟩⟩ := target
  · simp [Service.isTarget] at htarget
  · have hview := writeConfiguration_view hcopy
    simp_all [Service.isTarget, Service.view, TrustyService.writeServices, Service.configuration,
      Service.withConfiguration]

/-- **Writing** leaves what the service leaves whose calls succeed. -/
theorem setHttpProxyState_view (hresult : (setHttpProxyState {} state sys).result = .ok ()) :
    TrustyService.setHttpProxyState state sys.view =
      .ok (setHttpProxyState {} state sys).system.view := by
  generalize hreport : setHttpProxyState {} state sys = report at hresult ⊢
  have hdoes := does_setHttpProxyState {} state sys
  rw [hreport] at hdoes
  cases hdoes with
  | locked | headless | crashed => exact nomatch hresult
  | refused _ _ _ _ hset => exact nomatch hset
  | nowhere _ hid htarget =>
    obtain ⟨id, hid⟩ := Option.ne_none_iff_exists'.1 hid
    have hnot : ∀ service ∈ sys.services, service.isTarget id = false := by
      rw [System.target?, hid] at htarget
      exact fun service hmem ↦
        Bool.eq_false_iff.2 (List.find?_eq_none.1 htarget service hmem)
    have hwrite := writeServices_view state [] hnot
    rw [List.append_nil] at hwrite
    obtain ⟨_, services, active⟩ := sys
    obtain rfl := hid
    have hservices := hwrite.trans (List.append_nil _)
    exact congrArg Except.ok (congrArg (Preferences.mk (some id)) hservices)
  | stored before after target copy _ htarget hservices hbefore hcopy _ =>
    obtain ⟨hfound, hid, -⟩ := exists_of_target htarget
    have hwrite := writeServices_view state (target.view :: after.map Service.view) hbefore
    rw [writeServices_target_view hfound hcopy, ← List.map_cons, ← List.map_cons,
      ← List.map_append, ← List.map_append, ← hservices] at hwrite
    obtain ⟨_, services, active⟩ := sys
    obtain rfl := hid
    exact congrArg Except.ok (congrArg (Preferences.mk (some target.id)) hwrite)

end SystemConfiguration

end Trusty

end Amanuensis
