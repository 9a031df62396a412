import Mathlib.Algebra.Group.Int.Defs
import Mathlib.Data.List.TakeWhile

/-!
# Proxy states

The HTTP proxy settings of the system, as a value that the application and its privileged helper
exchange in XPC objects. A `std::string` may hold the null character; an XPC string is a C string,
so that what follows the first null character is lost on the way (`ofXpc_toXpc`). In the other
direction a port of 64 bits is cut down to 32 (`inverse_iff`).
-/

namespace Amanuensis

/-- `std::string`, byte by byte. -/
abbrev StdString := List UInt8

namespace StdString

/-- The bytes of a text. -/
def ofString (s : String) : StdString := s.toList.map fun c ↦ UInt8.ofNat c.toNat

/-- `c_str`, read up to the null character. -/
def cStr (s : StdString) : StdString := s.takeWhile (· ≠ 0)

theorem cStr_eq_self_iff {s : StdString} : s.cStr = s ↔ 0 ∉ s := by
  rw [cStr, List.takeWhile_eq_self_iff]
  refine ⟨fun h hmem ↦ ?_, fun h b hb ↦ ?_⟩
  · exact absurd (h 0 hmem) (by simp)
  · exact decide_eq_true fun heq ↦ h (heq ▸ hb)

theorem zero_not_mem_cStr (s : StdString) : 0 ∉ s.cStr := fun hmem ↦
  absurd (List.mem_takeWhile_imp hmem) (by simp)

@[simp] theorem cStr_cStr (s : StdString) : s.cStr.cStr = s.cStr :=
  cStr_eq_self_iff.2 s.zero_not_mem_cStr

end StdString

/-- The texts that a C string can hold. -/
abbrev CString := { s : StdString // 0 ∉ s }

namespace Trusty

/-! ### XPC objects -/

/-- The XPC objects that the helper and its clients exchange. -/
inductive XpcObject
  | null
  | bool (value : Bool)
  | int64 (value : Int64)
  | uint64 (value : UInt64)
  | string (value : StdString)
  | data (bytes : List UInt8)
  | dictionary (entries : List (String × XpcObject))

namespace XpcObject

/-- `xpc_dictionary_get_value`. -/
def getValue (key : String) : XpcObject → Option XpcObject
  | dictionary entries => entries.lookup key
  | _ => none

/-- Two dictionaries hold the same values under the same keys. -/
def SameDictionary (a b : XpcObject) : Prop := ∀ key, a.getValue key = b.getValue key

theorem getValue_eq_none {entries : List (String × XpcObject)} {key : String}
    (hkey : key ∉ entries.map Prod.fst) : (dictionary entries).getValue key = none := by
  refine List.lookup_eq_none_iff.2 fun entry hentry ↦ ?_
  rw [bne_iff_ne]
  rintro rfl
  exact hkey (List.mem_map_of_mem hentry)

end XpcObject

/-! ### Proxy states -/

/-- The state of the HTTP proxy. -/
structure ProxyState where
  enabled : Bool
  host : StdString
  port : Int32
  deriving DecidableEq, Repr

namespace ProxyState

/-- The constructor from an XPC dictionary. -/
def ofXpc (dict : XpcObject) : Except String ProxyState :=
  match dict.getValue "enabled", dict.getValue "host", dict.getValue "port" with
  | some maybeEnabled, some maybeHost, some maybePort =>
    match maybeEnabled, maybeHost, maybePort with
    | .bool enabled, .string host, .int64 port =>
      .ok { enabled := enabled, host := host, port := port.toInt32 }
    | _, _, _ => .error "unexpected type for one of enabled, host, or port"
  | _, _, _ => .error "missing one of enabled, host, and/or port"

/-- The dictionary of a state. -/
def toXpc (state : ProxyState) : XpcObject :=
  .dictionary
    [("enabled", .bool state.enabled), ("host", .string state.host.cStr),
      ("port", .int64 state.port.toInt64)]

/-- **What gets across**: everything up to the first null character of the host. -/
theorem ofXpc_toXpc (state : ProxyState) :
    ofXpc state.toXpc = .ok { state with host := state.host.cStr } := by
  have hport : state.port.toInt64.toInt32 = state.port := Int32.toInt32_toInt64 _
  show Except.ok (ProxyState.mk state.enabled state.host.cStr state.port.toInt64.toInt32) = _
  rw [hport]

/-- No proxy. -/
def none : ProxyState := { enabled := false, host := [], port := 0 }

/-! ### There and back -/

/-- A dictionary that holds a boolean, a string and an integer, and nothing else. -/
structure Dictionary where
  dict : XpcObject
  enabled : Bool
  host : CString
  port : Int64
  getValue_enabled : dict.getValue "enabled" = some (.bool enabled)
  getValue_host : dict.getValue "host" = some (.string host)
  getValue_port : dict.getValue "port" = some (.int64 port)
  getValue_others : ∀ key ∉ ["enabled", "host", "port"], dict.getValue key = Option.none

/-- The constructor throws, or yields a state that is sent as the same dictionary. -/
def Dictionary.ReadsBack (d : Dictionary) : Prop :=
  ∀ state, ofXpc d.dict = .ok state → state.toXpc.SameDictionary d.dict

/-- **A state and its dictionary are inverse** to each other. -/
structure Inverse (state : ProxyState) (d : Dictionary) : Prop where
  decoded : 0 ∉ state.host → ofXpc state.toXpc = .ok state
  encoded : d.ReadsBack

theorem Dictionary.ofXpc_dict (d : Dictionary) :
    ofXpc d.dict = .ok { enabled := d.enabled, host := d.host, port := d.port.toInt32 } := by
  rw [ofXpc, d.getValue_enabled, d.getValue_host, d.getValue_port]

theorem getValue_toXpc_port (state : ProxyState) :
    state.toXpc.getValue "port" = some (.int64 state.port.toInt64) :=
  rfl

theorem Dictionary.readsBack_iff_port (d : Dictionary) :
    d.ReadsBack ↔ d.port.toInt32.toInt64 = d.port := by
  constructor
  · intro hreads
    have hport := hreads _ d.ofXpc_dict "port"
    rw [getValue_toXpc_port, d.getValue_port] at hport
    exact XpcObject.int64.inj (Option.some.inj hport)
  · intro hport state hstate key
    obtain rfl := Except.ok.inj (d.ofXpc_dict.symm.trans hstate)
    by_cases hkey : key ∈ ["enabled", "host", "port"]
    · have hhost : d.host.1.cStr = d.host := StdString.cStr_eq_self_iff.2 d.host.2
      simp only [List.mem_cons, List.not_mem_nil, or_false] at hkey
      rcases hkey with rfl | rfl | rfl
      · exact d.getValue_enabled.symm
      · rw [d.getValue_host]
        exact congrArg (fun text ↦ some (XpcObject.string text)) hhost
      · rw [getValue_toXpc_port, d.getValue_port, hport]
    · rw [d.getValue_others key hkey]
      exact XpcObject.getValue_eq_none hkey

/-- An integer of 64 bits survives 32 of them if it fits. -/
theorem toInt64_toInt32_eq_self_iff (port : Int64) :
    port.toInt32.toInt64 = port ↔ -2 ^ 31 ≤ port.toInt ∧ port.toInt < 2 ^ 31 := by
  rw [← Int64.toInt_inj, Int32.toInt_toInt64, Int64.toInt_toInt32]
  constructor
  · intro heq
    rw [← heq]
    exact ⟨Int.le_bmod (by decide), Int.bmod_lt (by decide)⟩
  · rintro ⟨hle, hlt⟩
    exact Int.bmod_eq_of_le (by simpa using hle) (by simpa using hlt)

/-- **When a state and its dictionary are inverse**: the port of the dictionary fits into 32
bits. -/
theorem inverse_iff (state : ProxyState) (d : Dictionary) :
    Inverse state d ↔ -2 ^ 31 ≤ d.port.toInt ∧ d.port.toInt < 2 ^ 31 := by
  rw [← toInt64_toInt32_eq_self_iff, ← d.readsBack_iff_port]
  refine ⟨fun h ↦ h.encoded, fun h ↦ ⟨fun hhost ↦ ?_, h⟩⟩
  rw [ofXpc_toXpc, StdString.cStr_eq_self_iff.2 hhost]

/-- A port of the value 2³² + 80. -/
def wideDictionary : Dictionary where
  dict := .dictionary [("enabled", .bool true), ("host", .string []), ("port", .int64 4294967376)]
  enabled := true
  host := ⟨[], List.not_mem_nil⟩
  port := 4294967376
  getValue_enabled := rfl
  getValue_host := rfl
  getValue_port := rfl
  getValue_others _ hkey := XpcObject.getValue_eq_none hkey

/-- It is read as 80, without an error. -/
theorem wideDictionary_not_inverse :
    ¬ Inverse .none wideDictionary ∧
      ofXpc wideDictionary.dict = .ok { enabled := true, host := [], port := 80 } := by
  refine ⟨fun h ↦ ?_, wideDictionary.ofXpc_dict⟩
  have hfits := (toInt64_toInt32_eq_self_iff _).1 (wideDictionary.readsBack_iff_port.1 h.encoded)
  exact absurd hfits (by decide)

end ProxyState

end Trusty

end Amanuensis
