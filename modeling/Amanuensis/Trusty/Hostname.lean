import Mathlib.Data.List.Basic
import Amanuensis.Trusty.ProxyState

/-!
# Host names

`is_valid_hostname_or_empty` is meant to accept the names of ASCII letters, digits, dots and hyphens
that start with a letter or a digit, have at most 253 bytes and are not punycode. It looks for
`xn--` after the first four bytes of a name instead of in them, so that it is right about exactly
the names for which that makes no difference (`isValidHostnameOrEmpty_iff`).
-/

namespace Amanuensis

namespace Trusty

/-- `std::isalpha` in the C locale. -/
def isAlpha (c : UInt8) : Bool := (65 ≤ c && c ≤ 90) || (97 ≤ c && c ≤ 122)

/-- `std::isdigit`. -/
def isDigit (c : UInt8) : Bool := 48 ≤ c && c ≤ 57

/-- The characters of a host name. -/
def isHostnameChar (c : UInt8) : Bool :=
  isAlpha c || isDigit c || c = UInt8.ofNat '.'.toNat || c = UInt8.ofNat '-'.toNat

/-- What punycode names start with. -/
def punycodeMark : StdString := StdString.ofString "xn--"

/-- `is_valid_hostname_or_empty`. -/
def isValidHostnameOrEmpty (s : StdString) : Bool :=
  match s with
  | [] => true
  | first :: _ =>
    if s.length ≥ 254 then false
    else if !isAlpha first && !isDigit first then false
    -- `s.substr(4)` is what follows the first four bytes
    else if s.length ≥ 4 ∧ s.drop 4 = punycodeMark then false
    else s.all isHostnameChar

/-- **The host names** that are documented, but for punycode. -/
structure WellFormedHostname (s : StdString) : Prop where
  length_le : s.length ≤ 253
  chars : ∀ c ∈ s, isHostnameChar c = true
  first : ∃ c ∈ s.head?, isAlpha c = true ∨ isDigit c = true

/-- **The documented language**. -/
def ValidHostname (s : StdString) : Prop :=
  s = [] ∨ WellFormedHostname s ∧ ¬ punycodeMark <+: s

/-- **What is accepted**: a name of which punycode is not what follows the first four bytes. -/
theorem isValidHostnameOrEmpty_eq_true_iff (s : StdString) :
    isValidHostnameOrEmpty s = true ↔
      s = [] ∨ WellFormedHostname s ∧ s.drop 4 ≠ punycodeMark := by
  cases s with
  | nil => exact iff_of_true rfl (.inl rfl)
  | cons first rest =>
    have hne : first :: rest ≠ [] := List.cons_ne_nil _ _
    rw [isValidHostnameOrEmpty, or_iff_right hne]
    split_ifs with hlength hfirst hmark
    · exact iff_of_false id fun h ↦ absurd h.1.length_le (by omega)
    · refine iff_of_false id fun ⟨h, _⟩ ↦ ?_
      obtain ⟨c, hc, hstart⟩ := h.first
      obtain rfl : first = c := Option.some.inj hc
      simp_all
    · exact iff_of_false id fun h ↦ h.2 hmark.2
    · have hstart : isAlpha first = true ∨ isDigit first = true := by
        simp only [Bool.and_eq_true, Bool.not_eq_true', not_and_or, Bool.not_eq_false] at hfirst
        exact hfirst
      have hdrop : (first :: rest).drop 4 ≠ punycodeMark := by
        intro heq
        have hlong : (first :: rest).length ≥ 4 := by
          have hmarked := congrArg List.length heq
          rw [List.length_drop] at hmarked
          have hfour : punycodeMark.length = 4 := by decide
          omega
        exact hmark ⟨hlong, heq⟩
      rw [List.all_eq_true]
      exact ⟨fun hchars ↦ ⟨⟨by omega, hchars, first, rfl, hstart⟩, hdrop⟩, fun h ↦ h.1.chars⟩

/-- **When the documented language is accepted**: the name is no host name anyway, or looks the same
in its first four bytes and after them. -/
theorem isValidHostnameOrEmpty_iff (s : StdString) :
    (isValidHostnameOrEmpty s = true ↔ ValidHostname s) ↔
      (WellFormedHostname s → (punycodeMark <+: s ↔ s.drop 4 = punycodeMark)) := by
  rw [isValidHostnameOrEmpty_eq_true_iff, ValidHostname]
  constructor
  · intro hiff hs
    obtain ⟨c, hc, -⟩ := hs.first
    have hne : s ≠ [] := by
      rintro rfl
      exact nomatch hc
    rw [or_iff_right hne, or_iff_right hne, and_iff_right hs, and_iff_right hs] at hiff
    exact (not_iff_not.1 hiff).symm
  · intro hsame
    exact or_congr_right (and_congr_right fun hs ↦ not_congr (hsame hs).symm)

/-- A punycode name is accepted, and a name that is none is not. -/
theorem punycode_isValidHostnameOrEmpty :
    ¬ (isValidHostnameOrEmpty (StdString.ofString "xn--abc") = true ↔
        ValidHostname (StdString.ofString "xn--abc")) ∧
      ¬ (isValidHostnameOrEmpty (StdString.ofString "abcdxn--") = true ↔
        ValidHostname (StdString.ofString "abcdxn--")) := by
  constructor
  · intro hiff
    rcases hiff.1 (by decide) with hnil | ⟨-, hmark⟩
    · exact absurd hnil (by decide)
    · exact hmark ⟨StdString.ofString "abc", by decide⟩
  · intro hiff
    have hvalid : ValidHostname (StdString.ofString "abcdxn--") :=
      .inr ⟨⟨by decide, by decide, _, rfl, .inl (by decide)⟩, by decide⟩
    exact absurd (hiff.2 hvalid) (by decide)

end Trusty

end Amanuensis
