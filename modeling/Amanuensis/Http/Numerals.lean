import Mathlib.Data.List.Induction
import Amanuensis.Http.Head

/-!
# Numerals

The parser accumulates a string of digits in an `int`, digit by digit; the result is the number
the string denotes, reduced to 32 bits (`intValue_eq_toInt`). `decimal` is the numeral without
leading zeros, which is also what the formatter writes for a number that is not negative.
-/

namespace Amanuensis

namespace HttpMessageParser

/-- The number a string of decimal digits denotes. -/
def natValue (digits : QByteArray) : ℤ := digits.foldl (fun v d ↦ v * 10 + digitValue d) 0

theorem natValue_append_singleton (ds : QByteArray) (d : UInt8) :
    natValue (ds ++ [d]) = natValue ds * 10 + digitValue d := by
  simp [natValue]

/-- **The accumulated `int`** is the number modulo `2 ^ 32`. -/
theorem intValue_eq_toInt (ds : QByteArray) : intValue ds = toInt (natValue ds) := by
  induction ds using List.reverseRecOn with
  | nil => rfl
  | append_singleton ds d ih =>
    rw [intValue_append_singleton, ih, natValue_append_singleton]
    simp only [toInt]
    rw [Int.bmod_add_bmod, Int.add_bmod, Int.bmod_mul_bmod, ← Int.add_bmod]

theorem natValue_nonneg {ds : QByteArray} (hds : ∀ d ∈ ds, isDigit d = true) : 0 ≤ natValue ds := by
  induction ds using List.reverseRecOn with
  | nil => exact Int.le_refl 0
  | append_singleton ds d ih =>
    have hprefix := ih fun c hc ↦ hds c (List.mem_append_left _ hc)
    have hd := isDigit_iff.1 (hds d (by simp))
    have hval : digitValue d = (d.toNat : ℤ) - 48 := rfl
    rw [natValue_append_singleton, hval]
    omega

/-- **An `int` holds the number read** exactly when the number is one that an `int` can hold. -/
theorem intValue_eq_natValue_iff {ds : QByteArray} (hds : ∀ d ∈ ds, isDigit d = true) :
    intValue ds = natValue ds ↔ natValue ds < 2 ^ 31 := by
  have hnonneg := natValue_nonneg hds
  rw [intValue_eq_toInt, toInt]
  constructor
  · intro heq
    have hlt := Int.bmod_lt (x := natValue ds) (m := 2 ^ 32) (by decide)
    omega
  · intro hlt
    exact Int.bmod_eq_of_le (by omega) (by omega)

/-- The numeral of a natural number, without leading zeros. -/
def decimal (n : ℕ) : QByteArray := (Nat.toDigits 10 n).map ascii

theorem toNat_ascii_of_isDigit {c : Char} (h : c.isDigit = true) :
    (ascii c).toNat = c.toNat ∧ 48 ≤ c.toNat ∧ c.toNat ≤ 57 := by
  rw [Char.isDigit_iff_toNat] at h
  have htoNat : (ascii c).toNat = c.toNat % 256 := rfl
  have h0 : '0'.toNat = 48 := rfl
  have h9 : '9'.toNat = 57 := rfl
  omega

theorem natValue_map_ascii {cs : List Char} (h : ∀ c ∈ cs, c.isDigit = true) :
    natValue (cs.map ascii) = Nat.ofDigitChars 10 cs 0 := by
  induction cs using List.reverseRecOn with
  | nil => rfl
  | append_singleton cs c ih =>
    obtain ⟨hc, hlo, -⟩ := toNat_ascii_of_isDigit (h c (by simp))
    have hval : digitValue (ascii c) = ((c.toNat - '0'.toNat : ℕ) : ℤ) := by
      have h0 : '0'.toNat = 48 := rfl
      have hdef : digitValue (ascii c) = ((ascii c).toNat : ℤ) - 48 := rfl
      rw [hdef, hc, h0]
      omega
    rw [List.map_append, List.map_singleton, natValue_append_singleton,
      ih fun d hd ↦ h d (by simp [hd]), hval, Nat.ofDigitChars_append, Nat.ofDigitChars_cons,
      Nat.ofDigitChars_nil, Int.natCast_add, Int.natCast_mul, Int.mul_comm]
    rfl

theorem natValue_decimal (n : ℕ) : natValue (decimal n) = n := by
  rw [decimal, natValue_map_ascii fun c hc ↦ Nat.isDigit_of_mem_toDigits (by decide) (by decide) hc,
    Nat.ofDigitChars_ten_toDigits]

/-- A number within `int` is read back from its numeral. -/
theorem intValue_decimal {n : ℕ} (hn : n < 2 ^ 31) : intValue (decimal n) = n := by
  rw [intValue_eq_toInt, natValue_decimal, toInt]
  exact Int.bmod_eq_of_le (by omega) (by omega)

theorem decimal_ne_nil (n : ℕ) : decimal n ≠ [] := by
  rw [decimal, ne_eq, List.map_eq_nil_iff]
  exact Nat.toDigits_ne_nil

theorem isDigit_of_mem_decimal {n : ℕ} {b : UInt8} (hb : b ∈ decimal n) : isDigit b = true := by
  obtain ⟨c, hc, rfl⟩ := List.mem_map.1 hb
  have hdigit := Nat.isDigit_of_mem_toDigits (by decide) (by decide) hc
  obtain ⟨htoNat, hlo, hhi⟩ := toNat_ascii_of_isDigit hdigit
  simp only [isDigit, UInt8.le_iff_toNat_le, Bool.decide_and, Bool.and_eq_true, decide_eq_true_eq,
    htoNat]
  exact ⟨hlo, hhi⟩

theorem toLatin1_digits (n : ℕ) : (QString.digits n).toLatin1 = decimal n := by
  rw [QString.digits, QString.toLatin1, List.map_map]
  exact List.map_congr_left fun c _ ↦ QChar.toLatin1_ofChar c

/-- What the formatter writes for a number that is not negative. -/
theorem toLatin1_number_natCast (n : ℕ) : (QString.number n).toLatin1 = decimal n := by
  have hneg : ¬ (n : ℤ) < 0 := by omega
  rw [QString.number, if_neg hneg, Int.natAbs_natCast, toLatin1_digits]

/-- A formatted number consists of digits and a sign. -/
theorem notMem_toLatin1_number {a : UInt8} (hdigit : isDigit a = false) (hsign : a ≠ ascii '-')
    (i : ℤ) : a ∉ (QString.number i).toLatin1 := by
  have hdecimal : a ∉ (QString.digits i.natAbs).toLatin1 := by
    rw [toLatin1_digits]
    intro hm
    exact absurd (isDigit_of_mem_decimal hm) (by simp [hdigit])
  rw [QString.number]
  split_ifs
  · rw [QString.toLatin1_cons, QChar.toLatin1_ofChar, List.mem_cons]
    exact not_or.2 ⟨hsign, hdecimal⟩
  · exact hdecimal

end HttpMessageParser

end Amanuensis
