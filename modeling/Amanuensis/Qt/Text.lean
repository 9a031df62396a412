import Mathlib.Data.List.Basic
import Mathlib.Algebra.Group.Int.Defs
import Mathlib.Algebra.Group.Nat.Defs

/-!
# Byte arrays and strings

The part of Qt's text classes that the proxy core uses: `QByteArray` is a list of bytes and
`QString` a list of UTF-16 code units, as in Qt. The three conversions between them are what every
forwarded byte crosses:

* `QString::fromLatin1` sends the byte `b` to the code unit `b`;
* `QString::toLatin1` sends the code units up to `U+00FF` back and replaces every other one by a
  single `?`;
* `QString::fromUtf8` decodes UTF-8: a leading byte order mark is dropped, a well-formed sequence
  gives one code unit or a surrogate pair, and a byte that starts no well-formed sequence gives one
  `U+FFFD`.

`fromLatin1` followed by `toLatin1` is the identity (`toLatin1_fromLatin1`); `fromUtf8` followed by
`toLatin1` is the identity on a byte array exactly when all its bytes are ASCII
(`toLatin1_fromUtf8_eq_self_iff`), because decoding never produces more code units than there are
bytes and loses at least one with every multi-byte sequence.
-/

namespace Amanuensis

/-- A UTF-16 code unit. -/
abbrev QChar := UInt16

/-- A string of code units. -/
abbrev QString := List QChar

/-- An array of bytes. -/
abbrev QByteArray := List UInt8

/-- What is said of the bytes in a list is decided byte by byte, not for all 256 of them. -/
instance (p : UInt8 → Prop) [DecidablePred p] (bytes : QByteArray) :
    Decidable (∀ b ∈ bytes, p b) :=
  List.decidableBAll p bytes

/-- The byte of an ASCII character of the source. -/
def ascii (c : Char) : UInt8 := c.toUInt8

namespace QChar

/-- The code unit of an ASCII character of the source. -/
def ofChar (c : Char) : QChar := (ascii c).toUInt16

/-- `QChar::isSpace`. -/
def isSpace (c : QChar) : Bool :=
  let u := c.toNat
  u = 0x20 ∨ (0x09 ≤ u ∧ u ≤ 0x0D) ∨ u = 0x85 ∨ u = 0xA0 ∨ u = 0x1680 ∨
    (0x2000 ≤ u ∧ u ≤ 0x200A) ∨ u = 0x2028 ∨ u = 0x2029 ∨ u = 0x202F ∨ u = 0x205F ∨ u = 0x3000

/-- `QChar::isDigit` on the digits a C-locale number may hold. -/
def isDigit (c : QChar) : Bool := ofChar '0' ≤ c ∧ c ≤ ofChar '9'

/-- `QChar::ReplacementCharacter`. -/
def replacementCharacter : QChar := 0xFFFD

/-- One code unit of `QString::toLatin1`. -/
def toLatin1 (c : QChar) : UInt8 := if c.toNat ≤ 0xFF then c.toUInt8 else ascii '?'

theorem toLatin1_toUInt16 (b : UInt8) : toLatin1 b.toUInt16 = b := by
  have : b.toUInt16.toNat ≤ 0xFF := by
    have := b.toNat_lt
    simp only [UInt8.toNat_toUInt16]
    omega
  rw [toLatin1, if_pos this, UInt8.toUInt8_toUInt16]

@[simp] theorem toLatin1_ofChar (c : Char) : toLatin1 (ofChar c) = ascii c :=
  toLatin1_toUInt16 _

@[simp] theorem toLatin1_replacementCharacter : toLatin1 replacementCharacter = ascii '?' := rfl

end QChar

namespace QString

/-- A string literal of the source. -/
def ofString (s : String) : QString := s.toList.map QChar.ofChar

/-- `QString::fromLatin1`. -/
def fromLatin1 (bytes : QByteArray) : QString := bytes.map UInt8.toUInt16

/-- `QString::toLatin1`. -/
def toLatin1 (s : QString) : QByteArray := s.map QChar.toLatin1

/-- `QString::push_back(char)`: a `char` is read as Latin-1. -/
def pushBack (s : QString) (input : UInt8) : QString := s ++ [input.toUInt16]

/-- `QStringView::trimmed`. -/
def trimmed (s : QString) : QString :=
  ((s.dropWhile QChar.isSpace).reverse.dropWhile QChar.isSpace).reverse

/-- The decimal digits of a natural number, as `QTextStream` writes them. -/
def digits (n : ℕ) : QString := (Nat.toDigits 10 n).map QChar.ofChar

/-- `QTextStream::operator<<(int)` in the C locale. -/
def number (i : ℤ) : QString :=
  if i < 0 then QChar.ofChar '-' :: digits i.natAbs else digits i.natAbs

/-- The number a string of decimal digits denotes. -/
def digitsValue (s : QString) : ℕ := s.foldl (fun v c ↦ v * 10 + (c.toNat - 48)) 0

/-- `QString::toULongLong(&ok)`; `none` is `ok = false`. White space around the number is ignored,
a plus sign is accepted, and a value of `2 ^ 64` or more is not a number. -/
def toULongLong (s : QString) : Option UInt64 :=
  let t := s.trimmed
  let t := if t.head? = some (QChar.ofChar '+') then t.tail else t
  if t ≠ [] ∧ t.all QChar.isDigit ∧ digitsValue t < 2 ^ 64 then
    some (UInt64.ofNat (digitsValue t))
  else none

@[simp] theorem fromLatin1_nil : fromLatin1 [] = [] := rfl

@[simp] theorem fromLatin1_append (a b : QByteArray) :
    fromLatin1 (a ++ b) = fromLatin1 a ++ fromLatin1 b :=
  List.map_append

@[simp] theorem toLatin1_nil : toLatin1 [] = [] := rfl

@[simp] theorem toLatin1_cons (c : QChar) (s : QString) :
    toLatin1 (c :: s) = c.toLatin1 :: toLatin1 s :=
  rfl

@[simp] theorem toLatin1_append (a b : QString) :
    toLatin1 (a ++ b) = toLatin1 a ++ toLatin1 b :=
  List.map_append

@[simp] theorem length_toLatin1 (s : QString) : (toLatin1 s).length = s.length :=
  List.length_map _

theorem toLatin1_flatMap {ι : Type*} (l : List ι) (f : ι → QString) :
    toLatin1 (l.flatMap f) = l.flatMap fun i ↦ toLatin1 (f i) := by
  rw [toLatin1, List.map_flatMap]
  rfl

/-- **Latin-1 round trip.** -/
@[simp] theorem toLatin1_fromLatin1 (bytes : QByteArray) : toLatin1 (fromLatin1 bytes) = bytes := by
  rw [toLatin1, fromLatin1, List.map_map]
  exact (List.map_congr_left fun b _ ↦ QChar.toLatin1_toUInt16 b).trans (List.map_id _)

theorem fromLatin1_injective : Function.Injective fromLatin1 :=
  Function.LeftInverse.injective toLatin1_fromLatin1

@[simp] theorem toLatin1_ofString (s : String) : toLatin1 (ofString s) = s.toList.map ascii := by
  rw [toLatin1, ofString, List.map_map]
  exact List.map_congr_left fun c _ ↦ QChar.toLatin1_ofChar c

/-! ### UTF-8 -/

/-- A UTF-8 continuation byte. -/
def isContinuationByte (b : UInt8) : Bool := 0x80 ≤ b.toNat ∧ b.toNat ≤ 0xBF

/-- A Unicode scalar value above ASCII: not a surrogate, and within the code space. -/
def isScalar (uc : ℕ) : Bool := ¬ (0xD800 ≤ uc ∧ uc ≤ 0xDFFF) ∧ uc ≤ 0x10FFFF

/-- The UTF-16 form of a scalar value. -/
def utf16 (uc : ℕ) : List QChar :=
  if uc < 0x10000 then [UInt16.ofNat uc]
  else [UInt16.ofNat (0xD800 + (uc - 0x10000) / 0x400),
    UInt16.ofNat (0xDC00 + (uc - 0x10000) % 0x400)]

/-- The well-formed multi-byte sequence that starts with the lead byte `b`, if there is one: the
scalar value and the number of continuation bytes. Overlong forms are not well formed. -/
def utf8Sequence (b : UInt8) (src : List UInt8) : Option (ℕ × ℕ) :=
  let lead := b.toNat
  if lead ≤ 0xC1 then none
  else if lead < 0xE0 then
    match src with
    | c₁ :: _ =>
      let uc := lead % 0x20 * 0x40 + c₁.toNat % 0x40
      if isContinuationByte c₁ ∧ 0x80 ≤ uc then some (uc, 1) else none
    | [] => none
  else if lead < 0xF0 then
    match src with
    | c₁ :: c₂ :: _ =>
      let uc := (lead % 0x10 * 0x40 + c₁.toNat % 0x40) * 0x40 + c₂.toNat % 0x40
      if isContinuationByte c₁ ∧ isContinuationByte c₂ ∧ 0x800 ≤ uc ∧ isScalar uc then
        some (uc, 2)
      else none
    | _ => none
  else if lead < 0xF5 then
    match src with
    | c₁ :: c₂ :: c₃ :: _ =>
      let uc := ((lead % 0x08 * 0x40 + c₁.toNat % 0x40) * 0x40 + c₂.toNat % 0x40) * 0x40 +
        c₃.toNat % 0x40
      if isContinuationByte c₁ ∧ isContinuationByte c₂ ∧ isContinuationByte c₃ ∧
          0x10000 ≤ uc ∧ isScalar uc then
        some (uc, 3)
      else none
    | _ => none
  else none

/-- The decoding loop; the counter holds how many bytes the last sequence still covers. -/
def utf8Decode : ℕ → List UInt8 → QString
  | _, [] => []
  | k + 1, _ :: src => utf8Decode k src
  | 0, b :: src =>
    if b.toNat < 0x80 then b.toUInt16 :: utf8Decode 0 src
    else
      match utf8Sequence b src with
      | some (uc, k) => utf16 uc ++ utf8Decode k src
      | none => QChar.replacementCharacter :: utf8Decode 0 src

/-- The UTF-8 byte order mark. -/
def utf8Bom : List UInt8 := [0xEF, 0xBB, 0xBF]

/-- `QString::fromUtf8`. -/
def fromUtf8 (bytes : QByteArray) : QString :=
  utf8Decode 0 (if bytes.take 3 = utf8Bom then bytes.drop 3 else bytes)

theorem utf8Decode_of_ascii {l : List UInt8} (hl : ∀ b ∈ l, b.toNat < 0x80) :
    utf8Decode 0 l = fromLatin1 l := by
  induction l with
  | nil => rfl
  | cons b src ih =>
    obtain ⟨hb, hsrc⟩ := List.forall_mem_cons.1 hl
    rw [utf8Decode, if_pos hb, ih hsrc]
    rfl

/-- **On ASCII the two decodings agree.** -/
theorem fromUtf8_of_ascii {bytes : QByteArray} (hbytes : ∀ b ∈ bytes, b.toNat < 0x80) :
    fromUtf8 bytes = fromLatin1 bytes := by
  have hbom : bytes.take 3 ≠ utf8Bom := by
    intro h
    have hmem : (0xEF : UInt8) ∈ bytes :=
      List.mem_of_mem_take (i := 3) (by rw [h]; simp [utf8Bom])
    exact absurd (hbytes _ hmem) (by decide)
  rw [fromUtf8, if_neg hbom]
  exact utf8Decode_of_ascii hbytes

/-- A multi-byte sequence gives no more code units than it has continuation bytes. -/
theorem length_utf16_le_of_utf8Sequence {b : UInt8} {src : List UInt8} {uc k : ℕ}
    (h : utf8Sequence b src = some (uc, k)) : (utf16 uc).length ≤ k ∧ k ≤ src.length := by
  have htwo : (utf16 uc).length ≤ 2 := by unfold utf16; split <;> simp
  have hone : uc < 0x10000 → (utf16 uc).length = 1 := fun hlt ↦ by simp [utf16, hlt]
  unfold utf8Sequence at h
  dsimp only at h
  split_ifs at h
  · rcases src with - | ⟨c₁, r⟩
    · simp at h
    · simp only [Option.ite_none_right_eq_some, Option.some.injEq, Prod.mk.injEq] at h
      obtain ⟨-, rfl, rfl⟩ := h
      exact ⟨by have := hone (by omega); omega, by simp⟩
  · rcases src with - | ⟨c₁, - | ⟨c₂, r⟩⟩
    · simp at h
    · simp at h
    · simp only [Option.ite_none_right_eq_some, Option.some.injEq, Prod.mk.injEq] at h
      obtain ⟨-, rfl, rfl⟩ := h
      exact ⟨by have := hone (by omega); omega, by simp⟩
  · rcases src with - | ⟨c₁, - | ⟨c₂, - | ⟨c₃, r⟩⟩⟩
    · simp at h
    · simp at h
    · simp at h
    · simp only [Option.ite_none_right_eq_some, Option.some.injEq, Prod.mk.injEq] at h
      obtain ⟨-, rfl, rfl⟩ := h
      exact ⟨by omega, by simp⟩

/-- **Decoding never lengthens**: there are at most as many code units as bytes that are not
already covered. -/
theorem length_utf8Decode_le (k : ℕ) (l : List UInt8) :
    (utf8Decode k l).length ≤ l.length - k := by
  induction l generalizing k with
  | nil => cases k <;> simp [utf8Decode]
  | cons b src ih =>
    cases k with
    | succ k =>
      have := ih k
      simp only [utf8Decode, List.length_cons]
      omega
    | zero =>
      have h0 := ih 0
      rw [utf8Decode]
      split_ifs
      · simp only [List.length_cons]
        omega
      · rcases hseq : utf8Sequence b src with - | ⟨uc, k⟩
        · simp only [List.length_cons]
          omega
        · have hk := ih k
          obtain ⟨hle, hsrc⟩ := length_utf16_le_of_utf8Sequence hseq
          simp only [List.length_append, List.length_cons]
          omega

/-- **UTF-8 in, Latin-1 out, inside the decoding loop**: nothing changes exactly when every byte is
ASCII. A multi-byte sequence loses a byte, and a byte that starts none becomes `?`. -/
theorem toLatin1_utf8Decode_eq_self_iff (l : List UInt8) :
    toLatin1 (utf8Decode 0 l) = l ↔ ∀ b ∈ l, b.toNat < 0x80 := by
  induction l with
  | nil => simp [utf8Decode]
  | cons b src ih =>
    rw [utf8Decode]
    split_ifs with hb
    · rw [toLatin1_cons, QChar.toLatin1_toUInt16, List.cons.injEq, ih]
      simp [hb]
    · have hnot : ¬ ∀ c ∈ b :: src, c.toNat < 0x80 := fun h ↦ hb (h b List.mem_cons_self)
      rcases hseq : utf8Sequence b src with - | ⟨uc, k⟩
      · refine iff_of_false (fun h ↦ hb ?_) hnot
        rw [toLatin1_cons, List.cons.injEq, QChar.toLatin1_replacementCharacter] at h
        rw [← h.1]
        decide
      · refine iff_of_false (fun h ↦ ?_) hnot
        obtain ⟨hle, hsrc⟩ := length_utf16_le_of_utf8Sequence hseq
        have hlen := congrArg List.length h
        have hk := length_utf8Decode_le k src
        simp only [length_toLatin1, List.length_append, List.length_cons] at hlen
        omega

/-- Decoding a byte array never lengthens it. -/
theorem length_fromUtf8_le (bytes : QByteArray) : (fromUtf8 bytes).length ≤ bytes.length := by
  rw [fromUtf8]
  split_ifs
  · have := length_utf8Decode_le 0 (bytes.drop 3)
    simp only [List.length_drop] at this
    omega
  · exact length_utf8Decode_le 0 bytes

/-- **UTF-8 in, Latin-1 out**: a byte array survives exactly when all its bytes are ASCII. -/
theorem toLatin1_fromUtf8_eq_self_iff (bytes : QByteArray) :
    toLatin1 (fromUtf8 bytes) = bytes ↔ ∀ b ∈ bytes, b.toNat < 0x80 := by
  rw [fromUtf8]
  split_ifs with hbom
  · refine iff_of_false (fun h ↦ ?_) fun h ↦ ?_
    · have hlen := congrArg List.length h
      have hle := length_utf8Decode_le 0 (bytes.drop 3)
      have h3 := congrArg List.length hbom
      simp only [utf8Bom, List.length_take, List.length_cons, List.length_nil] at h3
      simp only [length_toLatin1] at hlen
      simp only [List.length_drop] at hle
      omega
    · have hmem : (0xEF : UInt8) ∈ bytes :=
        List.mem_of_mem_take (i := 3) (by rw [hbom]; simp [utf8Bom])
      exact absurd (h _ hmem) (by decide)
  · exact toLatin1_utf8Decode_eq_self_iff bytes

example : toLatin1 (fromUtf8 [0xC3, 0xA9]) = [0xE9] := by decide

end QString

end Amanuensis
