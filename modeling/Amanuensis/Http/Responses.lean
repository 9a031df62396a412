import Amanuensis.Http.Fields

/-!
# Response heads

`ResponseHead` is a response head as its sender means it: versions and status as strings of digits
within `int`, a reason phrase of printable text that may be empty, and field lines that announce no
body.

The state that reads the first character of the reason phrase takes any ASCII character there, so
the carriage return after an empty phrase becomes its first character, and what follows is read as
the phrase up to the next carriage return. A response head is parsed as it is meant exactly when
its reason phrase is not empty (`parsedAsMeant_iff`).
-/

namespace Amanuensis

namespace HttpMessageParser

/-- Printable ASCII, space and horizontal tab. -/
def isText (b : UInt8) : Bool := (0x20 ≤ b.toNat ∧ b.toNat ≤ 0x7E) ∨ b = ascii '\t'

theorem isChar_of_isText {b : UInt8} (h : isText b = true) : isChar b = true := by
  simp only [isText, Bool.decide_or, Bool.or_eq_true, decide_eq_true_eq] at h
  simp only [isChar, decide_eq_true_eq]
  rcases h with ⟨-, h⟩ | rfl
  · omega
  · decide

/-- ASCII text is below `0x80`. -/
theorem toNat_lt_of_isChar {b : UInt8} (h : isChar b = true) : b.toNat < 0x80 := by
  simp only [isChar, decide_eq_true_eq] at h
  omega

/-- A response head without a body to come. -/
structure ResponseHead where
  major : QByteArray
  minor : QByteArray
  status : QByteArray
  reason : QByteArray
  fields : List PlainField
  major_ne : major ≠ []
  major_digit : ∀ b ∈ major, isDigit b = true
  major_lt : natValue major < 2 ^ 31
  minor_ne : minor ≠ []
  minor_digit : ∀ b ∈ minor, isDigit b = true
  minor_lt : natValue minor < 2 ^ 31
  status_ne : status ≠ []
  status_digit : ∀ b ∈ status, isDigit b = true
  status_lt : natValue status < 2 ^ 31
  reason_text : ∀ b ∈ reason, isText b = true
  not_chunked : ∀ value ∈ codingValues (fields.map PlainField.entry), listsChunked value = false
  no_length : lengthValues (fields.map PlainField.entry) = []

namespace ResponseHead

variable (r : ResponseHead)

/-- The status line of the response. -/
def statusLine : StatusLine := ⟨r.major, r.minor, r.status, r.reason⟩

/-- The head of the response. -/
def head : Head where
  start := .status r.statusLine
  lines := r.fields.map PlainField.line

/-- The bytes of the head. -/
def render : QByteArray := r.head.render

/-- **A response head is parsed as it is meant**: whatever follows, the parser returns `Valid` at
its last byte, with the versions, the status, the phrase and the headers of the head. -/
def ParsedAsMeant (p : HttpMessageParser) : Prop :=
  ∀ rest, ∃ c, parse (Cursor.start .response p).forget (r.render ++ rest) = (.valid, c, rest) ∧
    c.message.majorVersion = natValue r.major ∧ c.message.minorVersion = natValue r.minor ∧
    c.message.statusCode = natValue r.status ∧
    c.message.statusMessage = QString.fromLatin1 r.reason ∧
    c.message.headers = Headers.insertAll {} (r.fields.map PlainField.entry)

theorem framing_head : framing r.head.headers = .none := by
  have hany : ¬ (codingValues (r.fields.map PlainField.entry)).any listsChunked = true := by
    simpa using r.not_chunked
  rw [head, headers_lines, framing_insertAll, if_neg hany, r.no_length]
  rfl

/-- With a reason phrase, the head is one the parser reads. -/
theorem wellFormed_head (hreason : r.reason ≠ []) : r.head.WellFormed .response where
  start :=
    ⟨rfl,
      { major_ne := r.major_ne
        major := r.major_digit
        minor_ne := r.minor_ne
        minor := r.minor_digit
        status_ne := r.status_ne
        status := r.status_digit
        reason_ne := hreason
        reason := fun b hb ↦ isChar_of_isText (r.reason_text b hb)
        reason_tail := by
          rintro b hb rfl
          exact absurd (r.reason_text _ (List.mem_of_mem_tail hb)) (by decide) }⟩
  lines := linesWellFormed_lines r.fields {}

end ResponseHead

/-- The phrase the parser stores is never empty. -/
theorem StatusLine.WellFormed.statusMessage_ne_nil {l : StatusLine} (hl : l.WellFormed) :
    l.message.statusMessage ≠ [] := by
  have hascii : ∀ b ∈ l.reason, b.toNat < 0x80 := fun b hb ↦ toNat_lt_of_isChar (hl.reason b hb)
  show QString.fromUtf8 l.reason ≠ []
  rw [QString.fromUtf8_of_ascii hascii, QString.fromLatin1, ne_eq, List.map_eq_nil_iff]
  exact hl.reason_ne

/-- **When a response head is parsed as it is meant**: exactly when its reason phrase is not
empty. -/
theorem ResponseHead.parsedAsMeant_iff (p : HttpMessageParser) (r : ResponseHead) :
    r.ParsedAsMeant p ↔ r.reason ≠ [] := by
  constructor
  · rintro hparsed hempty
    obtain ⟨c, hparse, -, -, -, hphrase, -⟩ := hparsed []
    obtain ⟨⟨⟨start, lines⟩, body⟩, hw, -, -, hmessage⟩ := exists_wireMessage_of_parse hparse
    have hstored : c.message.statusMessage = start.message.statusMessage := by
      rw [hmessage]
      rfl
    rw [hempty, hstored] at hphrase
    rcases start with l | l
    · exact absurd hw.head.start.1 (by simp)
    · exact hw.head.start.2.statusMessage_ne_nil hphrase
  · intro hreason rest
    have hw : (WireMessage.mk r.head .none).WellFormed .response := by
      refine ⟨r.wellFormed_head hreason, ?_⟩
      rw [r.framing_head]
      trivial
    have hparse := parse_render hw rfl p rest
    rw [WireMessage.render, Body.render, List.append_nil] at hparse
    have hascii : ∀ b ∈ r.reason, b.toNat < 0x80 :=
      fun b hb ↦ toNat_lt_of_isChar (isChar_of_isText (r.reason_text b hb))
    exact ⟨_, hparse, (intValue_eq_natValue_iff r.major_digit).2 r.major_lt,
      (intValue_eq_natValue_iff r.minor_digit).2 r.minor_lt,
      (intValue_eq_natValue_iff r.status_digit).2 r.status_lt,
      QString.fromUtf8_of_ascii hascii, headers_lines _ r.fields⟩

/-- A response without a reason phrase, and with one header. -/
def unexplainedResponse : ResponseHead where
  major := asciiBytes "1"
  minor := asciiBytes "1"
  status := asciiBytes "200"
  reason := []
  fields :=
    [{ name := asciiBytes "Server"
       value := asciiBytes "x"
       name_ne := by decide
       name_token := by decide
       value_plain := by decide }]
  major_ne := by decide
  major_digit := by decide
  major_lt := by decide
  minor_ne := by decide
  minor_digit := by decide
  minor_lt := by decide
  status_ne := by decide
  status_digit := by decide
  status_lt := by decide
  reason_text := by decide
  not_chunked := by decide
  no_length := by decide

/-- Its header is swallowed by the phrase. -/
theorem unexplainedResponse_not_parsedAsMeant : ¬ unexplainedResponse.ParsedAsMeant {} := by
  intro hparsed
  obtain ⟨c, hparse, -, -, -, hphrase, -⟩ := hparsed []
  have hstored : (parse (Cursor.start .response {}).forget
      (unexplainedResponse.render ++ [])).2.1.message.statusMessage =
        QString.ofString "\r\nServer: x" := by decide +kernel
  rw [hparse] at hstored
  rw [hphrase] at hstored
  exact absurd hstored (by decide)

end HttpMessageParser

end Amanuensis
