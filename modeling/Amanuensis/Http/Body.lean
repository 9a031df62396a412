import Amanuensis.Http.Head

/-!
# The body of a message, and whole messages

What follows a head, by framing: nothing, a counted number of bytes, or chunks. A chunked body ends
in one of three ways (`ChunksEnd`): the last chunk and an empty trailer, and the two ends at which
the parser gives up with `qFatal` — an extension after a chunk size, and a trailer that is not
empty. They belong to the grammar because the parser gets there.

`WireMessage` is a head with a body that goes with it; `WireMessage.outcome` and
`WireMessage.message` are what the parser makes of it.
-/

namespace Amanuensis

namespace HttpMessageParser

/-! ### Chunks -/

/-- The size accumulated from a string of hexadecimal digits, in 64 bits. -/
def sizeValue (digits : QByteArray) : UInt64 :=
  digits.foldl (fun v d ↦ v * 16 + UInt64.ofNat ((hexValue d).getD 0)) 0

/-- A nonempty string of hexadecimal digits. -/
def IsSize (digits : QByteArray) : Prop := digits ≠ [] ∧ ∀ b ∈ digits, isHex b = true

/-- A data chunk: its size line and its data. -/
structure Chunk where
  size : QByteArray
  data : QByteArray

namespace Chunk

/-- The wire form of a chunk. -/
def render (k : Chunk) : QByteArray := k.size ++ (crlf ++ (k.data ++ crlf))

/-- The chunks that the parser reads: the data has the length that the size is in 64 bits, which
must not be zero there. -/
structure WellFormed (k : Chunk) : Prop where
  size : IsSize k.size
  size_ne_zero : sizeValue k.size ≠ 0
  length : k.data.length = (sizeValue k.size).toNat

end Chunk

/-- How a chunked body ends. -/
inductive ChunksEnd
  /-- The last chunk, and no trailer. -/
  | terminator (size : QByteArray)
  /-- A semicolon after a chunk size. -/
  | extension (size : QByteArray)
  /-- The last chunk, and the first byte of something that is not an empty line. -/
  | trailer (size : QByteArray) (first : UInt8)

namespace ChunksEnd

/-- The wire form of an end, up to the byte at which the parser gives its answer. -/
def render : ChunksEnd → QByteArray
  | terminator size => size ++ (crlf ++ crlf)
  | extension size => size ++ [ascii ';']
  | trailer size first => size ++ (crlf ++ [first])

/-- The ends that the parser gets to. -/
def WellFormed : ChunksEnd → Prop
  | terminator size => IsSize size ∧ sizeValue size = 0
  | extension size => IsSize size
  | trailer size first => IsSize size ∧ sizeValue size = 0 ∧ first ≠ ascii '\r'

/-- The parser's answer at the end. -/
def outcome : ChunksEnd → Outcome
  | terminator _ => .valid
  | extension _ => .fatal "extensions not implemented"
  | trailer _ _ => .fatal "Trailing headers not implemented"

/-- The state the parser ends in. -/
def state : ChunksEnd → ParserState
  | terminator _ => .chunkTerminatingNewline
  | extension _ => .chunkLength
  | trailer _ _ => .chunkTrailingHeaderLineStart

/-- The size the parser is left with. -/
def remaining : ChunksEnd → UInt64
  | extension size => sizeValue size
  | _ => 0

end ChunksEnd

/-! ### Bodies -/

/-- What comes after a head, by framing. -/
inductive Body
  | none
  | fixed (content : QByteArray)
  | chunked (chunks : List Chunk) (last : ChunksEnd)

namespace Body

/-- The wire form of a body. -/
def render : Body → QByteArray
  | none => []
  | fixed content => content
  | chunked chunks last => chunks.flatMap Chunk.render ++ last.render

/-- The bodies that go with a framing. -/
def WellFormed : Framing → Body → Prop
  | .none, none => True
  | .fixed length, fixed content => content.length = length.toNat
  | .chunked, chunked chunks last => (∀ k ∈ chunks, k.WellFormed) ∧ last.WellFormed
  | _, _ => False

/-- The decoded content. -/
def content : Body → QByteArray
  | none => []
  | fixed content => content
  | chunked chunks _ => chunks.flatMap Chunk.data

/-- The answer of the parser at the end of the body. -/
def outcome : Body → Outcome
  | chunked _ last => last.outcome
  | _ => .valid

/-- The body gets to a chunk extension or to a trailer. -/
def HasExtensionOrTrailer : Body → Prop
  | chunked _ (.extension _) => True
  | chunked _ (.trailer _ _) => True
  | _ => False

/-- The state the parser ends in. -/
def state : Body → ParserState
  | none => .newline3
  | fixed _ => .fixedLengthEntity
  | chunked _ last => last.state

/-- The count the parser is left with. -/
def remaining : Body → UInt64
  | chunked _ last => last.remaining
  | _ => 0

end Body

/-- The content is part of the wire form. -/
theorem Body.length_content_le (b : Body) : b.content.length ≤ b.render.length := by
  cases b with
  | none | fixed => exact le_rfl
  | chunked chunks last =>
    rw [Body.content, Body.render, List.length_append]
    refine le_trans ?_ (Nat.le_add_right _ _)
    induction chunks with
    | nil => exact le_rfl
    | cons k ks ih =>
      simp only [List.flatMap_cons, List.length_append, Chunk.render] at ih ⊢
      omega

/-! ### Whole messages -/

/-- A head and a body. -/
structure WireMessage where
  head : Head
  body : Body

namespace WireMessage

/-- The wire form of a message. -/
def render (w : WireMessage) : QByteArray := w.head.render ++ w.body.render

/-- The messages that a parser reads to the end. -/
structure WellFormed (mode : Mode) (w : WireMessage) : Prop where
  head : w.head.WellFormed mode
  body : w.body.WellFormed (framing w.head.headers)

/-- The message the parser stores. -/
def message (w : WireMessage) : HttpMessage := { w.head.message with body := w.body.content }

/-- The answer of the parser at the end of the message. -/
def outcome (w : WireMessage) : Outcome := w.body.outcome

end WireMessage

end HttpMessageParser

end Amanuensis
