import Amanuensis.Http.Message

/-!
# The message parser

`HttpMessageParser`, state by state. `consume` takes one byte; `parse` feeds it the bytes of a
read, and pauses when the phase it was given changes. A phase pointer is `none` when it is null.

A call of `consume` normally returns one of `Incomplete`, `Valid` and `Invalid`. Two more outcomes
are modelled: a `qFatal`, which aborts the process, and the exception that `hex_value` throws.
Reserving memory for a body of known length is not modelled. The `int` fields of a message wrap
around at 32 bits.
-/

namespace Amanuensis

/-- The phases at which parsing may pause. -/
inductive ParsePhase
  | start
  | receivedMessageLine
  | receivedHeaders
  | receivedBody
  | receivedFullMessage
  deriving DecidableEq, Repr

/-- The states of the parser. -/
inductive ParserState
  | methodStart
  | method
  | uri
  | httpVersionH
  | httpVersionT1
  | httpVersionT2
  | httpVersionP
  | httpVersionSlash
  | httpVersionMajorStart
  | httpVersionMajor
  | httpVersionMinorStart
  | httpVersionMinor
  | newline1
  | responseStart
  | responseHttpT1
  | responseHttpT2
  | responseHttpP
  | responseHttpSlash
  | responseMajorVersionStart
  | responseMajorVersion
  | responseMinorVersionStart
  | responseMinorVersion
  | responseStatusCodeStart
  | responseStatusCode
  | responseStatusMessageStart
  | responseStatusMessage
  | responseNewline
  | headerLineStart
  | headerLws
  | headerName
  | headerSpace
  | headerValue
  | newline2
  | newline3
  | chunkLengthStart
  | chunkLength
  | chunkExtension
  | chunkLengthNewline
  | chunk
  | chunkTrailingNewline
  | chunkTrailingHeaderLineStart
  | chunkTrailingHeaderLws
  | chunkTrailingHeaderName
  | chunkTrailingHeaderSpace
  | chunkTrailingHeaderValue
  | chunkTerminatingNewline
  | fixedLengthEntity
  deriving DecidableEq, Repr

/-- The enumerator's value. -/
def ParserState.code : ParserState → ℕ
  | .methodStart => 0
  | .method => 1
  | .uri => 2
  | .httpVersionH => 3
  | .httpVersionT1 => 4
  | .httpVersionT2 => 5
  | .httpVersionP => 6
  | .httpVersionSlash => 7
  | .httpVersionMajorStart => 8
  | .httpVersionMajor => 9
  | .httpVersionMinorStart => 10
  | .httpVersionMinor => 11
  | .newline1 => 12
  | .responseStart => 50
  | .responseHttpT1 => 51
  | .responseHttpT2 => 52
  | .responseHttpP => 53
  | .responseHttpSlash => 54
  | .responseMajorVersionStart => 55
  | .responseMajorVersion => 56
  | .responseMinorVersionStart => 57
  | .responseMinorVersion => 58
  | .responseStatusCodeStart => 59
  | .responseStatusCode => 60
  | .responseStatusMessageStart => 61
  | .responseStatusMessage => 62
  | .responseNewline => 63
  | .headerLineStart => 100
  | .headerLws => 101
  | .headerName => 102
  | .headerSpace => 103
  | .headerValue => 104
  | .newline2 => 105
  | .newline3 => 106
  | .chunkLengthStart => 200
  | .chunkLength => 201
  | .chunkExtension => 202
  | .chunkLengthNewline => 203
  | .chunk => 204
  | .chunkTrailingNewline => 205
  | .chunkTrailingHeaderLineStart => 206
  | .chunkTrailingHeaderLws => 207
  | .chunkTrailingHeaderName => 208
  | .chunkTrailingHeaderSpace => 209
  | .chunkTrailingHeaderValue => 210
  | .chunkTerminatingNewline => 211
  | .fixedLengthEntity => 300

/-- What a call of `consume` ends with. -/
inductive Outcome
  | incomplete
  | valid
  | invalid
  /-- `qFatal`: the process is aborted. -/
  | fatal (message : String)
  /-- The `std::domain_error` of `hex_value`. -/
  | thrown (message : String)
  deriving DecidableEq, Repr

/-! ### Byte classes -/

/-- An ASCII character. -/
def isChar (input : UInt8) : Bool := input.toNat ≤ 127

/-- A control character. -/
def isCtl (input : UInt8) : Bool := input.toNat ≤ 31 ∨ input.toNat = 127

/-- A separator of tokens. -/
def isTspecial (input : UInt8) : Bool :=
  ("()<@,;:\\\"/[]?=\x7b\x7d \t".toList.map ascii).contains input

/-- A decimal digit. -/
def isDigit (input : UInt8) : Bool := ascii '0' ≤ input ∧ input ≤ ascii '9'

/-- A hexadecimal digit. -/
def isHex (input : UInt8) : Bool :=
  isDigit input ∨ (ascii 'a' ≤ input ∧ input ≤ ascii 'f') ∨
    (ascii 'A' ≤ input ∧ input ≤ ascii 'F')

/-- The value of a hexadecimal digit; `none` where the source throws. -/
def hexValue (c : UInt8) : Option ℕ :=
  if isDigit c then some (c.toNat - (ascii '0').toNat)
  else if ascii 'a' ≤ c ∧ c ≤ ascii 'f' then some (c.toNat - (ascii 'a').toNat + 10)
  else if ascii 'A' ≤ c ∧ c ≤ ascii 'F' then some (c.toNat - (ascii 'A').toNat + 10)
  else none

/-- The text of the exception `hex_value` throws. -/
def notAHexValue (c : UInt8) : String :=
  "Not a hex value: " ++ String.singleton (Char.ofNat c.toNat)

/-- The value of a decimal digit, `input - '0'`. -/
def digitValue (input : UInt8) : ℤ := input.toNat - (ascii '0').toNat

/-- The test the parser makes of the characters of a method or a header name. -/
def isTokenChar (input : UInt8) : Bool := isChar input && !isCtl input && !isTspecial input

/-- The value an `int` holds. -/
def toInt (x : ℤ) : ℤ := x.bmod (2 ^ 32)

/-! ### The parser -/

/-- The state a parser carries from byte to byte. -/
structure HttpMessageParser where
  state : ParserState := .methodStart
  remaining : UInt64 := 0
  buffer : QByteArray := []
  valueBuffer : QByteArray := []
  deriving DecidableEq, Repr

namespace HttpMessageParser

/-- Start over with a request. -/
def resetForRequest (_ : HttpMessageParser) : HttpMessageParser :=
  { state := .methodStart, remaining := 0, buffer := [], valueBuffer := [] }

/-- Start over with a response. -/
def resetForResponse (_ : HttpMessageParser) : HttpMessageParser :=
  { state := .responseStart, remaining := 0, buffer := [], valueBuffer := [] }

/-- The phase reached by a transition. -/
def getPhaseForStateTransition (currentPhase : ParsePhase) (oldState newState : ParserState) :
    ParsePhase :=
  if oldState = newState then currentPhase
  else
    match newState with
    | .headerLineStart =>
      if currentPhase = .start then .receivedMessageLine else currentPhase
    | .chunkLengthStart | .fixedLengthEntity =>
      if currentPhase = .receivedMessageLine then .receivedHeaders else currentPhase
    | _ => currentPhase

/-- A parser together with the message it fills in and the phase it was given. -/
structure Cursor where
  parser : HttpMessageParser
  message : HttpMessage
  phase : Option ParsePhase
  deriving DecidableEq, Repr

namespace Cursor

/-- The `TRANSIT` macro. -/
def transit (c : Cursor) (x : ParserState) : Cursor :=
  { c with
    phase := c.phase.map (getPhaseForStateTransition · c.parser.state x)
    parser.state := x }

/-- The line feed that ends the header section decides the framing of the body. -/
def endHeaders (c : Cursor) : Outcome × Cursor :=
  let transferEncodings := c.message.headers.findByName (QString.ofString "Transfer-Encoding")
  let isChunked (value : QString) : Bool :=
    (value.splitOn (QChar.ofChar ',')).any fun token ↦
      QString.trimmed token = QString.ofString "chunked"
  if transferEncodings.any isChunked then
    (.incomplete, { c.transit .chunkLengthStart with message.body := [] })
  else
    match c.message.headers.findByName (QString.ofString "Content-Length") with
    | [] => (.valid, c)
    | value :: _ =>
      match value.toULongLong with
      | none => (.invalid, c)
      | some length =>
        if length = 0 then (.valid, c)
        else
          (.incomplete,
            { c.transit .fixedLengthEntity with parser.remaining := length, message.body := [] })

end Cursor

/-- A state that accepts one byte and moves on. -/
def expect (byte : UInt8) (next : ParserState) (c : Cursor) (input : UInt8) : Outcome × Cursor :=
  if input = byte then (.incomplete, c.transit next) else (.invalid, c)

/-- One byte. -/
def consume (c : Cursor) (input : UInt8) : Outcome × Cursor :=
  match c.parser.state with
  | .methodStart =>
    if !isChar input || isCtl input || isTspecial input then (.invalid, c)
    else
      (.incomplete,
        { c.transit .method with message.method := c.message.method.pushBack input })
  | .method =>
    if input = ascii ' ' then (.incomplete, c.transit .uri)
    else if !isChar input || isCtl input || isTspecial input then (.invalid, c)
    else (.incomplete, { c with message.method := c.message.method.pushBack input })
  | .uri =>
    if input = ascii ' ' then (.incomplete, c.transit .httpVersionH)
    else if isCtl input then (.invalid, c)
    else (.incomplete, { c with message.uri := c.message.uri.pushBack input })
  | .httpVersionH => expect (ascii 'H') .httpVersionT1 c input
  | .httpVersionT1 => expect (ascii 'T') .httpVersionT2 c input
  | .httpVersionT2 => expect (ascii 'T') .httpVersionP c input
  | .httpVersionP => expect (ascii 'P') .httpVersionSlash c input
  | .httpVersionSlash =>
    if input = ascii '/' then
      (.incomplete,
        { c.transit .httpVersionMajorStart with
          message.majorVersion := 0, message.minorVersion := 0 })
    else (.invalid, c)
  | .httpVersionMajorStart =>
    if isDigit input then
      (.incomplete,
        { c.transit .httpVersionMajor with message.majorVersion := digitValue input })
    else (.invalid, c)
  | .httpVersionMajor =>
    if input = ascii '.' then (.incomplete, c.transit .httpVersionMinorStart)
    else if isDigit input then
      (.incomplete,
        { c with
          message.majorVersion := toInt (toInt (c.message.majorVersion * 10) + digitValue input) })
    else (.invalid, c)
  | .httpVersionMinorStart =>
    if isDigit input then
      (.incomplete,
        { c.transit .httpVersionMinor with message.minorVersion := digitValue input })
    else (.invalid, c)
  | .httpVersionMinor =>
    if input = ascii '\r' then (.incomplete, c.transit .newline1)
    else if isDigit input then
      (.incomplete,
        { c with
          message.minorVersion := toInt (toInt (c.message.minorVersion * 10) + digitValue input) })
    else (.invalid, c)
  | .newline1 => expect (ascii '\n') .headerLineStart c input
  | .responseStart => expect (ascii 'H') .responseHttpT1 c input
  | .responseHttpT1 => expect (ascii 'T') .responseHttpT2 c input
  | .responseHttpT2 => expect (ascii 'T') .responseHttpP c input
  | .responseHttpP => expect (ascii 'P') .responseHttpSlash c input
  | .responseHttpSlash => expect (ascii '/') .responseMajorVersionStart c input
  | .responseMajorVersionStart =>
    if isDigit input then
      (.incomplete,
        { c.transit .responseMajorVersion with message.majorVersion := digitValue input })
    else (.invalid, c)
  | .responseMajorVersion =>
    if input = ascii '.' then (.incomplete, c.transit .responseMinorVersionStart)
    else if isDigit input then
      (.incomplete,
        { c with
          message.majorVersion := toInt (toInt (c.message.majorVersion * 10) + digitValue input) })
    else (.invalid, c)
  | .responseMinorVersionStart =>
    if isDigit input then
      (.incomplete,
        { c.transit .responseMinorVersion with message.minorVersion := digitValue input })
    else (.invalid, c)
  | .responseMinorVersion =>
    if input = ascii ' ' then (.incomplete, c.transit .responseStatusCodeStart)
    else if isDigit input then
      (.incomplete,
        { c with
          message.minorVersion := toInt (toInt (c.message.minorVersion * 10) + digitValue input) })
    else (.invalid, c)
  | .responseStatusCodeStart =>
    if isDigit input then
      (.incomplete,
        { c.transit .responseStatusCode with message.statusCode := digitValue input })
    else (.invalid, c)
  | .responseStatusCode =>
    if input = ascii ' ' then (.incomplete, c.transit .responseStatusMessageStart)
    else if isDigit input then
      (.incomplete,
        { c with
          message.statusCode := toInt (toInt (c.message.statusCode * 10) + digitValue input) })
    else (.invalid, c)
  | .responseStatusMessageStart =>
    if isChar input then
      (.incomplete, { c.transit .responseStatusMessage with parser.buffer := [input] })
    else (.invalid, c)
  | .responseStatusMessage =>
    if input = ascii '\r' then
      (.incomplete,
        { c.transit .responseNewline with
          message.statusMessage := QString.fromUtf8 c.parser.buffer })
    else if isChar input || input = ascii ' ' then
      (.incomplete, { c with parser.buffer := c.parser.buffer ++ [input] })
    else (.invalid, c)
  | .responseNewline => expect (ascii '\n') .headerLineStart c input
  | .headerLineStart =>
    if input = ascii '\r' then (.incomplete, c.transit .newline3)
    else if !c.message.headers.empty && (input = ascii ' ' || input = ascii '\t') then
      (.incomplete, c.transit .headerLws)
    else if !isChar input || isCtl input || isTspecial input then (.invalid, c)
    else (.incomplete, { c.transit .headerName with parser.buffer := [input] })
  | .headerLws =>
    if input = ascii '\r' then (.incomplete, c.transit .newline2)
    else if input = ascii ' ' || input = ascii '\t' then (.incomplete, c)
    else if isCtl input then (.invalid, c)
    else (.incomplete, c.transit .headerValue)
  | .headerName =>
    if input = ascii ':' then (.incomplete, c.transit .headerSpace)
    else if !isChar input || isCtl input || isTspecial input then (.invalid, c)
    else (.incomplete, { c with parser.buffer := c.parser.buffer ++ [input] })
  | .headerSpace =>
    if input = ascii ' ' then
      (.incomplete, { c.transit .headerValue with parser.valueBuffer := [] })
    else (.invalid, c)
  | .headerValue =>
    if input = ascii '\r' then
      let name := QString.fromLatin1 c.parser.buffer
      let value := QString.fromLatin1 c.parser.valueBuffer
      (.incomplete,
        { c.transit .newline2 with
          message.headers := c.message.headers.insert name value
          parser.buffer := []
          parser.valueBuffer := [] })
    else if !isCtl input then
      (.incomplete, { c with parser.valueBuffer := c.parser.valueBuffer ++ [input] })
    else (.invalid, c)
  | .newline2 => expect (ascii '\n') .headerLineStart c input
  | .newline3 => if input = ascii '\n' then c.endHeaders else (.invalid, c)
  | .chunkLengthStart =>
    if isHex input then
      match hexValue input with
      | some v =>
        (.incomplete, { c.transit .chunkLength with parser.remaining := UInt64.ofNat v })
      | none => (.thrown (notAHexValue input), c.transit .chunkLength)
    else (.invalid, c)
  | .chunkLength =>
    if input = ascii '\r' then (.incomplete, c.transit .chunkLengthNewline)
    else if isHex input then
      match hexValue input with
      | some v =>
        (.incomplete, { c with parser.remaining := c.parser.remaining * 16 + UInt64.ofNat v })
      | none => (.thrown (notAHexValue input), c)
    else if input = ascii ';' then (.fatal "extensions not implemented", c)
    else (.invalid, c)
  | .chunkLengthNewline =>
    if input = ascii '\n' then
      if c.parser.remaining > 0 then (.incomplete, c.transit .chunk)
      else (.incomplete, c.transit .chunkTrailingHeaderLineStart)
    else (.invalid, c)
  | .chunk =>
    if c.parser.remaining = 0 then expect (ascii '\r') .chunkTrailingNewline c input
    else
      (.incomplete,
        { c with
          message.body := c.message.body ++ [input]
          parser.remaining := c.parser.remaining - 1 })
  | .chunkTrailingNewline => expect (ascii '\n') .chunkLengthStart c input
  | .chunkTrailingHeaderLineStart =>
    if input = ascii '\r' then (.incomplete, c.transit .chunkTerminatingNewline)
    else (.fatal "Trailing headers not implemented", c)
  | .chunkTerminatingNewline => if input = ascii '\n' then (.valid, c) else (.invalid, c)
  | .fixedLengthEntity =>
    let c' : Cursor :=
      { c with
        message.body := c.message.body ++ [input]
        parser.remaining := c.parser.remaining - 1 }
    if c'.parser.remaining = 0 then (.valid, c') else (.incomplete, c')
  | .chunkExtension | .chunkTrailingHeaderLws | .chunkTrailingHeaderName
  | .chunkTrailingHeaderSpace | .chunkTrailingHeaderValue =>
    (.fatal ("Unimplemented state: " ++ toString c.parser.state.code), c)

/-- `Valid` sets the phase, when there is one, to `ReceivedFullMessage`. -/
def Cursor.finish (c : Cursor) : Cursor :=
  { c with phase := c.phase.map fun _ ↦ .receivedFullMessage }

/-- The loop of `parse` over the bytes of a read, which returns the bytes not yet read too. -/
def parseFrom (startingPhase : ParsePhase) (c : Cursor) :
    QByteArray → Outcome × Cursor × QByteArray
  | [] => (.incomplete, c, [])
  | input :: rest =>
    match consume c input with
    | (.incomplete, c') =>
      if c'.phase.isSome ∧ c'.phase ≠ some startingPhase then (.incomplete, c', rest)
      else parseFrom startingPhase c' rest
    | (.valid, c') => (.valid, c'.finish, rest)
    | (o, c') => (o, c', rest)

/-- Parse the bytes of a read, up to the end of the message or a change of phase. -/
def parse (c : Cursor) (bytes : QByteArray) : Outcome × Cursor × QByteArray :=
  parseFrom (c.phase.getD .start) c bytes

end HttpMessageParser

end Amanuensis
