import Amanuensis.Foundation.Lines
import Amanuensis.Http.Folding
import Amanuensis.Http.Responses

/-!
# When phases are reported

The phase is a function of the state (`ParserState.phase`), and the states follow each other along
the edges of a graph (`successors`, `state_consume`). What ties both to the stream is a reader of
lines: as long as the message goes on, the parser stands where a reader stands who looks for the
first line break and the first empty line (`spot_consume`, `spot_scan`).

One stream is read otherwise. After the space that follows a status code the parser takes any ASCII
character for the first of a reason phrase, a carriage return too, and so it runs past the end of a
status line that has none. `reportsPhases_iff`: phases are reported once, in order and at the right
byte exactly when the stream does not start with such a line.
-/

namespace Amanuensis

/-- The enumerator's value. -/
def ParsePhase.rank : ParsePhase → ℕ
  | .start => 0
  | .receivedMessageLine => 1
  | .receivedHeaders => 2
  | .receivedBody => 3
  | .receivedFullMessage => 4

theorem ParsePhase.rank_injective : Function.Injective ParsePhase.rank := by
  intro phase phase' h
  cases phase <;> cases phase' <;> first | rfl | exact absurd h (by decide)

/-- No transition takes a phase back. -/
theorem ParsePhase.rank_le_transition (phase : ParsePhase) (old new : ParserState) :
    phase.rank ≤ (HttpMessageParser.getPhaseForStateTransition phase old new).rank := by
  unfold HttpMessageParser.getPhaseForStateTransition
  split
  · exact le_rfl
  · split
    all_goals try split_ifs with hphase
    all_goals first | exact le_rfl | (rw [hphase]; decide)

namespace ParserState

/-- The states a byte may lead to, besides the one it is read in. -/
def successors : ParserState → List ParserState
  | .methodStart => [.method]
  | .method => [.uri]
  | .uri => [.httpVersionH]
  | .httpVersionH => [.httpVersionT1]
  | .httpVersionT1 => [.httpVersionT2]
  | .httpVersionT2 => [.httpVersionP]
  | .httpVersionP => [.httpVersionSlash]
  | .httpVersionSlash => [.httpVersionMajorStart]
  | .httpVersionMajorStart => [.httpVersionMajor]
  | .httpVersionMajor => [.httpVersionMinorStart]
  | .httpVersionMinorStart => [.httpVersionMinor]
  | .httpVersionMinor => [.newline1]
  | .newline1 => [.headerLineStart]
  | .responseStart => [.responseHttpT1]
  | .responseHttpT1 => [.responseHttpT2]
  | .responseHttpT2 => [.responseHttpP]
  | .responseHttpP => [.responseHttpSlash]
  | .responseHttpSlash => [.responseMajorVersionStart]
  | .responseMajorVersionStart => [.responseMajorVersion]
  | .responseMajorVersion => [.responseMinorVersionStart]
  | .responseMinorVersionStart => [.responseMinorVersion]
  | .responseMinorVersion => [.responseStatusCodeStart]
  | .responseStatusCodeStart => [.responseStatusCode]
  | .responseStatusCode => [.responseStatusMessageStart]
  | .responseStatusMessageStart => [.responseStatusMessage]
  | .responseStatusMessage => [.responseNewline]
  | .responseNewline => [.headerLineStart]
  | .headerLineStart => [.newline3, .headerLws, .headerName]
  | .headerLws => [.newline2, .headerValue]
  | .headerName => [.headerSpace]
  | .headerSpace => [.headerValue]
  | .headerValue => [.newline2]
  | .newline2 => [.headerLineStart]
  | .newline3 => [.chunkLengthStart, .fixedLengthEntity]
  | .chunkLengthStart => [.chunkLength]
  | .chunkLength => [.chunkLengthNewline]
  | .chunkLengthNewline => [.chunk, .chunkTrailingHeaderLineStart]
  | .chunk => [.chunkTrailingNewline]
  | .chunkTrailingNewline => [.chunkLengthStart]
  | .chunkTrailingHeaderLineStart => [.chunkTerminatingNewline]
  | _ => []

/-- The phase a state belongs to. -/
def phase (s : ParserState) : ParsePhase :=
  if s.code < 100 then .start else if s.code < 200 then .receivedMessageLine else .receivedHeaders

/-- A transition reports the phase of the state it leads to. -/
theorem phase_of_mem_successors {s s' : ParserState} (h : s' = s ∨ s' ∈ s.successors) :
    HttpMessageParser.getPhaseForStateTransition s.phase s s' = s'.phase := by
  rcases h with rfl | h
  · exact HttpMessageParser.getPhaseForStateTransition_self _ _
  · cases s <;> simp only [successors, List.mem_cons, List.not_mem_nil, or_false] at h <;>
      rcases h with rfl | rfl | rfl <;> rfl

/-- **Phases follow each other.** -/
theorem phase_eq_or_next {s s' : ParserState} (h : s' = s ∨ s' ∈ s.successors) :
    s'.phase = s.phase ∨ s.phase = .start ∧ s'.phase = .receivedMessageLine ∨
      s.phase = .receivedMessageLine ∧ s'.phase = .receivedHeaders := by
  rcases h with rfl | h
  · exact Or.inl rfl
  · cases s <;> simp only [successors, List.mem_cons, List.not_mem_nil, or_false] at h <;>
      rcases h with rfl | rfl | rfl <;> decide

theorem phase_ne_receivedFullMessage (s : ParserState) : s.phase ≠ .receivedFullMessage := by
  cases s <;> decide

/-- The body is entered from the end of the header section. -/
theorem eq_newline3_of_mem_successors {s s' : ParserState} (h : s' = s ∨ s' ∈ s.successors)
    (hs : s.phase ≠ .receivedHeaders) (hs' : s'.phase = .receivedHeaders) : s = .newline3 := by
  rcases h with rfl | h
  · exact absurd hs' hs
  · revert hs hs'
    cases s <;> simp only [successors, List.mem_cons, List.not_mem_nil, or_false] at h <;>
      rcases h with rfl | rfl | rfl <;> decide

theorem inHead_eq_false_of_phase {s : ParserState} (h : s.phase = .receivedHeaders) :
    s.inHead = false := by
  revert h
  cases s <;> decide

end ParserState

namespace HttpMessageParser

open Lines Scanner

theorem state_endHeaders (c : Cursor) :
    c.endHeaders.2.parser.state = c.parser.state ∨
      c.endHeaders.2.parser.state ∈ [ParserState.chunkLengthStart, .fixedLengthEntity] := by
  rw [endHeaders_eq]
  rcases framing c.message.headers with - | length | - | -
  · exact Or.inr (by simp [Cursor.transit])
  · exact Or.inr (by simp [Cursor.transit])
  · exact Or.inl rfl
  · exact Or.inl rfl

/-- **The state graph of the parser.** -/
theorem state_consume (c : Cursor) (input : UInt8) :
    (consume c input).2.parser.state = c.parser.state ∨
      (consume c input).2.parser.state ∈ c.parser.state.successors := by
  rcases c with ⟨⟨state, remaining, buffer, valueBuffer⟩, message, phase⟩
  cases state
  all_goals dsimp only [consume, ParserState.successors, expect]
  all_goals repeat' split
  all_goals first
    | exact Or.inl rfl
    | exact state_endHeaders ⟨⟨_, _, _, _⟩, message, phase⟩
    | exact Or.inr (by simp [Cursor.transit])

/-- A byte that is rejected changes nothing. -/
theorem consume_eq_self_of_invalid {c : Cursor} {input : UInt8}
    (h : (consume c input).1 = .invalid) : (consume c input).2 = c := by
  revert h
  rcases c with ⟨⟨state, remaining, buffer, valueBuffer⟩, message, phase⟩
  cases state
  case newline3 =>
    dsimp only [consume]
    split
    · rw [endHeaders_eq]
      rcases framing message.headers with - | length | - | - <;> simp
    · exact fun _ ↦ rfl
  all_goals dsimp only [consume, expect]
  all_goals repeat' split
  all_goals first
    | exact fun _ ↦ rfl
    | exact fun h ↦ absurd h (by simp)

/-- Where the start line is read no header is stored. -/
theorem headers_consume_of_start {c : Cursor} (hc : c.parser.state.phase = .start)
    (input : UInt8) : (consume c input).2.message.headers = c.message.headers := by
  revert hc
  rcases c with ⟨⟨state, remaining, buffer, valueBuffer⟩, message, phase⟩
  cases state
  all_goals rintro ⟨⟩
  all_goals dsimp only [consume, expect]
  all_goals repeat' split
  all_goals rfl

/-- An end that is no rejection is in the body, or at the end of a head without one. -/
theorem ends_consume {c : Cursor} {input : UInt8} (hincomplete : (consume c input).1 ≠ .incomplete)
    (hinvalid : (consume c input).1 ≠ .invalid) :
    c.parser.state.phase = .receivedHeaders ∨
      c.parser.state = .newline3 ∧ consume c input = (.valid, c) ∧
        framing c.message.headers = .none := by
  revert hincomplete hinvalid
  rcases c with ⟨⟨state, remaining, buffer, valueBuffer⟩, message, phase⟩
  cases state
  case newline3 =>
    dsimp only [consume]
    split
    · rw [endHeaders_eq]
      rcases framing message.headers with - | length | - | - <;> simp
    · simp
  all_goals dsimp only [consume, expect]
  all_goals repeat' split
  all_goals first
    | exact fun _ _ ↦ Or.inl rfl
    | exact fun h _ ↦ absurd rfl h
    | exact fun _ h ↦ absurd rfl h

/-- A body that is chunked, or of known length and not empty, is announced. -/
def AnnouncesBody (h : Headers) : Prop := framing h = .chunked ∨ ∃ length, framing h = .fixed length

/-- The body is entered when one is announced. -/
theorem enters_body {c : Cursor} {input : UInt8} (hold : c.parser.state.phase ≠ .receivedHeaders)
    (hnew : (consume c input).2.parser.state.phase = .receivedHeaders) :
    AnnouncesBody (consume c input).2.message.headers ∧
      (consume c input).2.message.body = [] := by
  have hstate := ParserState.eq_newline3_of_mem_successors (state_consume c input) hold hnew
  revert hold hnew
  rcases c with ⟨⟨state, remaining, buffer, valueBuffer⟩, message, phase⟩
  obtain rfl : state = .newline3 := hstate
  dsimp only [consume]
  split
  · rw [endHeaders_eq]
    rcases hframing : framing message.headers with - | length | - | -
    · exact fun _ _ ↦ ⟨Or.inl hframing, rfl⟩
    · exact fun _ _ ↦ ⟨Or.inr ⟨length, hframing⟩, rfl⟩
    all_goals exact fun hold hnew ↦ absurd hnew hold
  · exact fun hold hnew ↦ absurd hnew hold

/-! ### The parser as a reader of lines -/

/-- Where the parser stands, as a reader of lines, by its state and its name buffer. A carriage
return that is the first byte of a reason phrase may yet turn out to end the status line. -/
def lineSpot : ParserState → QByteArray → Spot
  | .newline1, _ | .responseNewline, _ => .firstBreak
  | .responseStatusMessage, buffer => if buffer = [ascii '\r'] then .firstBreak else .firstLine
  | .headerLineStart, _ => .lineStart
  | .headerLws, _ | .headerName, _ | .headerSpace, _ | .headerValue, _ => .inLine
  | .newline2, _ => .lineBreak
  | .newline3, _ => .emptyBreak
  | state, _ => if state.code < 200 then .firstLine else .pastHead

/-- Where a cursor is in its line. -/
def Cursor.spot (c : Cursor) : Spot := lineSpot c.parser.state c.parser.buffer

/-- The reason phrase read so far is a carriage return. -/
def Cursor.AtLoneReturn (c : Cursor) : Prop :=
  c.parser.state = .responseStatusMessage ∧ c.parser.buffer = [ascii '\r']

/-- The phase of a state is where it stands. -/
theorem inFirstLine_lineSpot (state : ParserState) (buffer : QByteArray) :
    (lineSpot state buffer).inFirstLine = true ↔ state.phase = .start := by
  cases state
  case responseStatusMessage =>
    rw [lineSpot]
    split_ifs <;> exact ⟨fun _ ↦ rfl, fun _ ↦ rfl⟩
  all_goals first
    | exact ⟨fun _ ↦ rfl, fun _ ↦ rfl⟩
    | exact ⟨nofun, nofun⟩

theorem lineSpot_eq_pastHead_iff (state : ParserState) (buffer : QByteArray) :
    lineSpot state buffer = .pastHead ↔ state.phase = .receivedHeaders := by
  cases state
  case responseStatusMessage =>
    rw [lineSpot]
    split_ifs <;> exact ⟨nofun, nofun⟩
  all_goals first
    | exact ⟨fun _ ↦ rfl, fun _ ↦ rfl⟩
    | exact ⟨nofun, nofun⟩

theorem ne_return_of_isCtl {input : UInt8} (h : isCtl input = false) : input ≠ ascii '\r' := by
  rintro rfl
  exact absurd h (by decide)

theorem ne_return_of_isDigit {input : UInt8} (h : isDigit input = true) : input ≠ ascii '\r' := by
  rintro rfl
  exact absurd h (by decide)

/-- **The parser reads lines**: a byte it takes moves it as it moves a reader of lines, unless it is
a line feed after the lone carriage return of a reason phrase. -/
theorem spot_consume {c : Cursor} {input : UInt8} (h : (consume c input).1 = .incomplete)
    (hreturn : ¬ (c.AtLoneReturn ∧ input = ascii '\n')) :
    (consume c input).2.spot = c.spot.next (ascii '\r') (ascii '\n') input := by
  revert h hreturn
  rcases c with ⟨⟨state, remaining, buffer, valueBuffer⟩, message, phase⟩
  cases state
  case newline3 =>
    dsimp only [consume]
    split
    · next hin =>
      subst hin
      rw [endHeaders_eq]
      rcases framing message.headers with - | length | - | - <;> rintro ⟨⟩ - <;> rfl
    · rintro ⟨⟩
  all_goals dsimp only [consume, expect]
  all_goals repeat' split
  all_goals rintro ⟨⟩ hreturn
  all_goals try rfl
  -- the states that wait for one byte, and the ends of the lines
  all_goals try rename_i hin; subst hin; rfl
  case responseStatusMessageStart =>
    by_cases hin : input = ascii '\r'
    · subst hin
      rfl
    · show lineSpot .responseStatusMessage [input] = Spot.next _ _ .firstLine input
      rw [lineSpot, if_neg (by simpa using hin)]
      exact (if_neg hin).symm
  case responseStatusMessage.isTrue hin =>
    subst hin
    show Spot.firstBreak = Spot.next _ _ (lineSpot .responseStatusMessage buffer) _
    rw [lineSpot]
    split_ifs <;> rfl
  case responseStatusMessage.isFalse.isTrue hne _ =>
    show lineSpot .responseStatusMessage (buffer ++ [input]) =
      Spot.next _ _ (lineSpot .responseStatusMessage buffer) input
    have hlonger : buffer ++ [input] ≠ [ascii '\r'] := fun h ↦ by
      have hlast := (List.append_inj' (h.trans (List.nil_append _).symm) rfl).2
      exact hne (by simpa using hlast)
    rw [lineSpot, lineSpot, if_neg hlonger]
    split_ifs with hbuffer
    · have hfeed : input ≠ ascii '\n' := fun hin ↦ hreturn ⟨⟨rfl, hbuffer⟩, hin⟩
      rw [Spot.next, if_neg hfeed, if_neg hne]
    · rw [Spot.next, if_neg hne]
  -- the bytes inside a line
  all_goals refine (if_neg ?_).symm
  case methodStart hin | method hin | headerName hin |
      headerLineStart.isFalse.isFalse.isFalse hin =>
    simp only [tokenTest_eq, Bool.not_eq_true', Bool.not_eq_false] at hin
    exact ne_return_of_isCtl (isCtl_of_isTokenChar hin)
  case uri hin | headerLws.isFalse.isFalse.isFalse hin =>
    exact ne_return_of_isCtl (by simpa using hin)
  case headerValue hne _ | headerLws.isFalse.isTrue hne _ | headerLineStart.isFalse.isTrue hne _ =>
    exact hne
  all_goals exact ne_return_of_isDigit ‹_›

/-! ### Runs from a reset parser -/

theorem phase_consume {c : Cursor} (hc : c.phase = some c.parser.state.phase) (input : UInt8) :
    (consume c input).2.phase = some (consume c input).2.parser.state.phase := by
  rw [follows_consume c input, hc, Option.map_some,
    ParserState.phase_of_mem_successors (state_consume c input)]

variable {mode : Mode} {p : HttpMessageParser}

/-- **The phase is that of the state**, as long as the message goes on. -/
theorem phase_scan {taken : QByteArray}
    (h : (scanner.scan (Cursor.start mode p) taken).verdict = none) :
    (scanner.scan (Cursor.start mode p) taken).state.phase =
      some (scanner.scan (Cursor.start mode p) taken).state.parser.state.phase := by
  refine scanner.scan_state_induction_of_none (P := fun c ↦ c.phase = some c.parser.state.phase)
    (fun c input c' hc hstep ↦ ?_) (by cases mode <;> rfl) h
  have hnext := phase_consume hc input
  rwa [consume_of_scanner_step_none hstep] at hnext

/-- Past the head, no byte changes the status. -/
theorem status_consume {c : Cursor} (hc : c.parser.state.phase = .receivedHeaders)
    (input : UInt8) :
    (consume c input).2.parser.state.phase = .receivedHeaders ∧
      (consume c input).2.message.statusCode = c.message.statusCode ∧
        (consume c input).2.message.statusMessage = c.message.statusMessage := by
  refine ⟨?_, ?_⟩
  · obtain hsame | ⟨hstart, -⟩ | ⟨hline, -⟩ :=
      ParserState.phase_eq_or_next (state_consume c input)
    · exact hsame.trans hc
    · exact absurd (hc.symm.trans hstart) (by simp)
    · exact absurd (hc.symm.trans hline) (by simp)
  · revert hc
    rcases c with ⟨⟨state, remaining, buffer, valueBuffer⟩, message, phase⟩
    cases state
    all_goals rintro ⟨⟩
    all_goals dsimp only [consume, expect]
    all_goals repeat' split
    all_goals exact ⟨rfl, rfl⟩

theorem status_scan {c : Cursor} (hc : c.parser.state.phase = .receivedHeaders)
    (bytes : QByteArray) :
    (scanner.scan c bytes).state.message.statusCode = c.message.statusCode ∧
      (scanner.scan c bytes).state.message.statusMessage = c.message.statusMessage := by
  refine (scanner.scan_state_induction (P := fun d ↦ d.parser.state.phase = .receivedHeaders ∧
    d.message.statusCode = c.message.statusCode ∧
      d.message.statusMessage = c.message.statusMessage) (fun d input hd ↦ ?_) ⟨hc, rfl, rfl⟩
    bytes).2
  obtain ⟨hphase, hcode, hmessage⟩ := status_consume hd.1 input
  rw [hd.2.1] at hcode
  rw [hd.2.2] at hmessage
  rcases hconsume : consume d input with ⟨_ | _ | _ | _ | _, d'⟩ <;>
    rw [hconsume] at hphase hcode hmessage <;> simp only [scanner, hconsume] <;>
    exact ⟨hphase, hcode, hmessage⟩

/-- A cursor whose phase is that of its state. -/
def Cursor.Phased (c : Cursor) : Prop := c.phase = some c.parser.state.phase

theorem phased_scan {c : Cursor} (hc : c.Phased) {bytes : QByteArray}
    (h : (scanner.scan c bytes).verdict = none) : (scanner.scan c bytes).state.Phased := by
  refine scanner.scan_state_induction_of_none (P := Cursor.Phased) (fun d input d' hd hstep ↦ ?_)
    hc h
  have hnext := phase_consume hd input
  rwa [consume_of_scanner_step_none hstep] at hnext

/-- Once the head has been read, this stays the phase as long as the message goes on. -/
theorem phase_scan_of_receivedHeaders {c : Cursor} (hc : c.Phased)
    (hphase : c.phase = some .receivedHeaders) {bytes : QByteArray}
    (h : (scanner.scan c bytes).verdict = none) :
    (scanner.scan c bytes).state.phase = some .receivedHeaders := by
  have hstate : c.parser.state.phase = .receivedHeaders :=
    Option.some.inj (hc.symm.trans hphase)
  refine (phased_scan hc h).trans (congrArg some ?_)
  refine scanner.scan_state_induction_of_none
    (P := fun d ↦ d.parser.state.phase = .receivedHeaders) (fun d input d' hd hstep ↦ ?_) hstate h
  have hnext := (status_consume hd input).1
  rwa [consume_of_scanner_step_none hstep] at hnext

/-- **No header before the end of the start line.** -/
theorem headers_scan_of_start {taken : QByteArray}
    (h : (scanner.scan (Cursor.start mode p) taken).verdict = none)
    (hstart : (scanner.scan (Cursor.start mode p) taken).state.parser.state.phase = .start) :
    (scanner.scan (Cursor.start mode p) taken).state.message.headers = {} := by
  refine scanner.scan_state_induction_of_none
    (P := fun c ↦ c.parser.state.phase = .start → c.message.headers = {})
    (fun c input c' hc hstep hstart ↦ ?_) (fun _ ↦ by cases mode <;> rfl) h hstart
  have hconsume := consume_of_scanner_step_none hstep
  have hstate := state_consume c input
  rw [hconsume] at hstate
  have hbefore : c.parser.state.phase = .start := by
    rcases ParserState.phase_eq_or_next hstate with hsame | ⟨hbefore, -⟩ | ⟨-, hafter⟩
    · rw [← hsame, hstart]
    · exact hbefore
    · exact absurd (hstart.symm.trans hafter) (by simp)
  have hsame := headers_consume_of_start hbefore input
  rw [hconsume] at hsame
  exact hsame.trans (hc hbefore)

theorem empty_foldl_store (ls : List HeaderLine) {h : Headers} (hh : h.empty = false) :
    (ls.foldl HeaderLine.store h).empty = false := by
  induction ls generalizing h with
  | nil => exact hh
  | cons l ls ih => exact ih (HeaderLine.empty_store hh l)

/-- The lines of a head that stores nothing. -/
theorem lines_eq_nil_of_headers_eq {ls : List HeaderLine} (hls : LinesWellFormed {} ls)
    (h : ls.foldl HeaderLine.store {} = {}) : ls = [] := by
  rcases ls with - | ⟨⟨name, value⟩ | ⟨indent, content⟩, ls⟩
  · rfl
  · have hfull : (HeaderLine.store {} (.field name value)).empty = false := rfl
    rw [List.foldl_cons] at h
    exact absurd (empty_foldl_store ls hfull) (by rw [h]; decide)
  · exact absurd hls.1.1 (by decide)

/-! ### Reason phrases that are empty -/

/-- The stream starts with a status line that has no reason phrase. -/
def EmptyReason (mode : Mode) (stream : QByteArray) : Prop :=
  mode = .response ∧ ∃ major minor status : QByteArray,
    (IsWord isDigit major ∧ IsWord isDigit minor ∧ IsWord isDigit status) ∧
      (StatusLine.mk major minor status []).render <+: stream

/-- A rest with which a message broken off after a lone carriage return is complete. -/
def restOfHead : QByteArray := ascii 'X' :: (crlf ++ crlf)

theorem scan_restOfHead {r : UInt64} {v : QByteArray} {m : HttpMessage} (hm : m.headers = {}) :
    scanner.scan (cursorAt .responseStatusMessage r [ascii '\r'] v m) restOfHead =
      ⟨some .valid,
        cursorAt .newline3 r [ascii '\r', ascii 'X'] v
          { m with statusMessage := QString.fromUtf8 [ascii '\r', ascii 'X'] }, []⟩ := by
  rcases m with ⟨method, uri, statusCode, statusMessage, major, minor, headers, body⟩
  dsimp only at hm
  subst hm
  rfl

theorem exists_parse_restOfHead {taken : QByteArray}
    (h : (scanner.scan (Cursor.start mode p) taken).verdict = none)
    (hlone : (scanner.scan (Cursor.start mode p) taken).state.AtLoneReturn) :
    ∃ c, parse (Cursor.start mode p).forget (taken ++ restOfHead) = (.valid, c, []) ∧
      c.message.statusMessage = QString.fromUtf8 [ascii '\r', ascii 'X'] ∧
        c.message.headers = {} := by
  have hheaders := headers_scan_of_start h (by rw [hlone.1]; rfl)
  have hforget := scan_forget (Cursor.start mode p) taken
  rw [parse_eq_scan rfl, scanner.scan_append_of_none (by rw [hforget, h]), hforget]
  clear h hforget
  revert hlone hheaders
  rcases (scanner.scan (Cursor.start mode p) taken).state with
    ⟨⟨state, remaining, buffer, valueBuffer⟩, message, phase⟩
  rintro ⟨hstate, hbuffer⟩ hheaders
  obtain rfl : state = .responseStatusMessage := hstate
  obtain rfl : buffer = [ascii '\r'] := hbuffer
  refine ⟨cursorAt .newline3 remaining [ascii '\r', ascii 'X'] valueBuffer
    { message with statusMessage := QString.fromUtf8 [ascii '\r', ascii 'X'] }, ?_, rfl, hheaders⟩
  dsimp only [Cursor.forget]
  rw [scan_restOfHead hheaders]
  rfl

/-- **A lone carriage return is read after a status code and a space.** The message is completed,
and what the parser has read is then read off the status line it accepts. -/
theorem emptyReason_of_atLoneReturn {taken : QByteArray}
    (h : (scanner.scan (Cursor.start mode p) taken).verdict = none)
    (hlone : (scanner.scan (Cursor.start mode p) taken).state.AtLoneReturn) :
    EmptyReason mode (taken ++ [ascii '\n']) := by
  obtain ⟨c, hparse, hphrase, hheaders⟩ := exists_parse_restOfHead h hlone
  obtain ⟨⟨⟨start, lines⟩, body⟩, hw, -, hstream, hmessage⟩ := exists_wireMessage_of_parse hparse
  have hlines : lines = [] := by
    rw [hmessage] at hheaders
    exact lines_eq_nil_of_headers_eq hw.head.lines hheaders
  subst hlines
  have hbody : body = .none := by
    have hframing : framing (Head.mk start []).headers = .none := by
      rw [Head.headers, List.foldl_nil]
      decide
    have hwf := hw.body
    rw [hframing] at hwf
    cases body with
    | none => rfl
    | fixed | chunked => exact hwf.elim
  subst hbody
  have hstored : c.message.statusMessage = start.message.statusMessage := by
    rw [hmessage]
    rfl
  rw [hphrase] at hstored
  rcases start with l | l
  · have hnone : (StartLine.request l).message.statusMessage = [] := rfl
    rw [hnone] at hstored
    exact absurd hstored (by decide)
  · obtain ⟨hmode, hl⟩ := hw.head.start
    have hreason : l.reason = [ascii '\r', ascii 'X'] := by
      have heq : QString.fromUtf8 [ascii '\r', ascii 'X'] = QString.fromUtf8 l.reason := hstored
      rw [QString.fromUtf8_of_ascii fun b hb ↦ toNat_lt_of_isChar (hl.reason b hb),
        QString.fromUtf8_of_ascii (by decide)] at heq
      exact (QString.fromLatin1_injective heq).symm
    refine ⟨hmode, l.major, l.minor, l.status, ⟨isWord_iff.2 ⟨hl.major_ne, hl.major⟩,
      isWord_iff.2 ⟨hl.minor_ne, hl.minor⟩, isWord_iff.2 ⟨hl.status_ne, hl.status⟩⟩, ?_⟩
    have hsplit : (WireMessage.mk ⟨.status l, []⟩ .none).render =
        asciiBytes "HTTP/" ++ (l.major ++ ascii '.' :: (l.minor ++ ascii ' ' :: (l.status ++
          [ascii ' ', ascii '\r']))) ++ restOfHead := by
      simp [WireMessage.render, Head.render, Head.renderInit, StartLine.render, StatusLine.render,
        hreason, Body.render, restOfHead, crlf]
    rw [hsplit, List.append_nil] at hstream
    rw [List.append_cancel_right hstream]
    exact ⟨[], by simp [StatusLine.render, crlf]⟩

theorem EmptyReason.mono {stream stream' : QByteArray} (h : EmptyReason mode stream)
    (hpre : stream <+: stream') : EmptyReason mode stream' := by
  obtain ⟨hmode, major, minor, status, hdigits, hrender⟩ := h
  exact ⟨hmode, major, minor, status, hdigits, hrender.trans hpre⟩

/-- **The parser is a reader of lines**, on a stream without an empty reason phrase. -/
theorem spot_scan {stream taken : QByteArray} (hreason : ¬ EmptyReason mode stream)
    (htaken : taken <+: stream)
    (h : (scanner.scan (Cursor.start mode p) taken).verdict = none) :
    (scanner.scan (Cursor.start mode p) taken).state.spot =
      spot (ascii '\r') (ascii '\n') taken := by
  refine scanner.scan_induction_of_none
    (P := fun taken c ↦ taken <+: stream → c.spot = spot (ascii '\r') (ascii '\n') taken)
    (fun _ ↦ by cases mode <;> rfl) (fun taken input c' hnone ih hstep hpre ↦ ?_) h htaken
  have hconsume := consume_of_scanner_step_none hstep
  have hincomplete :
      (consume (scanner.scan (Cursor.start mode p) taken).state input).1 = .incomplete := by
    rw [hconsume]
  have hnext := spot_consume hincomplete ?_
  · rw [hconsume] at hnext
    rw [hnext, spot_concat, ih ((List.prefix_append taken [input]).trans hpre)]
  · rintro ⟨hlone, rfl⟩
    exact hreason ((emptyReason_of_atLoneReturn hnone hlone).mono hpre)

/-- The first line is over when the state has left the start line. -/
theorem not_crlf_infix_iff {stream taken : QByteArray} (hreason : ¬ EmptyReason mode stream)
    (htaken : taken <+: stream)
    (h : (scanner.scan (Cursor.start mode p) taken).verdict = none) :
    ¬ crlf <:+: taken ↔
      (scanner.scan (Cursor.start mode p) taken).state.parser.state.phase = .start := by
  rw [← inFirstLine_lineSpot _ (scanner.scan (Cursor.start mode p) taken).state.parser.buffer]
  exact (inFirstLine_spot (by decide) taken).symm.trans (by rw [← spot_scan hreason htaken h]; rfl)

/-- The head is over when the state is one of the body's. -/
theorem crlf_crlf_infix_iff {stream taken : QByteArray} (hreason : ¬ EmptyReason mode stream)
    (htaken : taken <+: stream)
    (h : (scanner.scan (Cursor.start mode p) taken).verdict = none) :
    crlf ++ crlf <:+: taken ↔
      (scanner.scan (Cursor.start mode p) taken).state.parser.state.phase = .receivedHeaders := by
  rw [← lineSpot_eq_pastHead_iff _ (scanner.scan (Cursor.start mode p) taken).state.parser.buffer]
  exact (spot_eq_pastHead_iff (by decide) taken).symm.trans
    (by rw [← spot_scan hreason htaken h]; rfl)

/-! ### Reports -/

theorem parse_singleton (c : Cursor) (input : UInt8) :
    parse c [input] =
      (outcomeOf (scanner.step c input).1, (scanner.step c input).2, []) := by
  rw [parse, parseFrom]
  simp only [scanner]
  rcases consume c input with ⟨_ | _ | _ | _ | _, c'⟩
  · dsimp only
    split <;> rfl
  all_goals rfl

/-- A byte of a stream that is offered to a parser fed from the phase `Start`. -/
structure Reading (mode : Mode) (p : HttpMessageParser) (stream : QByteArray) where
  taken : QByteArray
  input : UInt8
  isPrefix : taken ++ [input] <+: stream
  undecided : (scanner.scan (Cursor.start mode p) taken).verdict = none

namespace Reading

variable {stream : QByteArray} (r : Reading mode p stream)

/-- The parser and the message before the byte. -/
def before : Cursor := (scanner.scan (Cursor.start mode p) r.taken).state

/-- What `parse` returns for the byte. -/
def outcome : Outcome := (parse r.before [r.input]).1

/-- The parser and the message after the byte. -/
def after : Cursor := (parse r.before [r.input]).2.1

/-- The byte changes the phase to the given one. -/
def Reports (phase : ParsePhase) : Prop :=
  r.before.phase ≠ some phase ∧ r.after.phase = some phase

/-! #### One byte -/

theorem outcome_eq : r.outcome = (consume r.before r.input).1 := by
  rw [outcome, parse_singleton]
  simp only [scanner]
  rcases consume r.before r.input with ⟨_ | _ | _ | _ | _, c⟩ <;> rfl

theorem after_eq : r.after = (scanner.step r.before r.input).2 := by
  rw [after, parse_singleton]

theorem after_of_valid (h : r.outcome = .valid) :
    r.after = (consume r.before r.input).2.finish := by
  rw [r.outcome_eq] at h
  rw [r.after_eq, scanner_step_of_valid (Prod.ext h rfl)]

theorem after_of_ne_valid (h : r.outcome ≠ .valid) : r.after = (consume r.before r.input).2 := by
  rw [r.outcome_eq] at h
  rw [r.after_eq]
  rcases hc : consume r.before r.input with ⟨_ | _ | _ | _ | _, c⟩ <;> rw [hc] at h <;>
    simp_all [scanner]

/-- The cursor after the byte is that of the run up to it. -/
theorem scan_taken_concat :
    (scanner.scan (Cursor.start mode p) (r.taken ++ [r.input])).state = r.after := by
  rw [scanner.scan_concat_of_none r.undecided, r.after_eq]
  rfl

/-- The state that the byte is read in, and the one it leads to. -/
abbrev oldState : ParserState := r.before.parser.state

/-- The state after the byte. -/
abbrev newState : ParserState := (consume r.before r.input).2.parser.state

theorem graph : r.newState = r.oldState ∨ r.newState ∈ r.oldState.successors :=
  state_consume r.before r.input

theorem phase_before : r.before.phase = some r.oldState.phase := phase_scan r.undecided

theorem phase_after_of_ne_valid (h : r.outcome ≠ .valid) :
    r.after.phase = some r.newState.phase := by
  rw [r.after_of_ne_valid h]
  exact phase_consume r.phase_before r.input

theorem phase_after_of_valid (h : r.outcome = .valid) :
    r.after.phase = some .receivedFullMessage := by
  rw [r.after_of_valid h, Cursor.finish, phase_consume r.phase_before]
  rfl

/-- A byte that does not end the message reports the phase of the state it leads to. -/
theorem reports_iff {phase : ParsePhase} (hphase : phase ≠ .receivedFullMessage) :
    r.Reports phase ↔
      r.outcome ≠ .valid ∧ r.oldState.phase ≠ phase ∧ r.newState.phase = phase := by
  rw [Reports, r.phase_before, ne_eq, Option.some_inj]
  by_cases hvalid : r.outcome = .valid
  · rw [r.phase_after_of_valid hvalid, Option.some_inj]
    exact iff_of_false (fun h ↦ hphase h.2.symm) fun h ↦ h.1 hvalid
  · rw [r.phase_after_of_ne_valid hvalid, Option.some_inj]
    exact (and_iff_right hvalid).symm

/-- A byte that is not the last leaves the run undecided. -/
theorem verdict_concat (h : r.outcome = .incomplete) :
    (scanner.scan (Cursor.start mode p) (r.taken ++ [r.input])).verdict = none := by
  rw [r.outcome_eq] at h
  rw [scanner.scan_concat_of_none r.undecided]
  exact congrArg Prod.fst (scanner_step_of_incomplete (Prod.ext h rfl))

theorem newState_eq_state_after (h : r.outcome = .incomplete) :
    (scanner.scan (Cursor.start mode p) (r.taken ++ [r.input])).state.parser.state =
      r.newState := by
  rw [r.scan_taken_concat, r.after_of_ne_valid (by rw [h]; simp)]

theorem newState_of_invalid (h : r.outcome = .invalid) : r.newState = r.oldState := by
  rw [r.outcome_eq] at h
  rw [newState, consume_eq_self_of_invalid h]

theorem prefix_taken : r.taken <+: stream := (List.prefix_append _ _).trans r.isPrefix

/-- A byte that ends the run without rejecting it is in the body, or ends a head without one. -/
theorem ends (hincomplete : r.outcome ≠ .incomplete) (hinvalid : r.outcome ≠ .invalid) :
    r.oldState.phase = .receivedHeaders ∧ r.newState.phase = .receivedHeaders ∨
      r.oldState = .newline3 ∧ r.outcome = .valid ∧
        framing r.after.message.headers = .none := by
  rw [r.outcome_eq] at hincomplete hinvalid
  rcases ends_consume hincomplete hinvalid with hold | ⟨hold, hconsume, hframing⟩
  · refine Or.inl ⟨hold, ?_⟩
    rcases ParserState.phase_eq_or_next r.graph with hsame | ⟨hstart, -⟩ | ⟨hline, -⟩
    · exact hsame.trans hold
    · exact absurd (hold.symm.trans hstart) (by simp)
    · exact absurd (hold.symm.trans hline) (by simp)
  · have hvalid : r.outcome = .valid := by rw [r.outcome_eq, hconsume]
    refine Or.inr ⟨hold, hvalid, ?_⟩
    rw [r.after_of_valid hvalid, hconsume]
    exact hframing

/-- **Where the start line ends**: at the first line break of a stream without an empty reason
phrase. -/
theorem reports_messageLine_iff (hreason : ¬ EmptyReason mode stream) :
    r.Reports .receivedMessageLine ↔ r.outcome ≠ .invalid ∧ Completes crlf r.taken r.input := by
  rw [r.reports_iff (by simp), Completes, not_crlf_infix_iff hreason r.prefix_taken r.undecided]
  show r.outcome ≠ .valid ∧ r.oldState.phase ≠ _ ∧ _ ↔ _ ∧ r.oldState.phase = .start ∧ _
  by_cases hincomplete : r.outcome = .incomplete
  · have hnew := not_crlf_infix_iff hreason r.isPrefix (r.verdict_concat hincomplete)
    rw [r.newState_eq_state_after hincomplete] at hnew
    rw [← not_not (a := crlf <:+: r.taken ++ [r.input]), hnew, hincomplete]
    rcases ParserState.phase_eq_or_next r.graph with hsame | ⟨hold, hnext⟩ | ⟨hold, hnext⟩
    · rw [hsame]
      tauto
    · simp [hold, hnext]
    · simp [hold, hnext]
  · by_cases hinvalid : r.outcome = .invalid
    · rw [r.newState_of_invalid hinvalid]
      tauto
    · rcases r.ends hincomplete hinvalid with ⟨hold, hnext⟩ | ⟨hold, hvalid, -⟩
      · simp [hold, hnext]
      · have hline : r.oldState.phase = .receivedMessageLine := by rw [hold]; rfl
        simp [hvalid, hline]

theorem headers_of_reports_messageLine (h : r.Reports .receivedMessageLine) :
    r.after.message.headers = {} := by
  obtain ⟨hvalid, hold, hnew⟩ := (r.reports_iff (by simp)).1 h
  have hstart : r.oldState.phase = .start := by
    rcases ParserState.phase_eq_or_next r.graph with hsame | ⟨hstart, -⟩ | ⟨hline, -⟩
    · exact absurd (hsame.symm.trans hnew) hold
    · exact hstart
    · exact absurd hline hold
  rw [r.after_of_ne_valid hvalid, headers_consume_of_start hstart]
  exact headers_scan_of_start r.undecided hstart

/-- **Where the headers end**: at the first empty line after the start line, and if they announce a
body. -/
theorem reports_headers_iff (hreason : ¬ EmptyReason mode stream) :
    r.Reports .receivedHeaders ↔
      r.outcome ≠ .invalid ∧ Completes (crlf ++ crlf) r.taken r.input ∧
        AnnouncesBody r.after.message.headers := by
  rw [r.reports_iff (by simp), Completes, crlf_crlf_infix_iff hreason r.prefix_taken r.undecided]
  show r.outcome ≠ .valid ∧ r.oldState.phase ≠ _ ∧ _ ↔ _ ∧ (r.oldState.phase ≠ _ ∧ _) ∧ _
  by_cases hincomplete : r.outcome = .incomplete
  · have hnew := crlf_crlf_infix_iff hreason r.isPrefix (r.verdict_concat hincomplete)
    rw [r.newState_eq_state_after hincomplete] at hnew
    rw [hnew, hincomplete, r.after_of_ne_valid (by simp [hincomplete])]
    have hannounces := @enters_body r.before r.input
    tauto
  · by_cases hinvalid : r.outcome = .invalid
    · rw [r.newState_of_invalid hinvalid]
      tauto
    · rcases r.ends hincomplete hinvalid with ⟨hold, hnext⟩ | ⟨hold, hvalid, hframing⟩
      · simp [hold]
      · simp [hvalid, AnnouncesBody, hframing]

theorem inBody_of_reports_headers (h : r.Reports .receivedHeaders) : InBody r.after := by
  obtain ⟨hvalid, -, hnew⟩ := (r.reports_iff (by simp)).1 h
  rw [r.after_of_ne_valid hvalid]
  exact ParserState.inHead_eq_false_of_phase hnew

theorem body_of_reports_headers (h : r.Reports .receivedHeaders) : r.after.message.body = [] := by
  obtain ⟨hvalid, hold, hnew⟩ := (r.reports_iff (by simp)).1 h
  rw [r.after_of_ne_valid hvalid]
  exact (enters_body hold hnew).2

theorem reports_fullMessage_iff : r.Reports .receivedFullMessage ↔ r.outcome = .valid := by
  constructor
  · rintro ⟨-, hafter⟩
    by_contra hvalid
    rw [r.phase_after_of_ne_valid hvalid, Option.some_inj] at hafter
    exact r.newState.phase_ne_receivedFullMessage hafter
  · intro hvalid
    refine ⟨?_, r.phase_after_of_valid hvalid⟩
    rw [r.phase_before, ne_eq, Option.some_inj]
    exact r.oldState.phase_ne_receivedFullMessage

theorem after_of_invalid (h : r.outcome = .invalid) : r.after = r.before := by
  rw [r.after_of_ne_valid (by simp [h])]
  rw [r.outcome_eq] at h
  exact consume_eq_self_of_invalid h

end Reading

/-! ### Whole runs -/

/-- **The phase never decreases** along a run. -/
theorem exists_phase_scan {c : Cursor} {phase : ParsePhase} (hc : c.phase = some phase)
    (bytes : QByteArray) :
    ∃ phase', (scanner.scan c bytes).state.phase = some phase' ∧ phase.rank ≤ phase'.rank := by
  refine scanner.scan_state_induction
    (P := fun d ↦ ∃ phase', d.phase = some phase' ∧ phase.rank ≤ phase'.rank)
    (fun d input ⟨phase', hd, hle⟩ ↦ ?_) ⟨phase, hc, le_rfl⟩ bytes
  have hfollows := follows_consume d input
  rw [Cursor.Follows, hd, Option.map_some] at hfollows
  have hmono := phase'.rank_le_transition d.parser.state (consume d input).2.parser.state
  rcases hconsume : consume d input with ⟨o, d'⟩
  rw [hconsume] at hfollows hmono
  by_cases hvalid : o = .valid
  · subst hvalid
    rw [scanner_step_of_valid hconsume, Cursor.finish, hfollows]
    exact ⟨.receivedFullMessage, rfl, by cases phase <;> decide⟩
  · refine ⟨_, ?_, hle.trans hmono⟩
    rw [← hfollows]
    cases o <;> simp_all [scanner]

/-- Along a stream too, after the run has ended. -/
theorem exists_phases_of_isPrefix {taken taken' : QByteArray} (hpre : taken <+: taken') :
    ∃ phase phase', (scanner.scan (Cursor.start mode p) taken).state.phase = some phase ∧
      (scanner.scan (Cursor.start mode p) taken').state.phase = some phase' ∧
        phase.rank ≤ phase'.rank := by
  obtain ⟨more, rfl⟩ := hpre
  obtain ⟨phase, hphase, -⟩ :=
    @exists_phase_scan (Cursor.start mode p) .start rfl taken
  rcases hverdict : (scanner.scan (Cursor.start mode p) taken).verdict with - | o
  · obtain ⟨phase', hphase', hle⟩ := exists_phase_scan hphase more
    refine ⟨phase, phase', hphase, ?_, hle⟩
    rw [scanner.scan_append_of_none hverdict]
    exact hphase'
  · refine ⟨phase, phase, hphase, ?_, le_rfl⟩
    rw [scanner.scan_append_of_some hverdict]
    exact hphase

/-- **No phase is reported twice.** -/
theorem Reading.taken_eq_of_reports {stream : QByteArray} {r r' : Reading mode p stream}
    {phase : ParsePhase} (h : r.Reports phase) (h' : r'.Reports phase) : r.taken = r'.taken := by
  -- a phase reported at the shorter of the two prefixes is there when the longer one is offered
  have hlater (r r' : Reading mode p stream) (h : r.Reports phase) (h' : r'.Reports phase) :
      ¬ r.taken.length < r'.taken.length := by
    intro hlt
    have hpre : r.taken ++ [r.input] <+: r'.taken :=
      List.prefix_of_prefix_length_le r.isPrefix r'.prefix_taken
        (by rw [List.length_append]; exact hlt)
    obtain ⟨phase₁, phase₂, h₁, h₂, hle⟩ := @exists_phases_of_isPrefix mode p _ _ hpre
    obtain ⟨phase₃, phase₄, h₃, h₄, hle'⟩ :=
      @exists_phases_of_isPrefix mode p _ _ (List.prefix_append r'.taken [r'.input])
    rw [r.scan_taken_concat, h.2] at h₁
    rw [r'.scan_taken_concat, h'.2] at h₄
    have hbefore : r'.before.phase = some phase₂ := h₂
    have hsame : phase₃ = phase₂ := Option.some_inj.1 (h₃.symm.trans h₂)
    obtain rfl : phase = phase₁ := Option.some_inj.1 h₁
    obtain rfl : phase = phase₄ := Option.some_inj.1 h₄
    subst hsame
    refine h'.1 (hbefore.trans (congrArg some (ParsePhase.rank_injective ?_)))
    omega
  have hlength := hlater r r' h h'
  have hlength' := hlater r' r h' h
  have heq : r.taken.length = r'.taken.length := by omega
  exact (List.prefix_of_prefix_length_le r.prefix_taken r'.prefix_taken heq.le).eq_of_length heq

/-- **Phases are reported once, in order, and at the right byte.** -/
structure ReportsPhases (mode : Mode) (p : HttpMessageParser) (stream : QByteArray) : Prop where
  /-- The phase only ever increases. -/
  increases : ∀ taken taken' : QByteArray, taken <+: taken' → taken' <+: stream →
    ∃ phase phase', (scanner.scan (Cursor.start mode p) taken).state.phase = some phase ∧
      (scanner.scan (Cursor.start mode p) taken').state.phase = some phase' ∧
        phase.rank ≤ phase'.rank
  once : ∀ (r r' : Reading mode p stream) (phase : ParsePhase),
    r.Reports phase → r'.Reports phase → r.taken = r'.taken
  /-- The start line is reported at its line feed. -/
  messageLine : ∀ r : Reading mode p stream, r.Reports .receivedMessageLine ↔
    r.outcome ≠ .invalid ∧ Completes crlf r.taken r.input
  noHeader : ∀ r : Reading mode p stream, r.Reports .receivedMessageLine →
    r.after.message.headers = {}
  /-- The headers are reported at the line feed that ends them, if a body is announced. -/
  headers : ∀ r : Reading mode p stream, r.Reports .receivedHeaders ↔
    r.outcome ≠ .invalid ∧ Completes (crlf ++ crlf) r.taken r.input ∧
      AnnouncesBody r.after.message.headers
  /-- They are all there: what follows does not change them. -/
  allHeaders : ∀ r : Reading mode p stream, r.Reports .receivedHeaders → ∀ bytes,
    (scanner.scan r.after bytes).state.message.headers = r.after.message.headers
  noBody : ∀ r : Reading mode p stream, r.Reports .receivedHeaders → r.after.message.body = []
  fullMessage : ∀ r : Reading mode p stream,
    r.Reports .receivedFullMessage ↔ r.outcome = .valid
  invalid : ∀ r : Reading mode p stream, r.outcome = .invalid → r.after.phase = r.before.phase

/-- A status line without a reason phrase, up to its carriage return. -/
def statusStart (major minor status : QByteArray) : QByteArray :=
  asciiBytes "HTTP/" ++ (major ++ ascii '.' :: (minor ++ ascii ' ' :: (status ++ [ascii ' '])))

/-- Its carriage return is taken for the first byte of a reason phrase. -/
theorem scan_statusStart {major minor status : QByteArray}
    (hdigits : IsWord isDigit major ∧ IsWord isDigit minor ∧ IsWord isDigit status) :
    (scanner.scan (Cursor.start .response p)
        (statusStart major minor status ++ [ascii '\r'])).verdict = none ∧
      (scanner.scan (Cursor.start .response p)
        (statusStart major minor status ++ [ascii '\r'])).state.AtLoneReturn := by
  have hread := (reads_statusNumbers (r := 0) (b := []) (v := [])).complete
    (major, minor, status) hdigits [ascii '\r']
  have hforget := scan_forget (Cursor.start .response p)
    (statusStart major minor status ++ [ascii '\r'])
  have heq := hforget.symm.trans hread
  exact ⟨congrArg Scan.verdict heq,
    congrArg (fun s : Scan Cursor UInt8 Outcome ↦ s.state.parser.state) heq,
    congrArg (fun s : Scan Cursor UInt8 Outcome ↦ s.state.parser.buffer) heq⟩

/-- There is no carriage return before it. -/
theorem not_crlf_infix_statusStart {major minor status : QByteArray}
    (hdigits : IsWord isDigit major ∧ IsWord isDigit minor ∧ IsWord isDigit status) :
    ¬ crlf <:+: statusStart major minor status ++ [ascii '\r'] := by
  have hnumber {t : QByteArray} (ht : IsWord isDigit t) : ascii '\r' ∉ t := fun hmem ↦
    absurd ((isWord_iff.1 ht).2 _ hmem) (by decide)
  have hnone : ascii '\r' ∉ statusStart major minor status := by
    simp only [statusStart, List.mem_append, List.mem_cons, List.not_mem_nil, not_or]
    exact ⟨by decide, hnumber hdigits.1, by decide, hnumber hdigits.2.1, by decide,
      hnumber hdigits.2.2, by decide, not_false⟩
  rw [List.infix_concat_iff, not_or]
  constructor
  · intro hsuffix
    have hlast := (concat_suffix_concat_iff (l := [ascii '\r'])).1 hsuffix
    exact absurd hlast.1 (by decide)
  · intro hin
    exact hnone (hin.subset List.mem_cons_self)

/-- The line feed is taken for the second one. -/
theorem consume_lineFeed_of_atLoneReturn {c : Cursor} (hlone : c.AtLoneReturn) :
    (consume c (ascii '\n')).1 = .incomplete ∧
      (consume c (ascii '\n')).2.parser.state = .responseStatusMessage := by
  rcases c with ⟨⟨state, remaining, buffer, valueBuffer⟩, message, phase⟩
  obtain rfl : state = .responseStatusMessage := hlone.1
  exact ⟨rfl, rfl⟩

/-- **The line feed of a status line without a reason phrase reports nothing.** -/
theorem not_reportsPhases_of_emptyReason {stream : QByteArray}
    (hreason : EmptyReason mode stream) : ¬ ReportsPhases mode p stream := by
  obtain ⟨rfl, major, minor, status, hdigits, hpre⟩ := hreason
  intro hreports
  obtain ⟨hundecided, hlone⟩ := scan_statusStart (p := p) hdigits
  have hrender : (StatusLine.mk major minor status []).render =
      statusStart major minor status ++ [ascii '\r'] ++ [ascii '\n'] := by
    simp [StatusLine.render, statusStart, crlf]
  let r : Reading .response p stream :=
    ⟨statusStart major minor status ++ [ascii '\r'], ascii '\n', hrender ▸ hpre, hundecided⟩
  obtain ⟨hincomplete, hstate⟩ := consume_lineFeed_of_atLoneReturn hlone
  have houtcome : r.outcome = .incomplete := r.outcome_eq.trans hincomplete
  have hcompletes : Completes crlf r.taken r.input :=
    ⟨not_crlf_infix_statusStart hdigits, ⟨statusStart major minor status, [], by simp [r, crlf]⟩⟩
  have hreported := (hreports.messageLine r).2 ⟨by rw [houtcome]; simp, hcompletes⟩
  obtain ⟨-, -, hnew⟩ := (r.reports_iff (by simp)).1 hreported
  have hstart : r.newState = .responseStatusMessage := hstate
  rw [hstart] at hnew
  exact absurd hnew (by decide)

/-- **When phases are reported as they should be**: exactly when the stream does not start with a
status line that has no reason phrase. -/
theorem reportsPhases_iff (mode : Mode) (p : HttpMessageParser) (stream : QByteArray) :
    ReportsPhases mode p stream ↔ ¬ EmptyReason mode stream := by
  constructor
  · exact fun hreports hreason ↦ not_reportsPhases_of_emptyReason hreason hreports
  · intro hreason
    exact
      { increases := fun _ _ hpre _ ↦ exists_phases_of_isPrefix hpre
        once := fun _ _ _ ↦ Reading.taken_eq_of_reports
        messageLine := fun r ↦ r.reports_messageLine_iff hreason
        noHeader := fun r ↦ r.headers_of_reports_messageLine
        headers := fun r ↦ r.reports_headers_iff hreason
        allHeaders := fun r h ↦ headers_scan_of_inBody (r.inBody_of_reports_headers h)
        noBody := fun r ↦ r.body_of_reports_headers
        fullMessage := fun r ↦ r.reports_fullMessage_iff
        invalid := fun r h ↦ congrArg Cursor.phase (r.after_of_invalid h) }

/-- A response without a reason phrase. -/
def silentResponse : QByteArray := asciiBytes "HTTP/1.1 200 \r\nServer: x\r\n\r\n"

theorem silentResponse_not_reportsPhases : ¬ ReportsPhases .response {} silentResponse := by
  refine not_reportsPhases_of_emptyReason ⟨rfl, asciiBytes "1", asciiBytes "1", asciiBytes "200",
    ⟨isWord_iff.2 (by decide), isWord_iff.2 (by decide), isWord_iff.2 (by decide)⟩, ?_⟩
  exact ⟨asciiBytes "Server: x\r\n\r\n", by decide⟩

end HttpMessageParser

end Amanuensis
